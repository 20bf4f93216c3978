import VibeLens.Proofs.Files.Following

set_option autoImplicit false

/-!
Canonical locations. Where names lead to, no link stands on the way from the top any more, so that
following the text of that location comes back to it. A location that is left over by a circle of
links can still have links in it, but its names are proper ones.
-/

namespace VibeLens.FileTree

open VibeLens.Path (IsName isPlain pieces)

variable {t : FileTree} {cwd here there l : Location} {names : List String}

/-- Neither the location nor one above it is a link. -/
def LinkFree (t : FileTree) (l : Location) : Prop :=
  ∀ above, above <+: l → ∀ target, t.get? above ≠ some (.link target)

theorem linkFree_top : t.LinkFree [] := by
  intro above isAbove target
  rw [List.prefix_nil.1 isAbove]
  simp

theorem LinkFree.of_prefix {above : Location} (free : t.LinkFree l) (isAbove : above <+: l) :
    t.LinkFree above :=
  fun higher isHigher => free higher (isHigher.trans isAbove)

theorem LinkFree.concat {name : String} (free : t.LinkFree l)
    (noLink : ∀ target, t.get? (l ++ [name]) ≠ some (.link target)) :
    t.LinkFree (l ++ [name]) := by
  intro above isAbove
  rcases List.prefix_concat_iff.1 isAbove with rfl | isAbove
  · exact noLink
  · exact free above isAbove

theorem Leads.linkFree (way : t.Leads here names there) (free : t.LinkFree here) :
    t.LinkFree there :=
  way.invariant (Q := fun _ => True) (fun _ _ _ _ _ => trivial) linkFree_top
    (fun l free => free.of_prefix l.dropLast_prefix)
    (fun _ _ free _ _ _ noLink => free.concat noLink) (fun _ _ => trivial) free

theorem isName_concat {name : String} (proper : ∀ name ∈ here, IsName name)
    (plain : isPlain name = true) (notAbove : name ≠ "..") (noSlash : '/' ∉ name.toList) :
    ∀ other ∈ here ++ [name], IsName other := by
  intro other member
  rcases List.mem_append.1 member with member | member
  · exact proper other member
  · obtain rfl := List.mem_singleton.1 member
    have notBlank := isPlain_iff.1 plain
    exact ⟨fun h => notBlank (.inl h), fun h => notBlank (.inr h), notAbove, noSlash⟩

theorem isName_linkStart (proper : ∀ name ∈ here, IsName name) (target : String) :
    ∀ name ∈ linkStart here target, IsName name := by
  unfold linkStart
  split
  · simp
  · exact proper

theorem Leads.isName (way : t.Leads here names there)
    (noSlash : ∀ name ∈ names, '/' ∉ name.toList) (proper : ∀ name ∈ here, IsName name) :
    ∀ name ∈ there, IsName name := by
  refine way.invariant (P := fun l => ∀ name ∈ l, IsName name)
    (fun _ _ _ _ => Path.noSlash_of_mem_pieces) (by simp)
    (fun l proper name member => proper name (List.dropLast_subset _ member)) ?_ noSlash proper
  exact fun l name proper noSlash plain notAbove _ => isName_concat proper plain notAbove noSlash

theorem LinkFree.leads_append (free : t.LinkFree (here ++ names))
    (proper : ∀ name ∈ names, IsName name) : t.Leads here names (here ++ names) := by
  induction names generalizing here with
  | nil => simpa using Leads.nil here
  | cons name rest ih =>
    have isName : IsName name := proper name (by simp)
    have plain : isPlain name = true := isPlain_iff.2 (by simp [isName.nonempty, isName.notHere])
    have noLink := free (here ++ [name]) (by simp)
    have later : t.Leads (here ++ [name]) rest (here ++ [name] ++ rest) :=
      ih (by simpa using free) fun other member => proper other (.tail _ member)
    rw [Leads.cons_iff, follows_literal plain isName.notAbove noLink]
    simpa using later

theorem LinkFree.leads (free : t.LinkFree l) (proper : ∀ name ∈ l, IsName name) : t.Leads [] l l :=
  LinkFree.leads_append (by simpa using free) proper

theorem leads_of_locate (proper : ∀ name ∈ l, IsName name)
    (found : t.locate cwd true (Location.text l) = .ok there) : t.Leads [] l there := by
  by_cases isTop : l = []
  · subst isTop
    rw [locate_text_top] at found
    cases found
    exact .nil []
  · rw [locate_text t cwd true isTop proper] at found
    exact leads_of_walk (fun member => (proper "" member).nonempty rfl) found

section Circles

variable {fuel : Nat} {busy : List Reached} {place : Reached} {left : List String}

theorem isName_down {name : String} (proper : ∀ name ∈ place.location cwd, IsName name)
    (plain : ¬ (name = "" ∨ name = ".")) (notAbove : name ≠ "..") (noSlash : '/' ∉ name.toList) :
    ∀ other ∈ (place.down name).location cwd, IsName other := by
  rw [Reached.location_down]
  exact isName_concat proper (isPlain_iff.2 plain) notAbove noSlash

theorem noSlash_leaveOver {rest : List String} (first : ∀ name ∈ names, '/' ∉ name.toList)
    (second : ∀ name ∈ rest, '/' ∉ name.toList) :
    ∀ name ∈ leaveOver names rest, '/' ∉ name.toList := by
  unfold leaveOver
  split
  · exact fun name member => second name (.tail _ member)
  · exact fun name member => (List.mem_append.1 member).elim (first name) (second name)

/-- What a circle leaves over are names from the way so far and names not yet followed. -/
theorem noSlash_of_circular (stuck : t.follow cwd fuel busy place names = .circular left)
    (noSlash : ∀ name ∈ names, '/' ∉ name.toList)
    (proper : ∀ name ∈ place.location cwd, IsName name) :
    ∀ name ∈ left, '/' ∉ name.toList := by
  fun_induction follow t cwd fuel busy place names generalizing left with
  | case1 => cases stuck
  | case2 fuel busy place name rest _ ih => exact ih stuck (by simp_all) proper
  | case3 fuel busy place rest _ ih =>
    refine ih stuck (by simp_all) fun name member => proper name ?_
    rw [Reached.location_up] at member
    exact List.dropLast_subset _ member
  | case4 fuel busy place name rest plain notAbove next target found broken =>
    rw [← Followed.circular.inj stuck]
    have proper := isName_down proper plain notAbove (noSlash name (.head _))
    exact noSlash_leaveOver (fun other member => (proper other member).noSlash) (by simp_all)
  | case5 busy place name rest plain notAbove next target found broken =>
    rw [← Followed.circular.inj stuck]
    have proper := isName_down proper plain notAbove (noSlash name (.head _))
    exact noSlash_leaveOver (fun other member => (proper other member).noSlash) (by simp_all)
  | case6 busy place name rest plain notAbove next target found _ fuel start mid inside =>
    rename_i ih later
    apply later stuck (by simp_all)
    have way := Reached.location_start place cwd target ▸ leads_of_follow inside
    exact way.isName (fun _ => Path.noSlash_of_mem_pieces) (isName_linkStart proper target)
  | case7 busy place name rest plain notAbove next target found _ fuel start inner =>
    rename_i inside ih
    rw [← Followed.circular.inj stuck]
    refine noSlash_leaveOver (ih inside (fun _ => Path.noSlash_of_mem_pieces) ?_) (by simp_all)
    exact Reached.location_start place cwd target ▸ isName_linkStart proper target
  | case8 fuel busy place name rest plain notAbove next noLink =>
    rename_i ih
    exact ih stuck (by simp_all) (isName_down proper plain notAbove (noSlash name (.head _)))

end Circles

theorem isName_collapse (noSlash : ∀ name ∈ names, '/' ∉ name.toList) :
    ∀ name ∈ Path.collapse names, IsName name := by
  -- The names kept so far stand backwards in the fold.
  have kept : ∀ (rest back : List String), (∀ name ∈ back, IsName name) →
      (∀ name ∈ rest, isPlain name = true ∧ '/' ∉ name.toList) →
      ∀ name ∈ rest.foldl (fun back name => if name = ".." then back.tail else name :: back) back,
        IsName name := by
    intro rest
    induction rest with
    | nil => exact fun back proper _ => proper
    | cons name rest ih =>
      intro back proper plain
      rw [List.foldl_cons]
      refine ih _ ?_ fun other member => plain other (.tail _ member)
      have this := plain name (.head _)
      split
      · exact fun other member => proper other (List.mem_of_mem_tail member)
      · rename_i notAbove
        have notBlank := isPlain_iff.1 this.1
        intro other member
        rcases List.mem_cons.1 member with rfl | member
        · exact ⟨fun h => notBlank (.inl h), fun h => notBlank (.inr h), notAbove, this.2⟩
        · exact proper other member
  intro name member
  refine kept _ [] (by simp) (fun other inside => ?_) name (List.mem_reverse.1 member)
  exact ⟨(List.mem_filter.1 inside).2, noSlash other (List.mem_filter.1 inside).1⟩

section Resolve

variable {p : Path}

def startOf (cwd : Location) (p : Path) : Location := if p.isAbsolute then [] else cwd

theorem location_startOf (cwd : Location) (p : Path) :
    (if p.isAbsolute then Reached.top else Reached.here).location cwd = startOf cwd p := by
  unfold startOf
  split
  · rfl
  · simp [Reached.here, Reached.location]

theorem isName_startOf (proper : ∀ name ∈ cwd, IsName name) : ∀ name ∈ startOf cwd p, IsName name := by
  unfold startOf
  split
  · simp
  · exact proper

/-- The place that following a path comes to or, after a circle, what is left over, taken by its
text alone. -/
def canonical (t : FileTree) (cwd : Location) (p : Path) : Location :=
  match t.follow cwd (t.linkNesting cwd) [] (if p.isAbsolute then .top else .here) p.names with
  | .reached r => r.location cwd
  | .circular names => Path.collapse names

/-- The canonical place is the result, unless looking it up meets a circle of links. -/
def settled (t : FileTree) (cwd l : Location) : Except PathFault Location :=
  match t.find cwd (Location.text l) with
  | .error .tooManyLinks => .error .linkLoop
  | _ => .ok l

theorem resolve_eq : t.resolve cwd p =
    if hasZero p.toString then .error .zeroCharacter
    else t.settled cwd (t.canonical cwd p) := rfl

theorem resolve_eq_ok_iff :
    t.resolve cwd p = .ok l ↔
      hasZero p.toString = false ∧ t.canonical cwd p = l ∧
        t.find cwd (Location.text l) ≠ .error .tooManyLinks := by
  rw [resolve_eq]
  by_cases zero : hasZero p.toString = true
  · simp [zero]
  · rw [if_neg zero, settled]
    split
    · rename_i looping
      simp only [reduceCtorEq, false_iff, not_and]
      rintro - rfl
      exact fun sound => sound looping
    · rename_i sound
      constructor
      · intro same
        obtain rfl := Except.ok.inj same
        exact ⟨by simpa using zero, rfl, sound⟩
      · rintro ⟨-, rfl, -⟩
        rfl

theorem leads_of_resolve (resolved : t.resolve cwd p = .ok l)
    (ends : ∃ there, t.Leads (startOf cwd p) p.names there) :
    t.Leads (startOf cwd p) p.names l := by
  obtain ⟨-, rfl, -⟩ := resolve_eq_ok_iff.1 resolved
  obtain ⟨there, way⟩ := ends
  obtain ⟨r, came, rfl⟩ := leads_iff_follow.1 (location_startOf cwd p ▸ way)
  simpa only [canonical, came] using way

theorem isName_of_resolve (resolved : t.resolve cwd p = .ok l) (proper : ∀ name ∈ cwd, IsName name)
    (noSlash : ∀ name ∈ p.names, '/' ∉ name.toList) : ∀ name ∈ l, IsName name := by
  obtain ⟨-, rfl, -⟩ := resolve_eq_ok_iff.1 resolved
  have start := location_startOf cwd p ▸ isName_startOf proper
  unfold canonical
  split
  · rename_i r came
    exact (leads_of_follow came).isName noSlash start
  · rename_i left stuck
    exact isName_collapse (noSlash_of_circular stuck noSlash start)

theorem leads_of_locate_ofString {text : String} (found : t.locate cwd true text = .ok l) :
    t.Leads (startOf cwd (Path.ofString text)) (Path.ofString text).names l := by
  unfold locate at found
  split at found
  · cases found
  · have way : t.Leads (if isAbsoluteText text then [] else cwd) (systemNames text) l :=
      leads_of_walk (empty_notMem_systemNames text) found
    rw [← List.append_nil (systemNames text), leads_systemNames_append_iff,
      ← Leads.filter_isPlain_append_iff, List.append_nil] at way
    rw [startOf, Path.isAbsolute_ofString]
    exact way

theorem LinkFree.walk_ne_tooManyLinks {followLast : Bool} {links : Nat}
    (free : t.LinkFree (here ++ names)) (proper : ∀ name ∈ names, IsName name) :
    t.walk followLast links here names ≠ .error .tooManyLinks := by
  induction names generalizing here with
  | nil => simp [walk]
  | cons name rest ih =>
    obtain ⟨isName, properRest⟩ := List.forall_mem_cons.mp proper
    have noLink := free (here ++ [name]) (by simp)
    have later : t.walk followLast links (here ++ [name]) rest ≠ .error .tooManyLinks :=
      ih (by simpa using free) properRest
    rw [walk]
    split
    · simp
    · simp
    · simp
    · rw [if_neg isName.notHere, if_neg isName.notAbove]
      split
      · exact absurd ‹_› (noLink _)
      · exact later

theorem LinkFree.find_ne_tooManyLinks (free : t.LinkFree l) (proper : ∀ name ∈ l, IsName name) :
    t.find cwd (Location.text l) ≠ .error .tooManyLinks := by
  have noCircle : t.locate cwd true (Location.text l) ≠ .error .tooManyLinks := by
    by_cases isTop : l = []
    · rw [isTop, locate_text_top]
      nofun
    · rw [locate_text t cwd true isTop proper]
      exact walk_ne_tooManyLinks (by simpa using free) proper
  unfold find
  split
  · rename_i e refused
    rw [refused] at noCircle
    simpa using noCircle
  · split <;> nofun

/-- Where a path leads is its canonical location. -/
theorem resolve_of_leads (way : t.Leads (startOf cwd p) p.names l) (free : t.LinkFree l)
    (proper : ∀ name ∈ l, IsName name) (noZero : hasZero p.toString = false) :
    t.resolve cwd p = .ok l := by
  obtain ⟨r, came, rfl⟩ := leads_iff_follow.mp (location_startOf cwd p ▸ way)
  refine resolve_eq_ok_iff.mpr ⟨noZero, ?_, free.find_ne_tooManyLinks proper⟩
  simp only [canonical, came]

theorem LinkFree.resolve_ofLocation (free : t.LinkFree l) (proper : ∀ name ∈ l, IsName name)
    (noZero : hasZero (Location.text l) = false) : t.resolve cwd (Path.ofLocation l) = .ok l :=
  resolve_of_leads (free.leads proper) free proper noZero

end Resolve

end VibeLens.FileTree
