import Mathlib.Data.List.Perm.Subperm
import Mathlib.Order.Nat
import VibeLens.Files.Program
import VibeLens.Proofs.Files.Names

set_option autoImplicit false

/-!
Where names lead. Following a list of names is a relation: it has no end if links lead in a circle,
and then it leads nowhere. The resolution with its list of busy links finds the end whenever there is
one, and the system's own look-up can find no other.
-/

namespace VibeLens.FileTree

open VibeLens.Path (isPlain pieces)

variable {t : FileTree} {cwd here there mid : Location} {names rest : List String} {n m : Nat}

/-- Where the target of a link is followed from. -/
def linkStart (here : Location) (target : String) : Location :=
  if isAbsoluteText target then [] else here

/-- What one name at a location stands for: another location, and the names to be followed from
there. Only a link leaves any. A name at which nothing stands is kept. -/
def follows (t : FileTree) (here : Location) (name : String) : Location × List String :=
  if !isPlain name then (here, [])
  else if name = ".." then (here.dropLast, [])
  else
    match t.get? (here ++ [name]) with
    | some (.link target) => (linkStart here target, pieces target)
    | _ => (here ++ [name], [])

inductive LeadsIn (t : FileTree) : Nat → Location → List String → Location → Prop where
  | done (here : Location) : LeadsIn t 0 here [] here
  | step {n : Nat} {here there : Location} {name : String} {rest : List String} :
      LeadsIn t n (t.follows here name).1 ((t.follows here name).2 ++ rest) there →
      LeadsIn t (n + 1) here (name :: rest) there

def Leads (t : FileTree) (here : Location) (names : List String) (there : Location) : Prop :=
  ∃ n, LeadsIn t n here names there

section Follows

variable {name target : String}

theorem follows_blank (blank : isPlain name = false) : t.follows here name = (here, []) := by
  simp [follows, blank]

theorem follows_above : t.follows here ".." = (here.dropLast, []) := by
  simp [follows, isPlain]

theorem follows_link (plain : isPlain name = true) (notAbove : name ≠ "..")
    (found : t.get? (here ++ [name]) = some (.link target)) :
    t.follows here name = (linkStart here target, pieces target) := by
  simp [follows, plain, notAbove, found]

theorem follows_literal (plain : isPlain name = true) (notAbove : name ≠ "..")
    (noLink : ∀ target, t.get? (here ++ [name]) ≠ some (.link target)) :
    t.follows here name = (here ++ [name], []) := by
  simp [follows, plain, notAbove]

theorem name_cases (t : FileTree) (here : Location) (name : String) :
    isPlain name = false ∨ name = ".." ∨
      (isPlain name = true ∧ name ≠ ".." ∧ ∃ target, t.get? (here ++ [name]) = some (.link target)) ∨
      (isPlain name = true ∧ name ≠ ".." ∧
        ∀ target, t.get? (here ++ [name]) ≠ some (.link target)) := by
  by_cases plain : isPlain name = true
  · by_cases above : name = ".."
    · exact .inr (.inl above)
    · by_cases link : ∃ target, t.get? (here ++ [name]) = some (.link target)
      · exact .inr (.inr (.inl ⟨plain, above, link⟩))
      · exact .inr (.inr (.inr ⟨plain, above, not_exists.1 link⟩))
  · exact .inl (by simpa using plain)

end Follows

namespace LeadsIn

theorem unique {first second : Location} (one : LeadsIn t n here names first)
    (other : LeadsIn t m here names second) : n = m ∧ first = second := by
  induction one generalizing m second with
  | done => cases other; exact ⟨rfl, rfl⟩
  | step _ ih =>
    cases other with
    | step later => exact ⟨congrArg (· + 1) (ih later).1, (ih later).2⟩

theorem append (first : LeadsIn t n here names mid) (second : LeadsIn t m mid rest there) :
    LeadsIn t (n + m) here (names ++ rest) there := by
  induction first with
  | done => simpa using second
  | step _ ih =>
    rw [Nat.succ_add]
    exact .step (by simpa using ih second)

theorem split (whole : LeadsIn t n here (names ++ rest) there) :
    ∃ k m mid, n = k + m ∧ LeadsIn t k here names mid ∧ LeadsIn t m mid rest there := by
  -- A link puts the pieces of its target in front, so the first part may grow on the way.
  generalize along : names ++ rest = all at whole
  induction whole generalizing names with
  | done here =>
    obtain ⟨rfl, rfl⟩ := List.append_eq_nil_iff.1 along
    exact ⟨0, 0, here, rfl, .done here, .done here⟩
  | @step n here there name later way ih =>
    cases names with
    | nil =>
      rw [List.nil_append] at along
      subst along
      exact ⟨0, n + 1, here, by simp, .done here, .step way⟩
    | cons _ names =>
      obtain ⟨rfl, rfl⟩ := List.cons_eq_cons.1 along
      obtain ⟨k, m, mid, rfl, first, second⟩ := ih (List.append_assoc ..)
      exact ⟨k + 1, m, mid, by omega, .step first, second⟩

end LeadsIn

namespace Leads

theorem nil (here : Location) : t.Leads here [] here := ⟨0, .done here⟩

theorem unique {first second : Location} (one : t.Leads here names first)
    (other : t.Leads here names second) : first = second := by
  obtain ⟨n, one⟩ := one
  obtain ⟨m, other⟩ := other
  exact (one.unique other).2

theorem cons_iff {name : String} :
    t.Leads here (name :: rest) there ↔
      t.Leads (t.follows here name).1 ((t.follows here name).2 ++ rest) there := by
  constructor
  · rintro ⟨n, way⟩
    cases way with
    | step later => exact ⟨_, later⟩
  · rintro ⟨n, later⟩
    exact ⟨n + 1, .step later⟩

theorem append_iff :
    t.Leads here (names ++ rest) there ↔
      ∃ mid, t.Leads here names mid ∧ t.Leads mid rest there := by
  constructor
  · rintro ⟨n, whole⟩
    obtain ⟨k, m, mid, -, first, second⟩ := whole.split
    exact ⟨mid, ⟨k, first⟩, ⟨m, second⟩⟩
  · rintro ⟨mid, ⟨k, first⟩, ⟨m, second⟩⟩
    exact ⟨k + m, first.append second⟩

theorem filter_isPlain_append_iff :
    t.Leads here (names.filter isPlain ++ rest) there ↔ t.Leads here (names ++ rest) there := by
  induction names generalizing here with
  | nil => simp
  | cons name names ih =>
    by_cases plain : isPlain name = true
    · rw [List.filter_cons_of_pos plain, List.cons_append, List.cons_append, cons_iff, cons_iff,
        append_iff, append_iff]
      simp only [ih]
    · have blank : isPlain name = false := by simpa using plain
      rw [List.filter_cons_of_neg plain, List.cons_append, cons_iff, follows_blank blank]
      exact ih

/-- What holds of the start, and along every step, holds of the end. The names that are followed are
the given ones and pieces of link targets. -/
theorem invariant {Q : String → Prop} {P : Location → Prop}
    (targets : ∀ l target, t.get? l = some (.link target) → ∀ name ∈ pieces target, Q name)
    (top : P []) (up : ∀ l, P l → P l.dropLast)
    (down : ∀ l name, P l → Q name → isPlain name = true → name ≠ ".." →
      (∀ target, t.get? (l ++ [name]) ≠ some (.link target)) → P (l ++ [name]))
    (way : t.Leads here names there) (given : ∀ name ∈ names, Q name) (start : P here) :
    P there := by
  obtain ⟨n, way⟩ := way
  induction way with
  | done => exact start
  | @step n here there name rest _ ih =>
    have later : ∀ name ∈ rest, Q name := fun name member => given name (.tail _ member)
    rcases t.name_cases here name with blank | rfl | ⟨plain, notAbove, target, found⟩ |
      ⟨plain, notAbove, noLink⟩
    · rw [follows_blank blank] at ih
      exact ih later start
    · rw [follows_above] at ih
      exact ih later (up here start)
    · rw [follows_link plain notAbove found] at ih
      apply ih
      · intro name member
        exact (List.mem_append.1 member).elim (targets _ target found name) (later name)
      · unfold linkStart
        split
        · exact top
        · exact start
    · rw [follows_literal plain notAbove noLink] at ih
      exact ih later (down here name start (given name (.head _)) plain notAbove noLink)

end Leads

namespace Reached

variable (r : Reached)

@[simp] theorem location_down (cwd : Location) (name : String) :
    (r.down name).location cwd = r.location cwd ++ [name] := by
  obtain ⟨ups, names⟩ := r
  cases ups <;> simp [location, down]

@[simp] theorem location_up (cwd : Location) : r.up.location cwd = (r.location cwd).dropLast := by
  obtain ⟨ups, names⟩ := r
  by_cases empty : names = []
  · subst empty
    cases ups with
    | none => rfl
    | some n =>
      simp [up, location, List.dropLast_eq_take, List.take_take]
      omega
  · have nonempty : ∀ front : Location, (front ++ names).dropLast = front ++ names.dropLast :=
      fun front => List.dropLast_append_of_ne_nil empty
    cases ups <;> simp [up, location, empty, nonempty]

theorem location_start (cwd : Location) (target : String) :
    (if isAbsoluteText target then top else r).location cwd = linkStart (r.location cwd) target := by
  unfold linkStart
  split <;> rfl

end Reached

theorem isPlain_iff {name : String} : isPlain name = true ↔ ¬ (name = "" ∨ name = ".") := by
  simp [isPlain]

theorem isPlain_eq_false_iff {name : String} : isPlain name = false ↔ name = "" ∨ name = "." := by
  rw [← Bool.not_eq_true, isPlain_iff, not_not]

theorem leads_of_follow {fuel : Nat} {busy : List Reached} {place r : Reached}
    (came : t.follow cwd fuel busy place names = .reached r) :
    t.Leads (place.location cwd) names (r.location cwd) := by
  fun_induction follow t cwd fuel busy place names generalizing r with
  | case1 fuel busy place =>
    cases came
    exact .nil _
  | case2 fuel busy place name rest blank ih =>
    rw [Leads.cons_iff, follows_blank (isPlain_eq_false_iff.2 blank)]
    exact ih came
  | case3 fuel busy place rest _ ih =>
    rw [Leads.cons_iff, follows_above, ← Reached.location_up]
    exact ih came
  | case4 fuel busy place name rest plain notAbove next target found broken =>
    simp [broken] at came
  | case5 busy place name rest plain notAbove next target found broken =>
    simp [broken] at came
  | case6 busy place name rest plain notAbove next target found _ fuel start mid inside =>
    rename_i ih later
    rw [Reached.location_down] at found
    rw [Leads.cons_iff, follows_link (isPlain_iff.2 plain) notAbove found, Leads.append_iff]
    exact ⟨mid.location cwd, Reached.location_start place cwd target ▸ ih inside, later came⟩
  | case7 => cases came
  | case8 fuel busy place name rest plain notAbove next noLink =>
    rename_i ih
    rw [Reached.location_down] at noLink
    rw [Leads.cons_iff, follows_literal (isPlain_iff.2 plain) notAbove noLink, List.nil_append,
      ← Reached.location_down]
    exact ih came

def Resolves (t : FileTree) (link : Location) (steps : Nat) : Prop :=
  ∃ target there, t.get? link = some (.link target) ∧
    LeadsIn t steps (linkStart link.dropLast target) (pieces target) there

theorem Resolves.unique {link : Location} (one : t.Resolves link n) (other : t.Resolves link m) :
    n = m := by
  obtain ⟨target, there, found, way⟩ := one
  obtain ⟨again, elsewhere, foundAgain, otherWay⟩ := other
  obtain rfl : target = again := by simpa [found] using foundAgain
  exact (way.unique otherWay).1

theorem mem_links {l : Location} {target : String} (found : t.get? l = some (.link target)) :
    l ∈ t.links := by
  unfold get? at found
  split at found
  · cases found
  · exact List.mem_filterMap.2 ⟨_, Table.mem_of_get? found, rfl⟩

theorem Resolves.mem_links {link : Location} (resolves : t.Resolves link n) : link ∈ t.links := by
  obtain ⟨target, there, found, way⟩ := resolves
  exact FileTree.mem_links found

/-- What holds in the middle of a resolution that will come to an end in `n` steps: the busy links
take at least as many, no two are at one location, and there is fuel for all others. -/
structure Underway (t : FileTree) (cwd : Location) (n fuel : Nat) (busy : List Reached) : Prop where
  longer : ∀ link ∈ busy, ∃ k, n ≤ k ∧ t.Resolves (link.location cwd) k
  distinct : (busy.map (Reached.location cwd)).Nodup
  enough : t.links.length ≤ fuel + busy.length

namespace Underway

variable {fuel : Nat} {busy : List Reached}

theorem mono (u : Underway t cwd n fuel busy) (less : m ≤ n) : Underway t cwd m fuel busy where
  longer link member := by
    obtain ⟨k, bound, resolves⟩ := u.longer link member
    exact ⟨k, less.trans bound, resolves⟩
  distinct := u.distinct
  enough := u.enough

theorem location_notMem (u : Underway t cwd n fuel busy) (next : Reached)
    (resolves : t.Resolves (next.location cwd) m) (less : m < n) :
    next.location cwd ∉ busy.map (Reached.location cwd) := by
  intro member
  obtain ⟨link, inside, same⟩ := List.mem_map.1 member
  obtain ⟨k, bound, again⟩ := u.longer link inside
  have : m = k := resolves.unique (same ▸ again)
  omega

theorem length_lt (u : Underway t cwd n fuel busy) (next : Reached)
    (resolves : t.Resolves (next.location cwd) m) (less : m < n) :
    busy.length < t.links.length := by
  have distinct : ((next :: busy).map (Reached.location cwd)).Nodup :=
    List.nodup_cons.2 ⟨u.location_notMem next resolves less, u.distinct⟩
  have links : (next :: busy).map (Reached.location cwd) ⊆ t.links := by
    intro l member
    obtain ⟨link, inside, rfl⟩ := List.mem_map.1 member
    rcases List.mem_cons.1 inside with rfl | inside
    · exact resolves.mem_links
    · obtain ⟨k, -, again⟩ := u.longer link inside
      exact again.mem_links
  have bound := (distinct.subperm links).length_le
  rwa [List.length_map, List.length_cons] at bound

theorem push (u : Underway t cwd n (fuel + 1) busy) (next : Reached)
    (resolves : t.Resolves (next.location cwd) m) (less : m < n) :
    Underway t cwd m fuel (next :: busy) where
  longer link member := by
    rcases List.mem_cons.1 member with rfl | member
    · exact ⟨m, le_rfl, resolves⟩
    · exact (u.mono less.le).longer link member
  distinct := List.nodup_cons.2 ⟨u.location_notMem next resolves less, u.distinct⟩
  enough := by
    have := u.enough
    simp only [List.length_cons]
    omega

end Underway

theorem LeadsIn.split_link {name target : String}
    (plain : isPlain name = true) (notAbove : name ≠ "..")
    (found : t.get? (here ++ [name]) = some (.link target))
    (way : LeadsIn t n here (name :: rest) there) :
    ∃ k m mid, n = k + m + 1 ∧ t.Resolves (here ++ [name]) k ∧
      LeadsIn t k (linkStart here target) (pieces target) mid ∧ LeadsIn t m mid rest there := by
  cases way with
  | step later =>
    rw [follows_link plain notAbove found] at later
    obtain ⟨k, m, mid, rfl, first, second⟩ := later.split
    exact ⟨k, m, mid, rfl, ⟨target, mid, found, by simpa using first⟩, first, second⟩

/-- If names lead anywhere, the resolution comes to a place. No link is met while it is busy, since
its resolution would have to take fewer steps than itself. -/
theorem follow_of_leadsIn {fuel : Nat} {busy : List Reached} {place : Reached}
    (way : LeadsIn t n (place.location cwd) names there) (u : Underway t cwd n fuel busy) :
    ∃ r, t.follow cwd fuel busy place names = .reached r := by
  fun_induction follow t cwd fuel busy place names generalizing n there with
  | case1 fuel busy place => exact ⟨place, rfl⟩
  | case2 fuel busy place name rest blank ih =>
    cases way with
    | step later =>
      rw [follows_blank (isPlain_eq_false_iff.2 blank)] at later
      exact ih later (u.mono (Nat.le_succ _))
  | case3 fuel busy place rest _ ih =>
    cases way with
    | step later =>
      rw [follows_above, ← Reached.location_up] at later
      exact ih later (u.mono (Nat.le_succ _))
  | case4 fuel busy place name rest plain notAbove next target found =>
    rename_i member
    obtain ⟨k, m, mid, rfl, resolves, -, -⟩ :=
      way.split_link (isPlain_iff.2 plain) notAbove (by simpa [next] using found)
    have fresh := u.location_notMem next (by simpa [next] using resolves) (by omega)
    exact absurd (List.mem_map_of_mem member) fresh
  | case5 busy place name rest plain notAbove next target found =>
    obtain ⟨k, m, mid, rfl, resolves, -, -⟩ :=
      way.split_link (isPlain_iff.2 plain) notAbove (by simpa [next] using found)
    have less := u.length_lt next (by simpa [next] using resolves) (by omega)
    have enough := u.enough
    omega
  | case6 busy place name rest plain notAbove next target found _ fuel start mid inside =>
    rename_i ih later
    obtain ⟨k, m, end', rfl, resolves, first, second⟩ :=
      way.split_link (isPlain_iff.2 plain) notAbove (by simpa [next] using found)
    obtain rfl : end' = mid.location cwd :=
      Leads.unique ⟨k, first⟩ (Reached.location_start place cwd target ▸ leads_of_follow inside)
    exact later second (u.mono (by omega))
  | case7 busy place name rest plain notAbove next target found _ fuel start left =>
    rename_i inside ih
    obtain ⟨k, m, mid, rfl, resolves, first, -⟩ :=
      way.split_link (isPlain_iff.2 plain) notAbove (by simpa [next] using found)
    have inner := u.push next (by simpa [next] using resolves) (by omega)
    obtain ⟨r, came⟩ := ih (Reached.location_start place cwd target ▸ first) inner
    rw [inside] at came
    cases came
  | case8 fuel busy place name rest plain notAbove next noLink =>
    rename_i ih
    rw [Reached.location_down] at noLink
    cases way with
    | step later =>
      rw [follows_literal (isPlain_iff.2 plain) notAbove noLink, List.nil_append,
        ← Reached.location_down] at later
      exact ih later (u.mono (Nat.le_succ _))

theorem length_le_linkNesting (t : FileTree) (cwd : Location) :
    t.links.length ≤ t.linkNesting cwd := Nat.le_mul_of_pos_right _ (by omega)

theorem leads_iff_follow {place : Reached} :
    t.Leads (place.location cwd) names there ↔
      ∃ r, t.follow cwd (t.linkNesting cwd) [] place names = .reached r ∧
        r.location cwd = there := by
  constructor
  · rintro ⟨n, way⟩
    have start : Underway t cwd n (t.linkNesting cwd) [] :=
      ⟨by simp, by simp, by simpa using t.length_le_linkNesting cwd⟩
    obtain ⟨r, came⟩ := follow_of_leadsIn way start
    exact ⟨r, came, (leads_of_follow came).unique ⟨n, way⟩⟩
  · rintro ⟨r, came, rfl⟩
    exact leads_of_follow came

theorem empty_notMem_systemNames (text : String) : "" ∉ systemNames text := by
  unfold systemNames
  split <;> simp

theorem leads_systemNames_append_iff (text : String) :
    t.Leads here (systemNames text ++ rest) there ↔ t.Leads here (pieces text ++ rest) there := by
  have same : (systemNames text).filter isPlain = (pieces text).filter isPlain := by
    have nonempty : ∀ names : List String,
        (names.filter fun name => decide (name ≠ "")).filter isPlain = names.filter isPlain := by
      intro names
      rw [List.filter_filter]
      refine List.filter_congr fun name _ => ?_
      by_cases empty : name = "" <;> simp [isPlain, empty]
    unfold systemNames
    split
    · rw [List.filter_append, nonempty, show ["."].filter isPlain = [] by decide,
        List.append_nil]
    · exact nonempty _
  rw [← Leads.filter_isPlain_append_iff, same, Leads.filter_isPlain_append_iff]

/-! ### Look-ups that succeed -/

/-- The look-up of the system succeeds: no name leads on from anything but a directory, and it follows no
more links than it may. -/
inductive Walks (t : FileTree) (followLast : Bool) :
    Nat → Location → List String → Location → Prop where
  | done (links : Nat) (here : Location) : Walks t followLast links here [] here
  | stay {links : Nat} {here there : Location} {rest : List String} (isDir : t.get? here = some .dir)
      (later : Walks t followLast links here rest there) :
      Walks t followLast links here ("." :: rest) there
  | leave {links : Nat} {here there : Location} {rest : List String} (isDir : t.get? here = some .dir)
      (later : Walks t followLast links here.dropLast rest there) :
      Walks t followLast links here (".." :: rest) there
  | last {links : Nat} {here : Location} {name target : String} (isDir : t.get? here = some .dir)
      (notHere : name ≠ ".") (notAbove : name ≠ "..")
      (link : t.get? (here ++ [name]) = some (.link target)) (unfollowed : followLast = false) :
      Walks t followLast links here [name] (here ++ [name])
  | link {links : Nat} {here there : Location} {name target : String} {rest : List String}
      (isDir : t.get? here = some .dir) (notHere : name ≠ ".") (notAbove : name ≠ "..")
      (link : t.get? (here ++ [name]) = some (.link target)) (goesOn : rest ≠ [] ∨ followLast = true)
      (later : Walks t followLast links (linkStart here target) (systemNames target ++ rest) there) :
      Walks t followLast (links + 1) here (name :: rest) there
  | enter {links : Nat} {here there : Location} {name : String} {rest : List String}
      (isDir : t.get? here = some .dir) (notHere : name ≠ ".") (notAbove : name ≠ "..")
      (noLink : ∀ target, t.get? (here ++ [name]) ≠ some (.link target))
      (later : Walks t followLast links (here ++ [name]) rest there) :
      Walks t followLast links here (name :: rest) there

theorem walk_eq_ok_iff {followLast : Bool} {links : Nat} :
    t.walk followLast links here names = .ok there ↔ t.Walks followLast links here names there := by
  constructor
  · intro found
    fun_induction walk t followLast links here names with
    | case1 links here =>
      cases found
      exact .done links there
    | case2 => cases found
    | case3 => cases found
    | case4 => cases found
    | case5 links here rest isDir ih => exact .stay isDir (ih found)
    | case6 links here rest isDir _ ih => exact .leave isDir (ih found)
    | case7 links here name rest isDir notHere notAbove target link last =>
      obtain ⟨rfl, unfollowed⟩ := last
      cases found
      exact .last isDir notHere notAbove link (by simpa using unfollowed)
    | case8 => cases found
    | case9 here name rest isDir notHere notAbove target link notLast links start ih =>
      exact .link isDir notHere notAbove link (by grind) (ih found)
    | case10 links here name rest isDir notHere notAbove noLink ih =>
      exact .enter isDir notHere notAbove noLink (ih found)
  · intro walks
    induction walks with
    | done => rw [walk]
    | stay isDir _ ih =>
      rw [walk, isDir]
      exact ih
    | leave isDir _ ih =>
      rw [walk, isDir]
      exact ih
    | last isDir notHere notAbove link unfollowed =>
      rw [walk, isDir]
      simp [notHere, notAbove, link, unfollowed]
    | @link links here there name target rest isDir notHere notAbove link goesOn _ ih =>
      have notLast : ¬ (rest = [] ∧ (!followLast) = true) := by grind
      rw [walk, isDir]
      simp only [notHere, notAbove, if_false, link, if_neg notLast]
      exact ih
    | enter isDir notHere notAbove noLink _ ih =>
      rw [walk, isDir]
      simp only [notHere, notAbove, if_false]
      exact ih

theorem isPlain_of_ne {name : String} (nonempty : name ≠ "") (notHere : name ≠ ".") :
    isPlain name = true :=
  isPlain_iff.2 fun blank => blank.elim nonempty notHere

theorem leads_of_walk {links : Nat} (nonempty : "" ∉ names)
    (found : t.walk true links here names = .ok there) : t.Leads here names there := by
  rw [walk_eq_ok_iff] at found
  induction found with
  | done links here => exact .nil here
  | stay _ _ ih =>
    rw [Leads.cons_iff, follows_blank (by decide)]
    exact ih (List.not_mem_of_not_mem_cons nonempty)
  | leave _ _ ih =>
    rw [Leads.cons_iff, follows_above]
    exact ih (List.not_mem_of_not_mem_cons nonempty)
  | last _ _ _ _ unfollowed => cases unfollowed
  | link _ notHere notAbove link _ _ ih =>
    have plain := isPlain_of_ne (List.ne_of_not_mem_cons nonempty).symm notHere
    rw [Leads.cons_iff, follows_link plain notAbove link, ← leads_systemNames_append_iff]
    exact ih (by simp_all [empty_notMem_systemNames])
  | enter _ notHere notAbove noLink _ ih =>
    have plain := isPlain_of_ne (List.ne_of_not_mem_cons nonempty).symm notHere
    rw [Leads.cons_iff, follows_literal plain notAbove noLink]
    exact ih (List.not_mem_of_not_mem_cons nonempty)

theorem leads_parent_of_walk {links : Nat} {name : String} (isName : Path.IsName name)
    (nonempty : "" ∉ names) (found : t.walk false links here (names ++ [name]) = .ok there) :
    ∃ parent, t.Leads here names parent ∧ t.get? parent = some .dir ∧ there = parent ++ [name] := by
  rw [walk_eq_ok_iff] at found
  generalize along : names ++ [name] = all at found
  induction found generalizing names with
  | done => simp at along
  | stay isDir _ ih =>
    rcases List.append_eq_cons_iff.1 along with ⟨rfl, same⟩ | ⟨names, rfl, rfl⟩
    · exact absurd (List.cons_eq_cons.1 same).1 isName.notHere
    · simp_rw [Leads.cons_iff, follows_blank (show isPlain "." = false by decide)]
      exact ih (List.not_mem_of_not_mem_cons nonempty) rfl
  | leave isDir _ ih =>
    rcases List.append_eq_cons_iff.1 along with ⟨rfl, same⟩ | ⟨names, rfl, rfl⟩
    · exact absurd (List.cons_eq_cons.1 same).1 isName.notAbove
    · simp_rw [Leads.cons_iff, follows_above]
      exact ih (List.not_mem_of_not_mem_cons nonempty) rfl
  | @last _ here _ _ isDir =>
    obtain ⟨rfl, same⟩ : names = [] ∧ name = _ := by simpa using List.append_eq_singleton_iff.1 along
    exact ⟨here, .nil here, isDir, by rw [same]⟩
  | link _ notHere notAbove link goesOn _ ih =>
    rcases List.append_eq_cons_iff.1 along with ⟨rfl, same⟩ | ⟨names, rfl, rfl⟩
    · simp_all
    · have plain := isPlain_of_ne (List.ne_of_not_mem_cons nonempty).symm notHere
      simp_rw [Leads.cons_iff, follows_link plain notAbove link, ← leads_systemNames_append_iff]
      exact ih (by simp_all [empty_notMem_systemNames]) (List.append_assoc ..)
  | @enter _ here _ _ _ isDir notHere notAbove noLink later ih =>
    rcases List.append_eq_cons_iff.1 along with ⟨rfl, same⟩ | ⟨names, rfl, rfl⟩
    · obtain ⟨rfl, rfl⟩ := List.cons_eq_cons.1 same
      cases later
      exact ⟨here, .nil here, isDir, rfl⟩
    · have plain := isPlain_of_ne (List.ne_of_not_mem_cons nonempty).symm notHere
      simp_rw [Leads.cons_iff, follows_literal plain notAbove noLink]
      exact ih (List.not_mem_of_not_mem_cons nonempty) rfl

/-! ### Trees with the same links -/

/-- Links stand at the same locations and hold the same text. -/
def SameLinks (t after : FileTree) : Prop :=
  ∀ l target, after.get? l = some (.link target) ↔ t.get? l = some (.link target)

variable {after : FileTree}

theorem SameLinks.follows (same : SameLinks t after) (here : Location) (name : String) :
    after.follows here name = t.follows here name := by
  rcases t.name_cases here name with blank | rfl | ⟨plain, notAbove, target, found⟩ |
    ⟨plain, notAbove, noLink⟩
  · rw [follows_blank blank, follows_blank blank]
  · rw [follows_above, follows_above]
  · rw [follows_link plain notAbove found,
      follows_link plain notAbove ((same _ target).2 found)]
  · rw [follows_literal plain notAbove noLink,
      follows_literal plain notAbove fun target link => noLink target ((same _ target).1 link)]

theorem SameLinks.leads (same : SameLinks t after) {here there : Location} {names : List String}
    (way : after.Leads here names there) : t.Leads here names there := by
  obtain ⟨n, way⟩ := way
  induction way with
  | done here => exact .nil here
  | step _ ih =>
    rw [Leads.cons_iff, ← same.follows]
    exact ih

theorem SameLinks.follow (same : SameLinks t after) (fuel : Nat) (busy : List Reached)
    (place : Reached) (names : List String) :
    after.follow cwd fuel busy place names = t.follow cwd fuel busy place names := by
  fun_induction FileTree.follow t cwd fuel busy place names with
  | case1 => rw [FileTree.follow]
  | case2 fuel busy place name rest blank ih => rw [FileTree.follow, if_pos blank, ih]
  | case3 fuel busy place rest plain ih => rw [FileTree.follow, if_neg plain, if_pos rfl, ih]
  | case4 fuel busy place name rest plain notAbove next target found broken member =>
    have found := (same _ target).2 found
    rw [FileTree.follow, if_neg plain, if_neg notAbove]
    simp only [next, found, if_pos member, broken]
  | case5 busy place name rest plain notAbove next target found broken fresh =>
    have found := (same _ target).2 found
    rw [FileTree.follow, if_neg plain, if_neg notAbove]
    simp only [next, found, if_neg fresh, broken]
  | case6 busy place name rest plain notAbove next target found fresh fuel start mid inside ih later =>
    have found := (same _ target).2 found
    have inside : after.follow cwd fuel (place.down name :: busy)
        (if isAbsoluteText target then .top else place) (pieces target) = .reached mid :=
      ih.trans inside
    rw [FileTree.follow, if_neg plain, if_neg notAbove]
    simp only [next, found, if_neg fresh, inside]
    exact later
  | case7 busy place name rest plain notAbove next target found fresh fuel start left inside ih =>
    have found := (same _ target).2 found
    have inside : after.follow cwd fuel (place.down name :: busy)
        (if isAbsoluteText target then .top else place) (pieces target) = .circular left :=
      ih.trans inside
    rw [FileTree.follow, if_neg plain, if_neg notAbove]
    simp only [next, found, if_neg fresh, inside]
  | case8 fuel busy place name rest plain notAbove next noLink ih =>
    rw [FileTree.follow, if_neg plain, if_neg notAbove]
    simp only
    split
    · rename_i target found
      exact (noLink target ((same _ target).1 found)).elim
    · exact ih

/-! ### Trees with the same directories -/

structure SameWays (t after : FileTree) : Prop where
  links : SameLinks t after
  dirs : ∀ l, after.get? l = some .dir ↔ t.get? l = some .dir

section Walk

variable {followLast : Bool} {links : Nat}

theorem walk_of_not_dir {name : String} (noDir : t.get? here ≠ some .dir) :
    ∃ e, t.walk followLast links here (name :: rest) = .error e ∧ Host.saysMissing e := by
  rw [walk]
  split
  · exact ⟨.noEntry, rfl, rfl⟩
  · exact ⟨.notDirectory, rfl, rfl⟩
  · exact ⟨.notDirectory, rfl, rfl⟩
  · exact absurd ‹_› noDir

/-- A look-up in one of two such trees ends as it does in the other, except that one may say nothing is
there where the other says that it is no directory. -/
theorem SameWays.walk (same : SameWays t after) :
    after.walk followLast links here names = t.walk followLast links here names ∨
      (∃ e, t.walk followLast links here names = .error e ∧ Host.saysMissing e) ∧
        ∃ e, after.walk followLast links here names = .error e ∧ Host.saysMissing e := by
  have isDir {here : Location} (before : t.get? here = some .dir) : after.get? here = some .dir :=
    (same.dirs here).2 before
  have isLink {here : Location} {target : String} (before : t.get? here = some (.link target)) :
      after.get? here = some (.link target) := (same.links here target).2 before
  have stops {here : Location} {name : String} {rest : List String} {links : Nat}
      (noDir : t.get? here ≠ some .dir) :
      ∃ e, after.walk followLast links here (name :: rest) = .error e ∧ Host.saysMissing e :=
    walk_of_not_dir fun isDir => noDir ((same.dirs here).1 isDir)
  fun_induction FileTree.walk t followLast links here names with
  | case1 => exact .inl (by rw [FileTree.walk])
  | case2 links here name rest missing => exact .inr ⟨⟨_, rfl, rfl⟩, stops (by simp [missing])⟩
  | case3 links here name rest _ _ isFile => exact .inr ⟨⟨_, rfl, rfl⟩, stops (by simp [isFile])⟩
  | case4 links here name rest _ link => exact .inr ⟨⟨_, rfl, rfl⟩, stops (by simp [link])⟩
  | case5 links here rest before ih =>
    rw [FileTree.walk, isDir before]
    exact ih
  | case6 links here rest before _ ih =>
    rw [FileTree.walk, isDir before]
    exact ih
  | case7 links here name rest before notHere notAbove target link last =>
    refine .inl ?_
    rw [FileTree.walk, isDir before]
    simp only [notHere, notAbove, if_false, isLink link]
    exact if_pos last
  | case8 here name rest before notHere notAbove target link notLast =>
    refine .inl ?_
    rw [FileTree.walk, isDir before]
    simp only [notHere, notAbove, if_false, isLink link]
    exact if_neg notLast
  | case9 here name rest before notHere notAbove target link notLast links start ih =>
    rw [FileTree.walk, isDir before]
    simp only [notHere, notAbove, if_false, isLink link, notLast]
    exact ih
  | case10 links here name rest before notHere notAbove noLink ih =>
    have noLink : ∀ target, after.get? (here ++ [name]) ≠ some (.link target) :=
      fun target link => noLink target ((same.links _ target).1 link)
    rw [FileTree.walk, isDir before]
    simp only [notHere, notAbove, if_false]
    exact ih

theorem SameWays.locate (same : SameWays t after) (cwd : Location) (followLast : Bool)
    (text : String) :
    after.locate cwd followLast text = t.locate cwd followLast text ∨
      (∃ e, t.locate cwd followLast text = .error e ∧ Host.saysMissing e) ∧
        ∃ e, after.locate cwd followLast text = .error e ∧ Host.saysMissing e := by
  unfold FileTree.locate
  split
  · exact .inl rfl
  · exact same.walk

theorem SameWays.locate_eq_ok (same : SameWays t after) {text : String}
    (found : t.locate cwd followLast text = .ok there) :
    after.locate cwd followLast text = .ok there := by
  rcases same.locate cwd followLast text with equal | ⟨⟨e, refused, -⟩, -⟩
  · exact equal.trans found
  · rw [found] at refused
    cases refused

end Walk

end VibeLens.FileTree
