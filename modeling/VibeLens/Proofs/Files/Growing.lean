import VibeLens.Proofs.Files.Canonical

set_option autoImplicit false

/-!
Look-up in a tree to which something was added. Where it succeeded before it leads to the same location
again: the links are the same, and the directories on the way are still there.
-/

namespace VibeLens.FileTree

open VibeLens.Path (IsName isPlain)

variable {t after : FileTree} {cwd here there mid l : Location} {names rest : List String}
  {text : String} {followLast : Bool} {links : Nat}

theorem find_eq_ok_iff {node : Node} :
    t.find cwd text = .ok (l, node) ↔ t.locate cwd true text = .ok l ∧ t.get? l = some node := by
  unfold find
  cases t.locate cwd true text with
  | error e => simp
  | ok there =>
    cases found : t.get? there with
    | none =>
      simp only [found, reduceCtorEq, Except.ok.injEq, false_iff, not_and]
      rintro rfl
      simp [found]
    | some other =>
      simp only [found, Except.ok.injEq, Prod.mk.injEq]
      constructor
      · rintro ⟨rfl, rfl⟩
        exact ⟨rfl, found⟩
      · rintro ⟨rfl, same⟩
        exact ⟨rfl, Option.some.inj (found.symm.trans same)⟩

theorem isFile_iff : t.isFile cwd text = true ↔ hasZero text = false ∧
    ∃ l content executable, t.find cwd text = .ok (l, .file content executable) := by
  unfold isFile
  rcases t.find cwd text with e | ⟨l, node⟩
  · simp
  · cases node <;> simp

theorem isDir_iff : t.isDir cwd text = true ↔
    hasZero text = false ∧ ∃ l, t.locate cwd true text = .ok l ∧ t.get? l = some .dir := by
  unfold isDir find
  cases located : t.locate cwd true text with
  | error e => simp
  | ok l =>
    cases found : t.get? l with
    | none => simp [found]
    | some node => cases node <;> simp [found]

/-- Links and directories have stayed; directories and files may have been added. -/
structure Grows (t after : FileTree) : Prop where
  links : SameLinks t after
  dirs : ∀ l, t.get? l = some .dir → after.get? l = some .dir
  listed : after.links = t.links

namespace Grows

theorem refl (t : FileTree) : Grows t t := ⟨fun _ _ => Iff.rfl, fun _ isDir => isDir, rfl⟩

theorem trans {middle : FileTree} (first : Grows t middle) (second : Grows middle after) :
    Grows t after where
  links l target := (second.links l target).trans (first.links l target)
  dirs l isDir := second.dirs l (first.dirs l isDir)
  listed := second.listed.trans first.listed

theorem walk (grows : Grows t after) (found : t.walk followLast links here names = .ok there) :
    after.walk followLast links here names = .ok there := by
  rw [walk_eq_ok_iff] at found ⊢
  induction found with
  | done links here => exact .done links here
  | stay isDir _ ih => exact .stay (grows.dirs _ isDir) ih
  | leave isDir _ ih => exact .leave (grows.dirs _ isDir) ih
  | last isDir notHere notAbove link unfollowed =>
    exact .last (grows.dirs _ isDir) notHere notAbove ((grows.links _ _).2 link) unfollowed
  | link isDir notHere notAbove link goesOn _ ih =>
    exact .link (grows.dirs _ isDir) notHere notAbove ((grows.links _ _).2 link) goesOn ih
  | enter isDir notHere notAbove noLink _ ih =>
    have noLink := fun target link => noLink target ((grows.links _ target).1 link)
    exact .enter (grows.dirs _ isDir) notHere notAbove noLink ih

theorem locate (grows : Grows t after) (found : t.locate cwd followLast text = .ok there) :
    after.locate cwd followLast text = .ok there := by
  unfold FileTree.locate at found ⊢
  split
  · rename_i empty
    simp [empty] at found
  · rename_i nonempty
    exact grows.walk (by simpa only [nonempty, if_false] using found)

theorem isDir (grows : Grows t after) (isDir : t.isDir cwd text = true) :
    after.isDir cwd text = true := by
  obtain ⟨noZero, l, located, found⟩ := isDir_iff.1 isDir
  exact isDir_iff.2 ⟨noZero, l, grows.locate located, grows.dirs l found⟩

theorem canonical (grows : Grows t after) (p : Path) : after.canonical cwd p = t.canonical cwd p := by
  simp only [FileTree.canonical, linkNesting, grows.listed, grows.links.follow]

/-- A path means what it meant before, unless its look-up has come to meet a circle. -/
theorem resolve {p : Path} (grows : Grows t after) (resolved : t.resolve cwd p = .ok l)
    (noCircle : after.find cwd (Location.text l) ≠ .error .tooManyLinks) :
    after.resolve cwd p = .ok l := by
  obtain ⟨noZero, rfl, -⟩ := resolve_eq_ok_iff.1 resolved
  exact resolve_eq_ok_iff.2 ⟨noZero, grows.canonical p, noCircle⟩

end Grows

/-! ### Parts of a way -/

theorem exists_walk_of_append (found : t.walk true links here (names ++ rest) = .ok there) :
    ∃ mid, t.walk true links here names = .ok mid := by
  simp only [walk_eq_ok_iff] at found ⊢
  generalize along : names ++ rest = all at found
  induction found generalizing names with
  | done links here =>
    obtain ⟨rfl, -⟩ := List.append_eq_nil_iff.1 along
    exact ⟨here, .done links here⟩
  | @stay links here _ _ isDir _ ih =>
    rcases List.append_eq_cons_iff.1 along with ⟨rfl, -⟩ | ⟨names, rfl, rfl⟩
    · exact ⟨here, .done links here⟩
    · exact (ih rfl).imp fun _ => .stay isDir
  | @leave links here _ _ isDir _ ih =>
    rcases List.append_eq_cons_iff.1 along with ⟨rfl, -⟩ | ⟨names, rfl, rfl⟩
    · exact ⟨here, .done links here⟩
    · exact (ih rfl).imp fun _ => .leave isDir
  | last _ _ _ _ unfollowed => cases unfollowed
  | @link links here _ _ _ _ isDir notHere notAbove link _ _ ih =>
    rcases List.append_eq_cons_iff.1 along with ⟨rfl, -⟩ | ⟨names, rfl, rfl⟩
    · exact ⟨here, .done _ here⟩
    · exact (ih (List.append_assoc ..)).imp fun _ => .link isDir notHere notAbove link (.inr rfl)
  | @enter links here _ _ _ isDir notHere notAbove noLink _ ih =>
    rcases List.append_eq_cons_iff.1 along with ⟨rfl, -⟩ | ⟨names, rfl, rfl⟩
    · exact ⟨here, .done links here⟩
    · exact (ih rfl).imp fun _ => .enter isDir notHere notAbove noLink

theorem walk_concat {name : String} (found : t.walk true links here names = .ok there)
    (isDir : t.get? there = some .dir) (isName : IsName name)
    (noLink : ∀ target, t.get? (there ++ [name]) ≠ some (.link target)) :
    t.walk followLast links here (names ++ [name]) = .ok (there ++ [name]) := by
  rw [walk_eq_ok_iff] at found ⊢
  induction found with
  | done links here => exact .enter isDir isName.notHere isName.notAbove noLink (.done links _)
  | stay inDir _ ih => exact .stay inDir (ih isDir noLink)
  | leave inDir _ ih => exact .leave inDir (ih isDir noLink)
  | last _ _ _ _ unfollowed => cases unfollowed
  | link inDir notHere notAbove link _ _ ih =>
    have later := ih isDir noLink
    rw [List.append_assoc] at later
    exact .link inDir notHere notAbove link (.inl (by simp)) later
  | enter inDir notHere notAbove noLink' _ ih =>
    exact .enter inDir notHere notAbove noLink' (ih isDir noLink)

theorem find_ne_tooManyLinks_of_isDir {above : Location} (proper : ∀ name ∈ l, IsName name)
    (isDir : t.isDir cwd (Location.text l) = true) (isAbove : above <+: l) :
    t.find cwd (Location.text above) ≠ .error .tooManyLinks := by
  obtain ⟨mid, located⟩ : ∃ mid, t.locate cwd true (Location.text above) = .ok mid := by
    by_cases isTop : above = []
    · exact ⟨[], by rw [isTop, locate_text_top]⟩
    · obtain ⟨-, there, located, -⟩ := isDir_iff.1 isDir
      obtain ⟨rest, rfl⟩ := isAbove
      rw [locate_text t cwd true (by simp [isTop]) proper] at located
      rw [locate_text t cwd true isTop fun name member => proper name (List.mem_append_left _ member)]
      exact exists_walk_of_append located
  unfold find
  rw [located]
  simp only
  split <;> nofun

/-! ### Links at the end -/

theorem walk_of_walk_last (found : t.walk false links here names = .ok there)
    (noLink : ∀ target, t.get? there ≠ some (.link target)) :
    t.walk true links here names = .ok there := by
  rw [walk_eq_ok_iff] at found ⊢
  induction found with
  | done links here => exact .done links here
  | stay isDir _ ih => exact .stay isDir (ih noLink)
  | leave isDir _ ih => exact .leave isDir (ih noLink)
  | last _ _ _ link => exact absurd link (noLink _)
  | link isDir notHere notAbove link _ _ ih =>
    exact .link isDir notHere notAbove link (.inr rfl) (ih noLink)
  | enter isDir notHere notAbove noLink' _ ih =>
    exact .enter isDir notHere notAbove noLink' (ih noLink)

theorem exists_walk_last (found : t.walk true links here names = .ok there)
    (isThere : (t.get? there).isSome) :
    ∃ last, t.walk false links here names = .ok last ∧ (t.get? last).isSome := by
  simp only [walk_eq_ok_iff] at found ⊢
  induction found with
  | done links here => exact ⟨here, .done links here, isThere⟩
  | stay isDir _ ih => exact (ih isThere).imp fun _ => .imp_left (.stay isDir)
  | leave isDir _ ih => exact (ih isThere).imp fun _ => .imp_left (.leave isDir)
  | last _ _ _ _ unfollowed => cases unfollowed
  | @link links here _ name target rest isDir notHere notAbove link _ _ ih =>
    by_cases isLast : rest = []
    · rw [isLast]
      exact ⟨here ++ [name], .last isDir notHere notAbove link rfl, by simp [link]⟩
    · exact (ih isThere).imp fun _ => .imp_left (.link isDir notHere notAbove link (.inl isLast))
  | enter isDir notHere notAbove noLink _ ih =>
    exact (ih isThere).imp fun _ => .imp_left (.enter isDir notHere notAbove noLink)

theorem locate_of_locate_last (found : t.locate cwd false text = .ok l)
    (noLink : ∀ target, t.get? l ≠ some (.link target)) : t.locate cwd true text = .ok l := by
  unfold locate at found ⊢
  split
  · rename_i empty
    simp [empty] at found
  · rename_i nonempty
    exact walk_of_walk_last (by simpa only [nonempty, if_false] using found) noLink

theorem exists_locate_last (found : t.locate cwd true text = .ok l) (isThere : (t.get? l).isSome) :
    ∃ last, t.locate cwd false text = .ok last ∧ (t.get? last).isSome := by
  unfold locate at found ⊢
  split
  · rename_i empty
    simp [empty] at found
  · rename_i nonempty
    exact exists_walk_last (by simpa only [nonempty, if_false] using found) isThere

end VibeLens.FileTree
