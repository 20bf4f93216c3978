import VibeLens.Proofs.Files.Grounded
import VibeLens.Proofs.Files.Growing
import VibeLens.Workspace.Index

set_option autoImplicit false

/-!
What writing a file and making directories do to a tree. A file is written where its path leads, and
is read back from there. Directories are made one by one, each inside one that is there already.
-/

namespace VibeLens

theorem Table.put_of_get?_eq_none {κ α : Type} [DecidableEq κ] {t : Table κ α} {key : κ}
    (value : α) (free : t.get? key = none) : t.put key value = t ++ [(key, value)] := by
  induction t with
  | nil => rfl
  | cons m rest ih =>
    obtain ⟨k, a⟩ := m
    rw [get?_cons] at free
    split at free
    · cases free
    · rename_i different
      rw [put, if_neg different, ih free]
      rfl

theorem Table.keys_put_of_get?_eq_none {κ α : Type} [DecidableEq κ] {t : Table κ α} {key : κ}
    (value : α) (free : t.get? key = none) : (t.put key value).keys = t.keys ++ [key] := by
  rw [put_of_get?_eq_none value free, keys, List.map_append]
  rfl

theorem Table.put_self {κ α : Type} [DecidableEq κ] {t : Table κ α} {key : κ} {value : α}
    (found : t.get? key = some value) : t.put key value = t := by
  induction t with
  | nil => cases found
  | cons m rest ih =>
    obtain ⟨k, a⟩ := m
    rw [get?_cons] at found
    rw [put]
    split at found
    · rename_i same
      rw [if_pos same, ← same, Option.some.inj found]
    · rename_i different
      rw [if_neg different, ih found]

theorem Table.filterMap_put {κ α β : Type} [DecidableEq κ] {t : Table κ α} {key : κ} {value : α}
    {choose : κ × α → Option β} (before : ∀ old, t.get? key = some old → choose (key, old) = none)
    (now : choose (key, value) = none) : (t.put key value).filterMap choose = t.filterMap choose := by
  induction t with
  | nil => rw [put, List.filterMap_cons_none now]
  | cons m rest ih =>
    obtain ⟨k, a⟩ := m
    rw [put]
    split
    · rename_i same
      subst same
      rw [List.filterMap_cons_none now, List.filterMap_cons_none (before a (by simp [get?_cons]))]
    · rename_i different
      rw [List.filterMap_cons, List.filterMap_cons, ih]
      intro old found
      exact before old (by rwa [get?_cons, if_neg different])

namespace FileTree

open VibeLens.Path (IsName)
open Text.Utf8 (Bytes)

variable {t after : FileTree} {cwd here there l other : Location} {text : String} {node : Node}

theorem get?_put_self (notTop : l ≠ []) : (t.put l node).get? l = some node := by
  rw [get?_put t l l node notTop, if_pos rfl]

theorem get?_put_of_ne (different : other ≠ l) : (t.put l node).get? other = t.get? other := by
  by_cases isTop : other = []
  · rw [isTop, get?_top, get?_top]
  · rw [get?_put t l other node isTop, if_neg different.symm]

theorem put_self (found : t.get? l = some node) (notTop : l ≠ []) : t.put l node = t := by
  rw [get?, if_neg notTop] at found
  rw [put, Table.put_self found]

theorem ne_top_of_free (free : t.get? l = none) : l ≠ [] := by
  rintro rfl
  cases free

theorem nodes_get?_of_free (free : t.get? l = none) : t.nodes.get? l = none := by
  rwa [get?, if_neg (ne_top_of_free free)] at free

/-- A tree grows by what is put in place of no link, and in place of no directory unless it is one. -/
theorem grows_put (noLink : ∀ target, t.get? l ≠ some (.link target))
    (notLink : ∀ target, node ≠ .link target) (keeps : t.get? l = some .dir → node = .dir)
    (notTop : l ≠ []) : Grows t (t.put l node) where
  links other target := by
    by_cases same : other = l
    · subst same
      rw [get?_put_self notTop]
      exact iff_of_false (fun link => notLink target (Option.some.inj link)) (noLink target)
    · rw [get?_put_of_ne same]
  dirs other isDir := by
    by_cases same : other = l
    · rw [same, get?_put_self notTop, keeps (same ▸ isDir)]
    · rwa [get?_put_of_ne same]
  listed := by
    apply Table.filterMap_put
    · intro old found
      have found : t.get? l = some old := by rwa [get?, if_neg notTop]
      cases old with
      | dir => rfl
      | file => rfl
      | link target => exact absurd found (noLink target)
    · cases node with
      | dir => rfl
      | file => rfl
      | link target => exact absurd rfl (notLink target)

theorem keys_put_of_free (free : t.get? l = none) :
    (t.put l node).nodes.keys = t.nodes.keys ++ [l] :=
  Table.keys_put_of_get?_eq_none node (nodes_get?_of_free free)

theorem Proper.put (proper : t.Proper) (free : t.get? l = none) (names : ∀ name ∈ l, IsName name) :
    (t.put l node).Proper := by
  constructor
  · rw [keys_put_of_free free, List.nodup_append']
    refine ⟨proper.distinct, List.nodup_singleton l, List.disjoint_singleton.mpr ?_⟩
    rw [Table.mem_keys_iff, nodes_get?_of_free free]
    exact Bool.false_ne_true
  · rw [keys_put_of_free free]
    exact List.forall_mem_append.mpr ⟨proper.names, List.forall_mem_singleton.mpr names⟩

theorem Grounded.hasPlace_of_locate {followLast : Bool} (grounded : t.Grounded)
    (isDir : t.get? cwd = some .dir) (found : t.locate cwd followLast text = .ok l) : t.HasPlace l := by
  unfold locate at found
  split at found
  · cases found
  · apply grounded.hasPlace_of_walk _ _ found
    · intro name member
      refine ⟨?_, noSlash_of_mem_systemNames member⟩
      rintro rfl
      exact empty_notMem_systemNames text member
    · left
      split
      · rfl
      · rw [isDir]
        rfl

theorem Grounded.put_free (grounded : t.Grounded) (place : t.HasPlace l) (free : t.get? l = none) :
    (t.put l node).Grounded := by
  obtain ⟨parent, name, rfl, isName, inDir⟩ := place.resolve_left (by simp [free])
  have names : ∀ other ∈ parent ++ [name], IsName other :=
    List.forall_mem_append.mpr ⟨grounded.isName inDir, List.forall_mem_singleton.mpr isName⟩
  have stays {l : Location} (before : t.get? l = some .dir) :
      (t.put (parent ++ [name]) node).get? l = some .dir := by
    rw [get?_put_of_ne _, before]
    rintro rfl
    rw [free] at before
    cases before
  refine ⟨grounded.toProper.put free names, ?_⟩
  rw [keys_put_of_free free]
  intro key member
  rcases List.mem_append.mp member with old | new
  · exact stays (grounded.parents key old)
  · rw [List.mem_singleton.mp new, List.dropLast_concat]
    exact stays inDir

/-! ### Files -/

theorem get?_put_file_eq_some_iff {content : Bytes} {executable : Bool} (before : t.get? l ≠ some node)
    (noFile : ∀ content executable, node ≠ .file content executable) :
    (t.put l (.file content executable)).get? other = some node ↔ t.get? other = some node := by
  by_cases same : other = l
  · subst same
    refine iff_of_false ?_ before
    by_cases isTop : other = []
    · rwa [isTop, get?_top] at before ⊢
    · rw [get?_put_self isTop]
      exact fun isFile => noFile _ _ (Option.some.inj isFile).symm
  · rw [get?_put_of_ne same]

theorem sameWays_put_file {content : Bytes} {executable : Bool} (noDir : t.get? l ≠ some .dir)
    (noLink : ∀ target, t.get? l ≠ some (.link target)) :
    SameWays t (t.put l (.file content executable)) where
  links _ target := get?_put_file_eq_some_iff (noLink target) fun content executable =>
    (Node.file_ne_link content executable target).symm
  dirs _ := get?_put_file_eq_some_iff noDir nofun

/-- A file is written where its path leads: over a file, which keeps its mode, or into a directory. -/
theorem exists_of_write {content : Bytes} (written : t.write cwd text content = .ok after) :
    ∃ l executable, t.locate cwd true text = .ok l ∧ after = t.put l (.file content executable) ∧
      ((∃ old, t.get? l = some (.file old executable)) ∨
        t.get? l = none ∧ executable = false ∧ t.get? l.dropLast = some .dir) := by
  unfold write at written
  split at written
  · cases written
  · rename_i l found
    split at written
    · rename_i old executable isFile
      cases written
      exact ⟨l, executable, found, rfl, .inl ⟨old, isFile⟩⟩
    · cases written
    · rename_i missing
      split at written
      · rename_i isDir
        cases written
        exact ⟨l, false, found, rfl, .inr ⟨missing, rfl, isDir⟩⟩
      · cases written
      · cases written

theorem exists_place_of_write {content : Bytes} (written : t.write cwd text content = .ok after) :
    ∃ l executable, t.locate cwd true text = .ok l ∧ after = t.put l (.file content executable) ∧
      l ≠ [] ∧ t.get? l ≠ some .dir ∧ ∀ target, t.get? l ≠ some (.link target) := by
  obtain ⟨l, executable, found, same, before⟩ := exists_of_write written
  have noDir : t.get? l ≠ some .dir := by
    rcases before with ⟨old, isFile⟩ | ⟨missing, -⟩
    · simp [isFile]
    · simp [missing]
  have noLink (target : String) : t.get? l ≠ some (.link target) := by
    rcases before with ⟨old, isFile⟩ | ⟨missing, -⟩
    · simp [isFile]
    · simp [missing]
  have notTop : l ≠ [] := by
    rintro rfl
    exact noDir rfl
  exact ⟨l, executable, found, same, notTop, noDir, noLink⟩

theorem Grounded.of_write {content : Bytes} (grounded : t.Grounded) (isDir : t.get? cwd = some .dir)
    (written : t.write cwd text content = .ok after) :
    after.Grounded ∧ after.get? cwd = some .dir := by
  obtain ⟨l, executable, found, rfl, before⟩ := exists_of_write written
  have noDir : t.get? l ≠ some .dir := by
    rcases before with ⟨old, isFile⟩ | ⟨missing, -⟩
    · simp [isFile]
    · simp [missing]
  have stays {other : Location} (inDir : t.get? other = some .dir) :
      (t.put l (.file content executable)).get? other = some .dir := by
    rw [get?_put_of_ne _, inDir]
    rintro rfl
    exact noDir inDir
  refine ⟨?_, stays isDir⟩
  rcases before with ⟨old, isFile⟩ | ⟨missing, -⟩
  · have notTop : l ≠ [] := by
      rintro rfl
      exact noDir rfl
    have keys : (t.put l (.file content executable)).nodes.keys = t.nodes.keys := by
      rw [FileTree.put, Table.keys_put, if_pos (mem_keys_of_isSome notTop (by simp [isFile]))]
    refine ⟨⟨keys ▸ grounded.distinct, keys ▸ grounded.names⟩, fun key member => ?_⟩
    exact stays (grounded.parents key (keys ▸ member))
  · exact grounded.put_free (grounded.hasPlace_of_locate isDir found) missing

theorem find_eq_tooManyLinks_iff :
    t.find cwd text = .error .tooManyLinks ↔ t.locate cwd true text = .error .tooManyLinks := by
  unfold find
  cases t.locate cwd true text with
  | error e => simp only [Except.error.injEq]
  | ok l =>
    refine iff_of_false ?_ nofun
    cases found : t.get? l with
    | none => simp [found]
    | some node => simp [found]

/-- Whether a file can be written does not depend on what is written. -/
theorem exists_write_of_write {content : Bytes} (written : t.write cwd text content = .ok after)
    (other : Bytes) : ∃ tree, t.write cwd text other = .ok tree := by
  obtain ⟨l, executable, found, -, ⟨old, isFile⟩ | ⟨missing, -, isDir⟩⟩ := exists_of_write written
  · exact ⟨t.put l (.file other executable), by simp only [write, found, isFile]⟩
  · exact ⟨t.put l (.file other false), by simp only [write, found, missing, isDir]⟩

theorem Grounded.locate_child {followLast : Bool} {name : String} (grounded : t.Grounded)
    (isDir : t.get? l = some .dir) (isName : IsName name)
    (noLink : ∀ target, t.get? (l ++ [name]) ≠ some (.link target)) :
    t.locate cwd followLast (Location.text (l ++ [name])) = .ok (l ++ [name]) := by
  have proper : ∀ other ∈ l ++ [name], IsName other :=
    List.forall_mem_append.mpr ⟨grounded.isName isDir, List.forall_mem_singleton.mpr isName⟩
  have free : t.LinkFree (l ++ [name]) := (grounded.linkFree isDir Node.dir_ne_link).concat noLink
  rw [FileTree.locate_text t cwd followLast (by simp) proper]
  apply walk_literal proper _ free
  intro above isAbove different
  have higher : above <+: l := (List.prefix_concat_iff.mp isAbove).resolve_left different
  by_cases same : above = l
  · rw [same]
    exact isDir
  · exact grounded.isDir_of_prefix isDir higher same

theorem Grounded.write_new {name : String} (grounded : t.Grounded) (isDir : t.get? l = some .dir)
    (isName : IsName name) (missing : t.get? (l ++ [name]) = none) (content : Bytes) :
    t.write cwd (Location.text (l ++ [name])) content =
      .ok (t.put (l ++ [name]) (.file content false)) := by
  have located : t.locate cwd true (Location.text (l ++ [name])) = .ok (l ++ [name]) :=
    grounded.locate_child isDir isName (by simp [missing])
  simp only [write, located, missing, List.dropLast_concat, isDir]

/-- A file can be written into every directory, unless something else has its name there. -/
theorem Grounded.exists_write {name : String} (grounded : t.Grounded) (isDir : t.get? l = some .dir)
    (isName : IsName name)
    (free : ∀ node, t.get? (l ++ [name]) = some node → ∃ old executable, node = .file old executable)
    (content : Bytes) : ∃ tree, t.write cwd (Location.text (l ++ [name])) content = .ok tree := by
  cases found : t.get? (l ++ [name]) with
  | none => exact ⟨_, grounded.write_new isDir isName found content⟩
  | some node =>
    obtain ⟨old, executable, rfl⟩ := free node found
    have located : t.locate cwd true (Location.text (l ++ [name])) = .ok (l ++ [name]) :=
      grounded.locate_child isDir isName (by simp [found])
    refine ⟨t.put (l ++ [name]) (.file content executable), ?_⟩
    simp only [write, located, found]

theorem read_of_write {content : Bytes} (written : t.write cwd text content = .ok after) :
    after.read cwd text = .ok content := by
  obtain ⟨l, executable, found, rfl, notTop, noDir, noLink⟩ := exists_place_of_write written
  rw [read, find, (sameWays_put_file noDir noLink).locate_eq_ok found]
  simp only [get?_put_self notTop]

theorem write_of_write {content : Bytes} (written : t.write cwd text content = .ok after) :
    after.write cwd text content = .ok after := by
  obtain ⟨l, executable, found, rfl, notTop, noDir, noLink⟩ := exists_place_of_write written
  have isFile : (t.put l (.file content executable)).get? l = some (.file content executable) :=
    get?_put_self notTop
  rw [write, (sameWays_put_file noDir noLink).locate_eq_ok found]
  simp only [isFile, put_self isFile notTop]

theorem Grows.of_write {content : Bytes} (written : t.write cwd text content = .ok after) :
    Grows t after := by
  obtain ⟨l, executable, -, rfl, notTop, noDir, noLink⟩ := exists_place_of_write written
  exact grows_put noLink (Node.file_ne_link _ _) (fun isDir => absurd isDir noDir) notTop

theorem SameWays.resolve {p : Path} (same : SameWays t after) (grows : Grows t after)
    (resolved : t.resolve cwd p = .ok l) : after.resolve cwd p = .ok l := by
  refine grows.resolve resolved fun circle => (resolve_eq_ok_iff.1 resolved).2.2 ?_
  rw [find_eq_tooManyLinks_iff] at circle ⊢
  rcases same.locate cwd true (Location.text l) with equal | ⟨-, e, refused, missing⟩
  · exact equal ▸ circle
  · rw [circle] at refused
    cases refused
    cases missing

/-! ### New files -/

section NewFile

variable {content : Bytes} {executable : Bool} (free : t.get? l = none)

include free

theorem sameWays_put_new : SameWays t (t.put l (.file content executable)) := by
  apply sameWays_put_file <;> simp [free]

theorem resolve_put_new {p : Path} (resolved : t.resolve cwd p = .ok there) :
    (t.put l (.file content executable)).resolve cwd p = .ok there :=
  (sameWays_put_new free).resolve (grows_put (by simp [free]) (Node.file_ne_link _ _) (by simp [free])
    (ne_top_of_free free)) resolved

end NewFile

/-! ### Directories -/

theorem exists_of_makeDir (made : t.makeDir cwd text = .ok after) :
    ∃ l, t.locate cwd false text = .ok l ∧ t.get? l = none ∧ after = t.put l .dir := by
  unfold makeDir at made
  split at made
  · cases made
  · rename_i l found
    split at made
    · cases made
    · rename_i missing
      exact ⟨l, found, by simpa using missing, (Except.ok.inj made).symm⟩

theorem makeDir_of_ensureDir (made : t.ensureDir cwd text = .ok after) :
    after = t ∨ t.makeDir cwd text = .ok after := by
  unfold ensureDir at made
  split at made
  · rename_i result
    cases made
    exact .inr result
  · split at made
    · exact .inl (Except.ok.inj made).symm
    · cases made

theorem isDir_of_ensureDir (noZero : hasZero text = false) (made : t.ensureDir cwd text = .ok after) :
    after.isDir cwd text = true := by
  unfold ensureDir at made
  split at made
  · rename_i tree new
    cases made
    obtain ⟨l, found, missing, rfl⟩ := exists_of_makeDir new
    have notTop : l ≠ [] := ne_top_of_free missing
    have grows : Grows t (t.put l .dir) :=
      grows_put (by simp [missing]) Node.dir_ne_link (fun _ => rfl) notTop
    have located : t.locate cwd true text = .ok l := locate_of_locate_last found (by simp [missing])
    simp [FileTree.isDir, noZero, find, grows.locate located, get?_put_self notTop]
  · split at made
    · rename_i there
      cases made
      exact there.2
    · cases made

theorem ensureDir_of_isDir (isDir : t.isDir cwd text = true) : t.ensureDir cwd text = .ok t := by
  obtain ⟨-, l, located, found⟩ := isDir_iff.mp isDir
  obtain ⟨last, locatedLast, isThere⟩ := exists_locate_last located (by simp [found])
  have refused : t.makeDir cwd text = .error .exists := by
    simp only [makeDir, locatedLast, isThere, if_true]
  simp [ensureDir, refused, isDir]

theorem ensureDirs_of_ensureDir {anchor : Anchor} {names : List String}
    (ensured : t.ensureDir cwd (Path.mk anchor names.reverse).toString = .ok after) :
    t.ensureDirs cwd anchor names = .ok after := by
  cases names with
  | nil => exact Failure.ofSystem_eq_ok_iff.mpr ensured
  | cons name above =>
    rw [ensureDirs, ensured]
    rfl

theorem ensureDirs_of_isDir {anchor : Anchor} {names : List String}
    (isDir : t.isDir cwd (Path.mk anchor names.reverse).toString = true) :
    t.ensureDirs cwd anchor names = .ok t := ensureDirs_of_ensureDir (ensureDir_of_isDir isDir)

theorem Grounded.ensureDirs_new {name : String} (grounded : t.Grounded) (isDir : t.get? l = some .dir)
    (isName : IsName name) (free : t.get? (l ++ [name]) = none) :
    t.ensureDirs cwd .top (l ++ [name]).reverse = .ok (t.put (l ++ [name]) .dir) := by
  have located : t.locate cwd false (Location.text (l ++ [name])) = .ok (l ++ [name]) :=
    grounded.locate_child isDir isName (by simp [free])
  apply ensureDirs_of_ensureDir
  rw [List.reverse_reverse, show (Path.mk .top (l ++ [name])).toString = Location.text (l ++ [name]) from rfl]
  simp [ensureDir, makeDir, located, free]

theorem isDir_of_ensureDirs {anchor : Anchor} {names : List String}
    (noZero : hasZero (Path.mk anchor names.reverse).toString = false)
    (made : t.ensureDirs cwd anchor names = .ok after) :
    after.isDir cwd (Path.mk anchor names.reverse).toString = true := by
  cases names with
  | nil => exact isDir_of_ensureDir noZero (Failure.ofSystem_eq_ok_iff.mp made)
  | cons name above =>
    rw [ensureDirs] at made
    split at made
    · obtain ⟨middle, -, made⟩ := bind_eq_ok_iff.mp made
      exact isDir_of_ensureDir noZero (Failure.ofSystem_eq_ok_iff.mp made)
    · exact isDir_of_ensureDir noZero (Failure.ofSystem_eq_ok_iff.mp made)

theorem Grounded.ensureDirs_self (grounded : t.Grounded) (isDir : t.get? l = some .dir)
    (noZero : hasZero (Location.text l) = false) : t.ensureDirs cwd .top l.reverse = .ok t := by
  apply ensureDirs_of_isDir
  rw [List.reverse_reverse, show (Path.mk .top l).toString = Location.text l from rfl]
  simp [FileTree.isDir, noZero, grounded.find_text isDir Node.dir_ne_link]

section Induction

variable {anchor : Anchor} {names : List String} (Changes : FileTree → FileTree → Prop)
  (refl : ∀ t, Changes t t)
  (trans : ∀ t middle after, Changes t middle → Changes middle after → Changes t after)

include refl trans

/-- What making one directory does, at whatever level, making them all does. -/
theorem ensureDirs_induction
    (step : ∀ t after level, level <:+ names →
      t.makeDir cwd (Path.mk anchor level.reverse).toString = .ok after → Changes t after)
    (made : t.ensureDirs cwd anchor names = .ok after) : Changes t after := by
  induction names generalizing after with
  | nil =>
    rcases makeDir_of_ensureDir (Failure.ofSystem_eq_ok_iff.mp made) with rfl | new
    · exact refl after
    · exact step t after [] List.suffix_rfl new
  | cons name above ih =>
    have last {t after : FileTree} (made : t.ensureDir cwd
        (Path.mk anchor (name :: above).reverse).toString = .ok after) : Changes t after := by
      rcases makeDir_of_ensureDir made with rfl | new
      · exact refl after
      · exact step t after (name :: above) List.suffix_rfl new
    rw [ensureDirs] at made
    split at made
    · obtain ⟨middle, upper, made⟩ := bind_eq_ok_iff.mp made
      apply trans t middle after
      · apply ih _ upper
        exact fun t after level isAbove => step t after level (isAbove.trans (List.suffix_cons name above))
      · exact last (Failure.ofSystem_eq_ok_iff.mp made)
    · exact last (Failure.ofSystem_eq_ok_iff.mp made)

/-- So does a failed attempt. -/
theorem dirsLeft_induction
    (step : ∀ t after level, level <:+ names →
      t.makeDir cwd (Path.mk anchor level.reverse).toString = .ok after → Changes t after) :
    Changes t (t.dirsLeft cwd anchor names) := by
  induction names with
  | nil => exact refl t
  | cons name above ih =>
    have upper : ∀ t after level, level <:+ above →
        t.makeDir cwd (Path.mk anchor level.reverse).toString = .ok after → Changes t after :=
      fun t after level isAbove => step t after level (isAbove.trans (List.suffix_cons name above))
    rw [dirsLeft]
    split
    · split
      · rename_i made
        exact ensureDirs_induction Changes refl trans upper made
      · exact ih upper
    · exact refl t

end Induction

theorem Grounded.makeDir (grounded : t.Grounded) (isDir : t.get? cwd = some .dir)
    (made : t.makeDir cwd text = .ok after) : after.Grounded ∧ after.get? cwd = some .dir := by
  obtain ⟨l, found, missing, rfl⟩ := exists_of_makeDir made
  refine ⟨grounded.put_free (grounded.hasPlace_of_locate isDir found) missing, ?_⟩
  rw [get?_put_of_ne _, isDir]
  rintro rfl
  rw [missing] at isDir
  cases isDir

theorem Grounded.ensureDirs {anchor : Anchor} {names : List String} (grounded : t.Grounded)
    (isDir : t.get? cwd = some .dir) (made : t.ensureDirs cwd anchor names = .ok after) :
    after.Grounded ∧ after.get? cwd = some .dir := by
  let Keeps (t after : FileTree) : Prop :=
    t.Grounded ∧ t.get? cwd = some .dir → after.Grounded ∧ after.get? cwd = some .dir
  have keeps : Keeps t after := by
    apply ensureDirs_induction Keeps _ _ _ made
    · exact fun _ sound => sound
    · exact fun _ _ _ first second sound => second (first sound)
    · exact fun _ _ _ _ made sound => sound.1.makeDir sound.2 made
  exact keeps ⟨grounded, isDir⟩

theorem Grows.of_ensureDirs {anchor : Anchor} {names : List String}
    (made : t.ensureDirs cwd anchor names = .ok after) : Grows t after := by
  apply ensureDirs_induction Grows Grows.refl (fun _ _ _ => Grows.trans) _ made
  intro t after level _ made
  obtain ⟨l, -, missing, rfl⟩ := exists_of_makeDir made
  exact grows_put (by simp [missing]) Node.dir_ne_link (fun _ => rfl) (ne_top_of_free missing)

end FileTree
end VibeLens
