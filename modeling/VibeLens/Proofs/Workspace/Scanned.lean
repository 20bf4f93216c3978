import VibeLens.Proofs.Files.Grounded
import VibeLens.Proofs.Workspace.SourceScan

set_option autoImplicit false

/-!
What a scan has found if it comes to an end, whether or not there are faults in ignore files that it
never asks. Wherever it went it was answered, so that it gives the source files, neither more nor
less. Every file it gives is there and can be read, and if the file lies below the root as it was
given, that root is its own canonical location.
-/

namespace VibeLens

open FileTree
open VibeLens.Path (IsName)

section Lists

variable {ε α : Type} {p : α → Except ε Bool} {xs ys : List α}

theorem exists_of_filterAuxM {kept : List α} (filtered : xs.filterAuxM p kept = .ok ys) :
    ∀ x ∈ xs, ∃ answer, p x = .ok answer := by
  induction xs generalizing kept with
  | nil => exact List.forall_mem_nil _
  | cons x rest ih =>
    obtain ⟨answer, decided, filtered⟩ := bind_eq_ok_iff.mp filtered
    exact List.forall_mem_cons.mpr ⟨⟨answer, decided⟩, ih filtered⟩

theorem exists_of_filterM (filtered : xs.filterM p = .ok ys) :
    ∀ x ∈ xs, ∃ answer, p x = .ok answer := by
  obtain ⟨_, filtered, -⟩ := bind_eq_ok_iff.mp filtered
  exact exists_of_filterAuxM filtered

end Lists

namespace Walk

variable {w : Walk} {list : Location → List String} {base l : Location}
  {known all : List LocalRules} {levels : Nat} {found : List Location}

/-! ### A walk that ends has been answered -/

theorem Lists.legible_of_scan_succ (lists : w.Lists list) (knows : w.Knows known base)
    (scanned : w.scan list (levels + 1) known base = .ok (all, found)) : w.Legible base := by
  obtain ⟨rules, read, scanned⟩ := bind_eq_ok_iff.mp scanned
  obtain ⟨dirs, entered, scanned⟩ := bind_eq_ok_iff.mp scanned
  obtain ⟨files, taken, -⟩ := bind_eq_ok_iff.mp scanned
  obtain rfl := eq_of_localRules read
  refine ⟨⟨_, read⟩, fun name => ?_, fun name => ?_⟩
  · rw [← knows.active name]
    by_cases there : name ∈ list (w.place ++ base)
    · exact exists_of_filterM entered name there
    · rw [lists.mem_list, Option.not_isSome_iff_eq_none] at there
      refine exists_enters_iff.mpr fun isDir => ?_
      rw [there] at isDir
      cases isDir
  · rw [← knows.active name]
    by_cases there : name ∈ list (w.place ++ base)
    · exact exists_of_filterM taken name there
    · rw [lists.mem_list, Option.not_isSome_iff_eq_none] at there
      refine exists_takes_iff.mpr ?_
      rintro ⟨content, executable, isFile⟩
      rw [there] at isFile
      cases isFile

theorem legible_of_foldlM {dirs : List String} {sofar : List Location} (lists : w.Lists list)
    (scans : ∀ {known all found name}, w.Knows known (base ++ [name]) →
      w.scan list levels known (base ++ [name]) = .ok (all, found) →
      ∀ dir, w.Visited levels (base ++ [name]) dir → w.Legible dir)
    (distinct : dirs.Nodup) (knows : ∀ name ∈ dirs, w.Knows known (base ++ [name]))
    (folded : dirs.foldlM (fun (known, found) name => do
        let (known, more) ← w.scan list levels known (base ++ [name])
        return (known, found ++ more)) (known, sofar) = .ok (all, found)) :
    ∀ name ∈ dirs, ∀ dir, w.Visited levels (base ++ [name]) dir → w.Legible dir := by
  induction dirs generalizing known sofar with
  | nil => exact List.forall_mem_nil _
  | cons name rest ih =>
    obtain ⟨fresh, distinct⟩ := List.nodup_cons.mp distinct
    rw [List.foldlM_cons] at folded
    obtain ⟨_, step, folded⟩ := bind_eq_ok_iff.mp folded
    obtain ⟨⟨learned, here⟩, scanned, step⟩ := bind_eq_ok_iff.mp step
    cases step
    have legible := scans (knows name List.mem_cons_self) scanned
    -- What the first directory has taught concerns none of the others.
    obtain ⟨extra, _, scannedAgain, owners, -⟩ :=
      lists.finds levels legible (knows name List.mem_cons_self)
    have same := Except.ok.inj (scanned.symm.trans scannedAgain)
    obtain rfl : learned = known ++ extra := congrArg Prod.fst same
    refine List.forall_mem_cons.mpr ⟨legible, ih distinct ?_ folded⟩
    intro other member
    refine (knows other (List.mem_cons_of_mem _ member)).beside ?_ owners
    rintro rfl
    exact fresh member

theorem Lists.legible_of_scan (lists : w.Lists list) (knows : w.Knows known base)
    (scanned : w.scan list levels known base = .ok (all, found)) :
    ∀ dir, w.Visited levels base dir → w.Legible dir := by
  induction levels generalizing known all base found with
  | zero =>
    intro dir visited
    cases visited
  | succ levels ih =>
    have legible := lists.legible_of_scan_succ knows scanned
    rw [legible.scan_succ knows] at scanned
    have inside := legible_of_foldlM lists ih (lists.nodup_dirsIn base)
      (fun name _ => knows.enter name) scanned
    intro dir visited
    cases visited with
    | here => exact legible
    | deeper entered visited => exact inside _ (lists.mem_dirsIn.mpr entered) dir visited

theorem Lists.sources_found {includes excludes : List String} {files : List Location}
    (lists : w.Lists list) (scanned : w.sources list includes excludes = .ok files) :
    (∀ dir, w.Visited w.tree.height [] dir → w.Legible dir) ∧
      files.Pairwise (fun a b => relativeText w.root a < relativeText w.root b) ∧
      ∀ p, p ∈ files ↔ ∃ l, p = w.root ++ l ∧ w.IsSource l ∧
        Glob.Selected includes excludes (relativeText w.root p) := by
  obtain ⟨⟨all, found⟩, ended, -⟩ := bind_eq_ok_iff.mp scanned
  have legible := lists.legible_of_scan w.knows_root ended
  obtain ⟨others, again, ordered, exactly⟩ := lists.sources_exact legible includes excludes
  obtain rfl : files = others := Except.ok.inj (scanned.symm.trans again)
  exact ⟨legible, ordered, exactly⟩

section Visits

variable {w : Walk} {levels other : Nat} {base dir : Location}

theorem Visited.prefix (visited : w.Visited levels base dir) : base <+: dir := by
  induction visited with
  | here => exact List.prefix_refl _
  | deeper _ _ ih => exact (List.prefix_append _ _).trans ih

theorem Visited.of_length_lt (visited : w.Visited levels base dir)
    (near : dir.length < base.length + other) : w.Visited other base dir := by
  induction visited generalizing other with
  | here levels base =>
    obtain ⟨other, rfl⟩ := Nat.exists_eq_succ_of_ne_zero (n := other) (by omega)
    exact .here other base
  | deeper entered visited ih =>
    have longer := visited.prefix.length_le
    rw [List.length_append, List.length_singleton] at longer
    obtain ⟨other, rfl⟩ := Nat.exists_eq_succ_of_ne_zero (n := other) (by omega)
    refine .deeper entered (ih ?_)
    rw [List.length_append, List.length_singleton]
    omega

theorem Visited.entered_or_eq (visited : w.Visited levels base dir) : dir = base ∨ w.Entered dir := by
  induction visited with
  | here => exact .inl rfl
  | deeper entered _ ih =>
    rcases ih with rfl | inside
    · exact .inr entered
    · exact .inr inside

theorem Visited.of_root (visited : w.Visited levels [] dir) : w.Visited w.tree.height [] dir := by
  apply visited.of_length_lt
  rw [List.length_nil, Nat.zero_add]
  rcases visited.entered_or_eq with rfl | entered
  · exact Nat.succ_pos _
  · have short := length_lt_height_of_get? entered.isDir
    rw [List.length_append] at short
    omega

end Visits

/-! ### Walks that are answered alike -/

structure Alike (w w' : Walk) : Prop where
  root : w'.root = w.root
  skip : w'.skip = w.skip
  dirs : ∀ l, w'.get? l = some .dir ↔ w.get? l = some .dir
  ignoreFiles : ∀ base, w'.get? (base ++ [".gitignore"]) = w.get? (base ++ [".gitignore"])
  sourceFiles : ∀ l, (Path.ofLocation l).suffix = sourceSuffix → w'.get? l = w.get? l

namespace Alike

variable {w' : Walk} {list' : Location → List String} (alike : Alike w w')

include alike

theorem ignoreFile?_eq (base : Location) : w'.ignoreFile? base = w.ignoreFile? base := by
  rw [ignoreFile?, alike.ignoreFiles, ignoreFile?]

theorem rulesAbove_eq (l : Location) : w'.rulesAbove l = w.rulesAbove l := by
  simp only [rulesAbove, rulesAt, alike.ignoreFile?_eq]

theorem ignored_iff : w'.Ignored l ↔ w.Ignored l := by
  simp only [Ignored, alike.ignoreFile?_eq]

theorem entered_iff : w'.Entered l ↔ w.Entered l := by
  constructor
  · rintro ⟨isDir, name, notSkipped, notIgnored⟩
    rw [alike.root, alike.skip] at notSkipped
    exact ⟨(alike.dirs l).mp isDir, name, notSkipped, mt alike.ignored_iff.mpr notIgnored⟩
  · rintro ⟨isDir, name, notSkipped, notIgnored⟩
    rw [← alike.root, ← alike.skip] at notSkipped
    exact ⟨(alike.dirs l).mpr isDir, name, notSkipped, mt alike.ignored_iff.mp notIgnored⟩

theorem taken_iff : w'.Taken l ↔ w.Taken l := by
  constructor
  · rintro ⟨isFile, suffix, notIgnored⟩
    exact ⟨alike.sourceFiles l suffix ▸ isFile, suffix, mt alike.ignored_iff.mpr notIgnored⟩
  · rintro ⟨isFile, suffix, notIgnored⟩
    exact ⟨(alike.sourceFiles l suffix).symm ▸ isFile, suffix, mt alike.ignored_iff.mp notIgnored⟩

theorem isSource_iff : w'.IsSource l ↔ w.IsSource l := by
  constructor
  · rintro ⟨taken, way⟩
    exact ⟨alike.taken_iff.mp taken, fun dir nonempty isAbove different =>
      alike.entered_iff.mp (way dir nonempty isAbove different)⟩
  · rintro ⟨taken, way⟩
    exact ⟨alike.taken_iff.mpr taken, fun dir nonempty isAbove different =>
      alike.entered_iff.mpr (way dir nonempty isAbove different)⟩

theorem visited {dir : Location} (visited : w'.Visited levels base dir) :
    w.Visited levels base dir := by
  induction visited with
  | here levels base => exact .here levels base
  | deeper entered _ ih => exact .deeper (alike.entered_iff.mp entered) ih

theorem legible (legible : w.Legible base) : w'.Legible base where
  rules := by
    obtain ⟨rules, read⟩ := legible.rules
    exact ⟨rules, by rw [localRules, alike.ignoreFiles, ← read, localRules]⟩
  enters name := by
    rw [exists_enters_iff, alike.root, alike.skip, alike.dirs, alike.rulesAbove_eq]
    exact exists_enters_iff.mp (legible.enters name)
  takes name := by
    rw [exists_takes_iff, alike.rulesAbove_eq]
    intro isFile suffix
    rw [alike.sourceFiles _ suffix] at isFile
    exact exists_takes_iff.mp (legible.takes name) isFile suffix

theorem sources_eq_ok {includes excludes : List String} {files : List Location} (lists : w.Lists list)
    (lists' : w'.Lists list') (scanned : w.sources list includes excludes = .ok files) :
    w'.sources list' includes excludes = .ok files := by
  obtain ⟨legible, ordered, exactly⟩ := lists.sources_found scanned
  obtain ⟨others, scanned', ordered', exactly'⟩ := lists'.sources_exact
    (fun dir visited => alike.legible (legible dir (alike.visited visited).of_root)) includes excludes
  rw [alike.root] at ordered' exactly'
  have same : others = files := by
    apply eq_of_increasing ordered' ordered
    intro file
    simp only [exactly, exactly', alike.isSource_iff]
  rw [scanned', same]

end Alike

section NoIgnoreFiles

variable (none : ∀ key ∈ w.tree.nodes.keys, key.getLast? ≠ some ".gitignore")

include none

theorem get?_ignoreFile (base : Location) : w.get? (base ++ [".gitignore"]) = Option.none := by
  by_contra there
  have notTop : w.place ++ (base ++ [".gitignore"]) ≠ [] := by simp
  have isKey := mem_keys_of_isSome notTop (Option.isSome_iff_ne_none.mpr there)
  exact none _ isKey (by simp)

theorem parses_of_forall_keys : w.Parses := by
  intro base content executable found
  rw [get?_ignoreFile none] at found
  cases found

theorem not_ignored_of_forall_keys : ¬ w.Ignored l := by
  rintro ⟨base, file, -, -, found, -⟩
  simp only [ignoreFile?, get?_ignoreFile none] at found
  cases found

end NoIgnoreFiles

end Walk

/-! ### The root of what was found -/

namespace Host

variable {h : Host} {root top l : Location} {skip : List Location} {node : Node}

theorem leads_walk_place (grounded : h.tree.Grounded) (names : ∀ name ∈ top, IsName name)
    (found : (h.walk top skip).get? l = some node) (noLink : ∀ target, node ≠ .link target) :
    h.tree.Leads [] top (h.walk top skip).place := by
  have free : h.tree.LinkFree ((h.walk top skip).place ++ l) := grounded.linkFree found noLink
  cases located : h.tree.locate h.cwd true (Location.text top) with
  | ok there =>
    have place : (h.walk top skip).place = there := by simp only [walk, located]
    rw [place]
    exact leads_of_locate names located
  | error e =>
    have place : (h.walk top skip).place = top := by simp only [walk, located]
    rw [place] at free ⊢
    exact (free.of_prefix (List.prefix_append top l)).leads names

/-- The scan resolves the root again. If something that it finds lies below the root as it was, then
there is no link in the root, and nothing has changed. -/
theorem root_of_found (grounded : h.tree.Grounded) (rootNames : ∀ name ∈ root, IsName name)
    (topNames : ∀ name ∈ top, IsName name) (resolved : h.resolve (Path.ofLocation root) = .ok top)
    (found : (h.walk top skip).get? l = some node) (noLink : ∀ target, node ≠ .link target)
    (inside : root <+: top ++ l) : top = root ∧ (h.walk top skip).place = root := by
  have way := leads_walk_place grounded topNames found noLink
  have free : h.tree.LinkFree ((h.walk top skip).place ++ l) := grounded.linkFree found noLink
  have lNames : ∀ name ∈ l, IsName name := fun name member =>
    grounded.isName found name (List.mem_append_right _ member)
  have canonical {there : Location} (ends : h.tree.Leads [] root there) : h.tree.Leads [] root top :=
    leads_of_resolve resolved ⟨there, ends⟩
  rcases List.prefix_or_prefix_of_prefix inside (List.prefix_append top l) with
    ⟨rest, rfl⟩ | ⟨rest, rfl⟩
  · obtain ⟨mid, upper, -⟩ := Leads.append_iff.mp way
    have resolvedWay := canonical upper
    have linkFree := resolvedWay.linkFree linkFree_top
    have literal := (linkFree.of_prefix (List.prefix_append root rest)).leads rootNames
    have same : root ++ rest = root := resolvedWay.unique literal
    rw [same] at way ⊢
    exact ⟨rfl, way.unique literal⟩
  · have isBegun : rest <+: l := (List.prefix_append_right_inj top).mp inside
    have restNames : ∀ name ∈ rest, IsName name := fun name member =>
      lNames name (isBegun.subset member)
    have lower : h.tree.LinkFree ((h.walk top skip).place ++ rest) :=
      free.of_prefix ((List.prefix_append_right_inj _).mpr isBegun)
    have whole := Leads.append_iff.mpr ⟨_, way, lower.leads_append restNames⟩
    have same : top = (h.walk top skip).place ++ rest := (canonical whole).unique whole
    have literal := ((canonical whole).linkFree linkFree_top).leads topNames
    have place : (h.walk top skip).place = top := way.unique literal
    rw [place] at same ⊢
    have none : rest = [] := List.append_right_eq_self.mp same.symm
    rw [none, List.append_nil]
    exact ⟨rfl, rfl⟩

theorem sources_found {skip : List Path} {includes excludes : List String} {files : List Location}
    (grounded : h.tree.Grounded) (cwdNames : ∀ name ∈ h.cwd, IsName name)
    (rootNames : ∀ name ∈ root, IsName name)
    (scanned : h.sources (Path.ofLocation root) skip includes excludes = .ok files)
    (inside : ∀ file ∈ files, root <+: file) :
    files.Pairwise (fun a b => relativeText root a < relativeText root b) ∧
      ∀ file ∈ files, ∃ content executable, h.tree.get? file = some (.file content executable) := by
  obtain ⟨top, skipped, resolved, -, scanned⟩ := sourcesListed_eq_ok_iff.mp scanned
  have topNames : ∀ name ∈ top, IsName name :=
    isName_of_resolve resolved cwdNames fun name member => (rootNames name member).noSlash
  have lists : (h.walk top skipped).Lists h.tree.children := ⟨grounded.toProper, fun _ => .refl _⟩
  obtain ⟨-, ordered, exactly⟩ := lists.sources_found scanned
  have rooted {file : Location} (member : file ∈ files) :
      top = root ∧ ∃ content executable, h.tree.get? file = some (.file content executable) := by
    obtain ⟨l, rfl, source, -⟩ := (exactly file).mp member
    obtain ⟨content, executable, isFile⟩ := source.taken.isFile
    obtain ⟨same, place⟩ := root_of_found grounded rootNames topNames resolved isFile
      (Node.file_ne_link _ _) (inside _ member)
    have there : (h.walk top skipped).place ++ l = top ++ l := by rw [place, same]
    exact ⟨same, content, executable, there ▸ isFile⟩
  refine ⟨?_, fun file member => (rooted member).2⟩
  cases files with
  | nil => exact .nil
  | cons first rest =>
    obtain ⟨rfl, -⟩ := rooted List.mem_cons_self
    exact ordered

theorem exists_sources {root : Path} {skip : List Path} {skipped : List Location}
    (proper : h.tree.Proper) (resolved : h.resolve root = .ok top)
    (resolvedSkip : skip.mapM h.resolve = .ok skipped) (parses : (h.walk top skipped).Parses)
    (includes excludes : List String) :
    ∃ files, h.sources root skip includes excludes = .ok files ∧
      ∀ p, p ∈ files ↔ ∃ l, p = top ++ l ∧ (h.walk top skipped).IsSource l ∧
        Glob.Selected includes excludes (relativeText top p) := by
  have sound : (h.walk top skipped).Sound h.tree.children := ⟨proper, fun _ => .refl _, parses⟩
  obtain ⟨files, scanned, -, exactly⟩ := sound.sources_exact includes excludes
  exact ⟨files, (sourcesListed_iff_of_resolve resolved resolvedSkip).mpr scanned, exactly⟩

end Host
end VibeLens
