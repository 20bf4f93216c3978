import VibeLens.Proofs.Files.Writing
import VibeLens.Proofs.Workspace.Scanned

set_option autoImplicit false

/-!
What a new ignore file does to a scan. Its rules are asked besides those that were in force before,
and a location is ignored as soon as one file ignores it. So the new file can take files away but
bring none back, whatever its rules take back in, and it is asked about nothing outside its own
directory.
-/

namespace VibeLens

open FileTree
open VibeLens.Path (IsName)

/-- The rules of a directory let a location through: neither it nor a directory between is ignored. -/
def LocalRules.Spares (r : LocalRules) (l : Location) : Prop :=
  ∀ level, r.base <+: level → level ≠ r.base → level <+: l → ¬ r.Ignores level

instance (r : LocalRules) (l : Location) : Decidable (r.Spares l) :=
  decidable_of_iff (∀ level ∈ l.inits, r.base <+: level → level ≠ r.base → ¬ r.Ignores level)
    ⟨fun spares level below different isAbove =>
        spares level ((List.mem_inits _ _).2 isAbove) below different,
      fun spares level member below different =>
        spares level below different ((List.mem_inits _ _).1 member)⟩

theorem LocalRules.below_of_not_spares {r : LocalRules} {l : Location} (ignored : ¬ r.Spares l) :
    r.base <+: l ∧ l ≠ r.base := by
  simp only [Spares, not_forall, not_not] at ignored
  obtain ⟨level, below, different, isAbove, -⟩ := ignored
  refine ⟨below.trans isAbove, ?_⟩
  rintro rfl
  exact different (isAbove.eq_of_length_le below.length_le)

theorem LocalRules.below_root_of_not_spares {r : LocalRules} {root file : Location}
    (inside : root <+: file) (ignored : ¬ r.Spares (file.drop root.length)) :
    root ++ r.base <+: file ∧ file ≠ root ++ r.base := by
  obtain ⟨l, rfl⟩ := inside
  rw [List.drop_left] at ignored
  obtain ⟨below, different⟩ := LocalRules.below_of_not_spares ignored
  refine ⟨(List.prefix_append_right_inj root).mpr below, ?_⟩
  exact fun same => different (List.append_cancel_left same)

namespace Walk

def withIgnoreFile (w : Walk) (dir : Location) (content : Text.Utf8.Bytes) (executable : Bool) :
    Walk :=
  { w with tree := w.tree.put (w.place ++ (dir ++ [".gitignore"])) (.file content executable) }

@[simp] theorem withIgnoreFile_root (w : Walk) (dir : Location) (content : Text.Utf8.Bytes)
    (executable : Bool) : (w.withIgnoreFile dir content executable).root = w.root := rfl

section NewFile

variable {w : Walk} {dir base l : Location} {content : Text.Utf8.Bytes} {executable : Bool}
  {f : IgnoreFile} {list listAfter : Location → List String} {levels : Nat}
  (free : w.get? (dir ++ [".gitignore"]) = none) (parsed : IgnoreFile.ofBytes content = .ok f)

theorem get?_withIgnoreFile_self :
    (w.withIgnoreFile dir content executable).get? (dir ++ [".gitignore"]) =
      some (.file content executable) :=
  get?_put_self (by simp)

theorem get?_withIgnoreFile_of_ne (different : l ≠ dir ++ [".gitignore"]) :
    (w.withIgnoreFile dir content executable).get? l = w.get? l :=
  get?_put_of_ne fun same => different (List.append_cancel_left same)

theorem suffix_ignoreFile (dir : Location) :
    (Path.ofLocation (dir ++ [".gitignore"])).suffix ≠ sourceSuffix := by
  rw [Path.suffix, Path.name, Path.ofLocation, List.getLast?_concat]
  decide

theorem localRules_withIgnoreFile_of_ne (different : base ≠ dir) :
    (w.withIgnoreFile dir content executable).localRules base = w.localRules base := by
  unfold localRules
  rw [get?_withIgnoreFile_of_ne fun same => different (List.append_cancel_right same)]

theorem rulesAt_withIgnoreFile_of_ne (different : base ≠ dir) :
    (w.withIgnoreFile dir content executable).rulesAt base = w.rulesAt base := by
  unfold rulesAt ignoreFile?
  rw [get?_withIgnoreFile_of_ne fun same => different (List.append_cancel_right same)]

include parsed

theorem rulesAt_withIgnoreFile_self :
    (w.withIgnoreFile dir content executable).rulesAt dir = [⟨dir, f⟩] :=
  rulesAt_eq_of_get? get?_withIgnoreFile_self parsed

include free

variable (executable) in
theorem filter_rulesAbove_withIgnoreFile (l : Location) :
    ((w.withIgnoreFile dir content executable).rulesAbove l).filter (fun r => r.base ≠ dir) =
      w.rulesAbove l := by
  unfold rulesAbove
  rw [List.filter_flatMap]
  apply List.flatMap_congr
  intro n _
  by_cases same : l.take n = dir
  · have none : w.rulesAt dir = [] := by
      rw [rulesAt, ignoreFile?, free]
      rfl
    rw [same, rulesAt_withIgnoreFile_self parsed, none]
    simp
  · rw [rulesAt_withIgnoreFile_of_ne same, List.filter_eq_self]
    intro r member
    rw [(mem_rulesAt.mp member).1]
    exact decide_eq_true same

theorem mem_rulesAbove_withIgnoreFile {r : LocalRules} :
    r ∈ (w.withIgnoreFile dir content executable).rulesAbove l ↔
      r ∈ w.rulesAbove l ∨ (r = ⟨dir, f⟩ ∧ dir <+: l ∧ l ≠ dir) := by
  by_cases own : r.base = dir
  · have notBefore : r ∉ w.rulesAbove l := by
      rw [← filter_rulesAbove_withIgnoreFile executable free parsed]
      simp [own]
    rw [mem_rulesAbove, own, or_iff_right notBefore]
    have file : (w.withIgnoreFile dir content executable).ignoreFile? dir = some r.file ↔
        r = ⟨dir, f⟩ := by
      have at_dir : r ∈ (w.withIgnoreFile dir content executable).rulesAt dir ↔ r = ⟨dir, f⟩ := by
        rw [rulesAt_withIgnoreFile_self parsed, List.mem_singleton]
      rw [← at_dir, mem_rulesAt, and_iff_right own]
    rw [file]
    tauto
  · rw [← filter_rulesAbove_withIgnoreFile executable free parsed, List.mem_filter]
    have other : r ≠ ⟨dir, f⟩ := fun same => own (congrArg LocalRules.base same)
    simp [own, other]

theorem ignored_withIgnoreFile_iff :
    (w.withIgnoreFile dir content executable).Ignored l ↔
      w.Ignored l ∨ (dir <+: l ∧ l ≠ dir ∧ (LocalRules.mk dir f).Ignores l) := by
  rw [← exists_mem_rulesAbove_iff, ← exists_mem_rulesAbove_iff]
  simp only [mem_rulesAbove_withIgnoreFile free parsed]
  constructor
  · rintro ⟨r, before | ⟨rfl, below, different⟩, ignores⟩
    · exact .inl ⟨r, before, ignores⟩
    · exact .inr ⟨below, different, ignores⟩
  · rintro (⟨r, before, ignores⟩ | ⟨below, different, ignores⟩)
    · exact ⟨r, .inl before, ignores⟩
    · exact ⟨_, .inr ⟨rfl, below, different⟩, ignores⟩

omit parsed in
theorem isDir_withIgnoreFile_iff :
    (w.withIgnoreFile dir content executable).get? l = some .dir ↔ w.get? l = some .dir :=
  (sameWays_put_new free).dirs _

theorem entered_withIgnoreFile_iff :
    (w.withIgnoreFile dir content executable).Entered l ↔
      w.Entered l ∧ (dir <+: l → l ≠ dir → ¬ (LocalRules.mk dir f).Ignores l) := by
  constructor
  · rintro ⟨isDir, name, notSkipped, notIgnored⟩
    rw [ignored_withIgnoreFile_iff free parsed, not_or] at notIgnored
    refine ⟨⟨(isDir_withIgnoreFile_iff free).mp isDir, name, notSkipped, notIgnored.1⟩, ?_⟩
    exact fun below different ignores => notIgnored.2 ⟨below, different, ignores⟩
  · rintro ⟨⟨isDir, name, notSkipped, notIgnored⟩, spares⟩
    refine ⟨(isDir_withIgnoreFile_iff free).mpr isDir, name, notSkipped, ?_⟩
    rw [ignored_withIgnoreFile_iff free parsed, not_or]
    exact ⟨notIgnored, fun ⟨below, different, ignores⟩ => spares below different ignores⟩

theorem taken_withIgnoreFile_iff :
    (w.withIgnoreFile dir content executable).Taken l ↔
      w.Taken l ∧ (dir <+: l → l ≠ dir → ¬ (LocalRules.mk dir f).Ignores l) := by
  by_cases own : l = dir ++ [".gitignore"]
  · have suffix : (Path.ofLocation l).suffix ≠ sourceSuffix := own ▸ suffix_ignoreFile dir
    exact iff_of_false (fun taken => suffix taken.suffix) fun taken => suffix taken.1.suffix
  · have same : (w.withIgnoreFile dir content executable).get? l = w.get? l :=
      get?_withIgnoreFile_of_ne own
    constructor
    · rintro ⟨isFile, suffix, notIgnored⟩
      rw [ignored_withIgnoreFile_iff free parsed, not_or] at notIgnored
      refine ⟨⟨same ▸ isFile, suffix, notIgnored.1⟩, ?_⟩
      exact fun below different ignores => notIgnored.2 ⟨below, different, ignores⟩
    · rintro ⟨⟨isFile, suffix, notIgnored⟩, spares⟩
      refine ⟨same ▸ isFile, suffix, ?_⟩
      rw [ignored_withIgnoreFile_iff free parsed, not_or]
      exact ⟨notIgnored, fun ⟨below, different, ignores⟩ => spares below different ignores⟩

theorem isSource_withIgnoreFile_iff :
    (w.withIgnoreFile dir content executable).IsSource l ↔
      w.IsSource l ∧ (LocalRules.mk dir f).Spares l := by
  constructor
  · rintro ⟨taken, way⟩
    rw [taken_withIgnoreFile_iff free parsed] at taken
    have before {above : Location} (nonempty : above ≠ []) (isAbove : above <+: l)
        (different : above ≠ l) := (entered_withIgnoreFile_iff free parsed).mp
          (way above nonempty isAbove different)
    refine ⟨⟨taken.1, fun above nonempty isAbove different =>
      (before nonempty isAbove different).1⟩, ?_⟩
    intro level below different isAbove
    by_cases last : level = l
    · subst last
      exact taken.2 below different
    · refine (before ?_ isAbove last).2 below different
      rintro rfl
      exact different (List.prefix_nil.mp below).symm
  · rintro ⟨⟨taken, way⟩, spares⟩
    constructor
    · rw [taken_withIgnoreFile_iff free parsed]
      exact ⟨taken, fun below different => spares l below different (List.prefix_refl l)⟩
    · intro above nonempty isAbove different
      rw [entered_withIgnoreFile_iff free parsed]
      exact ⟨way above nonempty isAbove different, fun below own => spares above below own isAbove⟩

theorem visited_of_withIgnoreFile
    (visited : (w.withIgnoreFile dir content executable).Visited levels base l) :
    w.Visited levels base l := by
  induction visited with
  | here levels base => exact .here levels base
  | deeper entered _ ih => exact .deeper ((entered_withIgnoreFile_iff free parsed).mp entered).1 ih

theorem Legible.withIgnoreFile (legible : w.Legible base) (readable : f.Readable) :
    (w.withIgnoreFile dir content executable).Legible base := by
  have answered {l : Location} (before : ∃ answer, isIgnored l (w.rulesAbove l) = .ok answer) :
      ∃ answer, isIgnored l ((w.withIgnoreFile dir content executable).rulesAbove l) =
        .ok answer := by
    apply isIgnored_of_filter (p := fun r => r.base ≠ dir)
    · intro r member own
      rw [mem_rulesAbove_withIgnoreFile free parsed] at member
      rcases member with before | ⟨rfl, -⟩
      · rw [← filter_rulesAbove_withIgnoreFile executable free parsed] at before
        rw [(List.mem_filter.mp before).2] at own
        cases own
      · exact readable
    · rwa [filter_rulesAbove_withIgnoreFile executable free parsed]
  constructor
  · by_cases own : base = dir
    · subst own
      refine ⟨[⟨base, f⟩], ?_⟩
      rw [localRules, get?_withIgnoreFile_self]
      exact bind_eq_ok_iff.mpr ⟨f, parsed, rfl⟩
    · rw [localRules_withIgnoreFile_of_ne own]
      exact legible.rules
  · intro name
    refine exists_enters_iff.mpr fun isDir named notSkipped => answered ?_
    exact exists_enters_iff.mp (legible.enters name) ((isDir_withIgnoreFile_iff free).mp isDir) named
      notSkipped
  · intro name
    refine exists_takes_iff.mpr fun isFile suffix => answered ?_
    refine exists_takes_iff.mp (legible.takes name) ?_ suffix
    by_cases own : base ++ [name] = dir ++ [".gitignore"]
    · exact absurd (own ▸ suffix) (suffix_ignoreFile dir)
    · rwa [get?_withIgnoreFile_of_ne own] at isFile

omit parsed in
theorem Lists.withIgnoreFile (lists : w.Lists list) (isDir : w.get? dir = some .dir)
    (listing : ∀ l, (listAfter l).Perm ((w.withIgnoreFile dir content executable).tree.children l)) :
    (w.withIgnoreFile dir content executable).Lists listAfter := by
  refine ⟨lists.proper.put free ?_, listing⟩
  rw [← List.append_assoc]
  exact List.forall_mem_append.mpr ⟨lists.proper.isName isDir, List.forall_mem_singleton.mpr (by decide)⟩

theorem sources_withIgnoreFile {includes excludes : List String} {files : List Location}
    (lists : w.Lists list)
    (listsAfter : (w.withIgnoreFile dir content executable).Lists listAfter)
    (scanned : w.sources list includes excludes = .ok files) :
    (f.Readable → ∃ left,
      (w.withIgnoreFile dir content executable).sources listAfter includes excludes = .ok left) ∧
    ∀ left,
      (w.withIgnoreFile dir content executable).sources listAfter includes excludes = .ok left →
        left = files.filter fun file => (LocalRules.mk dir f).Spares (file.drop w.root.length) := by
  obtain ⟨legible, ordered, exactly⟩ := lists.sources_found scanned
  constructor
  · intro readable
    obtain ⟨left, scannedAfter, -⟩ := listsAfter.sources_exact (fun dir visited =>
      (legible dir (visited_of_withIgnoreFile free parsed visited).of_root).withIgnoreFile free parsed
        readable) includes excludes
    exact ⟨left, scannedAfter⟩
  · intro left scannedAfter
    obtain ⟨-, orderedAfter, exactlyAfter⟩ := listsAfter.sources_found scannedAfter
    apply eq_of_increasing orderedAfter (ordered.filter _)
    intro file
    rw [List.mem_filter, decide_eq_true_iff, exactly, exactlyAfter]
    constructor
    · rintro ⟨l, rfl, source, selected⟩
      obtain ⟨source, spares⟩ := (isSource_withIgnoreFile_iff free parsed).mp source
      refine ⟨⟨l, rfl, source, selected⟩, ?_⟩
      rw [withIgnoreFile_root, List.drop_left]
      exact spares
    · rintro ⟨⟨l, rfl, source, selected⟩, spares⟩
      rw [List.drop_left] at spares
      exact ⟨l, rfl, (isSource_withIgnoreFile_iff free parsed).mpr ⟨source, spares⟩, selected⟩

end NewFile

end Walk

namespace Host

def withIgnoreFile (h : Host) (top dir : Location) (content : Text.Utf8.Bytes) (executable : Bool) :
    Host :=
  h.withTree (h.tree.put ((h.walk top []).place ++ (dir ++ [".gitignore"])) (.file content executable))

variable {h : Host} {top dir : Location} {content : Text.Utf8.Bytes} {executable : Bool}

theorem walk_withIgnoreFile (free : (h.walk top []).get? (dir ++ [".gitignore"]) = none)
    (skip : List Location) :
    (h.withIgnoreFile top dir content executable).walk top skip =
      (h.walk top skip).withIgnoreFile dir content executable := by
  have missing : h.tree.get? ((h.walk top []).place ++ (dir ++ [".gitignore"])) = none := free
  have place : ((h.withIgnoreFile top dir content executable).walk top skip).place =
      (h.walk top skip).place := walk_place_of_sameWays (sameWays_put_new missing) top skip
  have parts : (h.withIgnoreFile top dir content executable).walk top skip =
      ⟨(h.withIgnoreFile top dir content executable).tree, top,
        ((h.withIgnoreFile top dir content executable).walk top skip).place, skip⟩ := rfl
  rw [parts, place]
  rfl

theorem resolve_withIgnoreFile (free : (h.walk top []).get? (dir ++ [".gitignore"]) = none) {p : Path}
    {there : Location} (resolved : h.resolve p = .ok there) :
    (h.withIgnoreFile top dir content executable).resolve p = .ok there :=
  resolve_put_new free resolved

/-- A new ignore file, in a directory of the workspace that had none, only takes source files away,
and only ones inside that directory: those of which it ignores a level. The scan still comes to an end
if the rules can be read. -/
theorem sourcesListed_withIgnoreFile {list listAfter : Location → List String} {root : Path}
    {skip : List Path} {includes excludes : List String} {files : List Location} {f : IgnoreFile}
    (proper : h.tree.Proper) (listing : ∀ l, (list l).Perm (h.tree.children l))
    (listingAfter : ∀ l, (listAfter l).Perm
      ((h.withIgnoreFile top dir content executable).tree.children l))
    (resolved : h.resolve root = .ok top) (isDir : (h.walk top []).get? dir = some .dir)
    (free : (h.walk top []).get? (dir ++ [".gitignore"]) = none)
    (parsed : IgnoreFile.ofBytes content = .ok f)
    (scanned : h.sourcesListed list root skip includes excludes = .ok files) :
    (f.Readable → ∃ left, (h.withIgnoreFile top dir content executable).sourcesListed listAfter root
      skip includes excludes = .ok left) ∧
    ∀ left, (h.withIgnoreFile top dir content executable).sourcesListed listAfter root skip includes
        excludes = .ok left →
      left.Sublist files ∧
      (∀ file ∈ files, file ∉ left → top ++ dir <+: file ∧ file ≠ top ++ dir) ∧
      left.filter (fun file => ¬ top ++ dir <+: file) =
        files.filter (fun file => ¬ top ++ dir <+: file) ∧
      left = files.filter fun file => (LocalRules.mk dir f).Spares (file.drop top.length) := by
  obtain ⟨other, skipped, resolvedTop, resolvedSkip, scanned⟩ := sourcesListed_eq_ok_iff.mp scanned
  obtain rfl : top = other := Except.ok.inj (resolved.symm.trans resolvedTop)
  have scansAfter {left : List Location} :
      (h.withIgnoreFile top dir content executable).sourcesListed listAfter root skip includes
          excludes = .ok left ↔
        ((h.walk top skipped).withIgnoreFile dir content executable).sources listAfter includes
          excludes = .ok left := by
    rw [sourcesListed_iff_of_resolve (resolve_withIgnoreFile free resolved)
      (mapM_eq_ok_of_forall (fun _ _ => resolve_withIgnoreFile free) resolvedSkip),
      walk_withIgnoreFile free]
  have isDir : (h.walk top skipped).get? dir = some .dir := isDir
  have free : (h.walk top skipped).get? (dir ++ [".gitignore"]) = none := free
  have lists : (h.walk top skipped).Lists list := ⟨proper, listing⟩
  have listsAfter : ((h.walk top skipped).withIgnoreFile dir content executable).Lists listAfter :=
    lists.withIgnoreFile free isDir listingAfter
  obtain ⟨ends, comes⟩ := Walk.sources_withIgnoreFile free parsed lists listsAfter scanned
  refine ⟨fun readable => (ends readable).imp fun left => scansAfter.mpr, ?_⟩
  intro left scannedAfter
  obtain rfl : left = files.filter fun file =>
      (LocalRules.mk dir f).Spares (file.drop top.length) := comes left (scansAfter.mp scannedAfter)
  have inside : ∀ file ∈ files, ¬ (LocalRules.mk dir f).Spares (file.drop top.length) →
      top ++ dir <+: file ∧ file ≠ top ++ dir := by
    intro file member ignored
    obtain ⟨-, -, exactly⟩ := lists.sources_found scanned
    obtain ⟨l, same, -⟩ := (exactly file).mp member
    exact LocalRules.below_root_of_not_spares ⟨l, same.symm⟩ ignored
  refine ⟨List.filter_sublist, ?_, ?_, rfl⟩
  · intro file member gone
    apply inside file member
    exact fun spares => gone (List.mem_filter.mpr ⟨member, decide_eq_true spares⟩)
  · rw [List.filter_filter]
    apply List.filter_congr
    intro file member
    by_cases below : top ++ dir <+: file
    · simp [below]
    · have spares : (LocalRules.mk dir f).Spares (file.drop top.length) := by
        by_contra ignored
        exact below (inside file member ignored).1
      simp [below, spares]

end Host

namespace ignoring

def negating : Text.Utf8.Bytes := Text.Utf8.encode "*.vb\n!d.vb".toList

theorem ofBytes_negating : IgnoreFile.ofBytes negating =
    .ok ⟨[⟨false, "(^|[/])[^/]*\\.vb$".toList⟩, ⟨true, "(^|[/])d\\.vb$".toList⟩]⟩ := by
  decide +kernel

theorem negating_takes_away :
    ∃ files left, ignoring.sources ⟨.top, ["ws"]⟩ [] [] [] = .ok files ∧
      (ignoring.withIgnoreFile ["ws"] ["a"] negating false).sources ⟨.top, ["ws"]⟩ [] [] [] =
        .ok left ∧
      left.Sublist files ∧ ["ws", "a", "c.vb"] ∈ files ∧ ["ws", "a", "c.vb"] ∉ left := by
  obtain ⟨files, scanned, exactly⟩ := Host.exists_sources (h := ignoring) (by decide +kernel)
    resolve_workspace (show List.mapM ignoring.resolve [] = .ok [] from rfl) (walk_eq ▸ parses) [] []
  have source : ["ws", "a", "c.vb"] ∈ files := by
    rw [exactly, walk_eq]
    refine ⟨["a", "c.vb"], rfl, by decide +kernel, ?_⟩
    simp [Glob.Selected]
  let after := ignoring.withIgnoreFile ["ws"] ["a"] negating false
  obtain ⟨ends, comes⟩ := Host.sourcesListed_withIgnoreFile (by decide +kernel) (fun _ => .refl _)
    (fun l => List.Perm.refl (after.tree.children l)) resolve_workspace
    (by rw [walk_eq]; decide) (by rw [walk_eq]; decide) ofBytes_negating scanned
  obtain ⟨left, scannedAfter⟩ := ends (by unfold IgnoreFile.Readable; decide +kernel)
  obtain ⟨part, -, -, exact_left⟩ := comes left scannedAfter
  refine ⟨files, left, scanned, scannedAfter, part, source, ?_⟩
  rw [exact_left, List.mem_filter]
  rintro ⟨-, spares⟩
  exact absurd spares (by decide +kernel)

end ignoring
end VibeLens
