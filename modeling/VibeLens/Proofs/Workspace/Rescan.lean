import VibeLens.Proofs.Workspace.Footprint

set_option autoImplicit false

/-!
A workspace after it was indexed. Look-ups that succeeded go on to lead to the same places, the index is
neither a source file nor an ignore file, and its directory was already there when the workspace was
scanned. So the directory is accepted again, the scan finds the same files, and the settings are read
again as they were, unless their file is a link that leads into what has been made.
-/

namespace VibeLens

open FileTree Text
open VibeLens.Path (IsName)

namespace FileTree

variable {t after : FileTree} {cwd here there l : Location} {names : List String} {name : String}

/-- No link has this name in the directory that a location leads to. -/
def NoLinkIn (t : FileTree) (dir : Location) (name : String) : Prop :=
  ∀ there, t.Leads [] dir there → ∀ target, t.get? (there ++ [name]) ≠ some (.link target)

theorem SameLinks.noLinkIn (same : SameLinks t after) (noLink : t.NoLinkIn l name) :
    after.NoLinkIn l name :=
  fun there way target link => noLink there (same.leads way) target ((same _ target).1 link)

theorem SameLinks.linkFree (same : SameLinks t after) (free : t.LinkFree l) : after.LinkFree l :=
  fun above isAbove target link => free above isAbove target ((same above target).1 link)

theorem noLinkIn_of_forall_keys (none : ∀ key ∈ t.nodes.keys, key.getLast? ≠ some name) :
    t.NoLinkIn l name := by
  intro there _ target link
  have member : there ++ [name] ∈ t.nodes.keys := mem_keys_of_isSome (by simp) (by simp [link])
  exact none _ member List.getLast?_concat

theorem NoLinkIn.exists_parent (noLink : t.NoLinkIn names name) (isName : IsName name)
    (way : t.Leads [] (names ++ [name]) l) : ∃ parent, t.Leads [] names parent ∧ l = parent ++ [name] := by
  obtain ⟨parent, upper, last⟩ := Leads.append_iff.mp way
  have plain : Path.isPlain name = true :=
    isPlain_iff.mpr fun blank => blank.elim isName.nonempty isName.notHere
  rw [Leads.cons_iff, follows_literal plain isName.notAbove (noLink parent upper)] at last
  exact ⟨parent, upper, last.unique (.nil _)⟩

end FileTree

theorem isName_fileName : IsName Settings.fileName := by decide

theorem suffix_index (there : Location) :
    (Path.ofLocation (there ++ [indexName])).suffix ≠ sourceSuffix := by
  rw [Walk.suffix_append (List.cons_ne_nil _ _)]
  decide

theorem ne_index_of_suffix {front l there : Location}
    (suffix : (Path.ofLocation l).suffix = sourceSuffix) : front ++ l ≠ there ++ [indexName] := by
  intro same
  by_cases isTop : l = []
  · rw [isTop] at suffix
    exact absurd suffix (by decide)
  · apply suffix_index there
    rw [← same, Walk.suffix_append isTop, suffix]

namespace Host

variable {h after : Host} {root : Path} {settings : Option Settings} {plan : IndexPlan}
  {summary : IndexSummary} {made tree : FileTree} {top dir there index : Location} {skip : List Location}

/-! ### First runs -/

theorem index_eq_error {outDir : Option Path} {e : Failure}
    (fails : h.indexPlan root outDir settings = .error e) : h.index root outDir settings = .error e := by
  simp only [Host.index, indexing, fails]

theorem outputDir_default (grounded : h.Grounded) (isDir : h.tree.get? top = some .dir)
    (noLink : ∀ target, h.tree.get? (top ++ [".vibe-outline"]) ≠ some (.link target))
    (noZero : hasZero (Location.text top) = false)
    (noZeroDir : hasZero (Location.text (top ++ [".vibe-outline"])) = false) :
    h.outputDir (Path.ofLocation top) ".vibe-outline" = .ok (top ++ [".vibe-outline"]) := by
  have path : Path.ofString ".vibe-outline" = ⟨.here, [".vibe-outline"]⟩ := by
    simp [Path.ofString, Path.anchorOf, Path.isPlain, Path.pieces,
      List.splitOn_cons_eq_if_modifyHead]
  have names : ∀ name ∈ top ++ [".vibe-outline"], IsName name :=
    List.forall_mem_append.mpr ⟨grounded.tree.isName isDir, List.forall_mem_singleton.mpr (by decide)⟩
  have free : h.tree.LinkFree (top ++ [".vibe-outline"]) :=
    (grounded.tree.linkFree isDir Node.dir_ne_link).concat noLink
  rw [outputDir_eq_ok_iff, path]
  exact ⟨by decide, by decide, rfl, top, grounded.tree.resolve_ofLocation isDir Node.dir_ne_link noZero,
    List.prefix_append _ _, free.resolve_ofLocation names noZeroDir⟩

theorem index_of_no_source (parent : Location) (name : String) (grounded : h.Grounded)
    (planned : h.indexPlan root none settings = .ok plan)
    (dir_eq : plan.dir = Path.ofLocation (parent ++ [name])) (inDir : h.tree.get? parent = some .dir)
    (isName : IsName name) (free : h.tree.get? (parent ++ [name]) = none)
    (resolved : (h.withTree (h.tree.put (parent ++ [name]) .dir)).resolve (Path.ofLocation plan.root) =
      .ok top)
    (clean : ∀ key ∈ (h.tree.put (parent ++ [name]) .dir).nodes.keys,
      key.getLast? ≠ some ".gitignore" ∧ (Path.ofLocation key).suffix ≠ sourceSuffix) :
    h.index root none settings =
      .ok (h.withTree ((h.tree.put (parent ++ [name]) .dir).put (parent ++ [name] ++ [indexName])
        (.file [] false)), ⟨0, 0, Location.text (parent ++ [name] ++ [indexName])⟩) := by
  have noZero : hasZero (Location.text (parent ++ [name])) = false := by
    have noZero := (indexPlan_eq_ok_iff.mp planned).2.2.2
    rwa [dir_eq] at noZero
  have making : h.tree.ensureDirs h.cwd plan.dir.anchor plan.dir.names.reverse =
      .ok (h.tree.put (parent ++ [name]) .dir) :=
    dir_eq ▸ grounded.tree.ensureDirs_new inDir isName free
  have groundedMade := grounded.ensureDirs making
  have isDir : (h.tree.put (parent ++ [name]) .dir).get? (parent ++ [name]) = some .dir :=
    get?_put_self (by simp)
  have found : (h.withTree (h.tree.put (parent ++ [name]) .dir)).outlineRecords plan = .ok [] :=
    outlineRecords_of_no_source groundedMade.tree.toProper resolved
      (dir_eq ▸ groundedMade.tree.resolve_ofLocation isDir Node.dir_ne_link noZero) clean
  have missing : (h.tree.put (parent ++ [name]) .dir).get? (parent ++ [name] ++ [indexName]) = none := by
    rw [get?_put_of_ne (by simp)]
    exact grounded.tree.free_child free indexName
  have named : artifact plan = Location.text (parent ++ [name] ++ [indexName]) := by
    rw [artifact, dir_eq]
    rfl
  have written : (h.tree.put (parent ++ [name]) .dir).write h.cwd (artifact plan)
      (Utf8.encode (OutlineRecord.text [])) =
        .ok ((h.tree.put (parent ++ [name]) .dir).put (parent ++ [name] ++ [indexName])
          (.file [] false)) :=
    named ▸ groundedMade.tree.write_new isDir isName_indexName missing []
  have run := writeIndex_eq_ok_iff.mpr
    ⟨[], _, found, written, List.forall_mem_nil _, rfl, rfl⟩
  rw [named] at run
  exact index_eq_ok_iff.mpr ⟨plan, _, planned, making, run⟩

/-! ### The scan after an index was written -/

section Rescan

variable {content : Utf8.Bytes} {executable : Bool}
  (same : SameWays h.tree (h.tree.put (there ++ [indexName]) (.file content executable)))

include same

theorem alike_of_index : Walk.Alike (h.walk top skip)
    ((h.withTree (h.tree.put (there ++ [indexName]) (.file content executable))).walk top skip) := by
  have place := walk_place_of_sameWays same top skip
  have get?_eq (l : Location) : ((h.withTree (h.tree.put (there ++ [indexName])
      (.file content executable))).walk top skip).get? l =
        (h.tree.put (there ++ [indexName]) (.file content executable)).get?
          ((h.walk top skip).place ++ l) := by rw [Walk.get?, place]; rfl
  refine ⟨rfl, rfl, fun l => ?_, fun base => ?_, fun l suffix => ?_⟩
  · rw [get?_eq, same.dirs]
    rfl
  · rw [get?_eq, get?_put_of_ne]
    · rfl
    · rw [← List.append_assoc]
      exact fun equal => absurd (List.append_inj_right' equal rfl) (by decide)
  · rw [get?_eq, get?_put_of_ne (ne_index_of_suffix suffix)]
    rfl

theorem outlineRecords_of_index {records : List OutlineRecord} (grounded : h.Grounded)
    (groundedAfter : (h.tree.put (there ++ [indexName]) (.file content executable)).Grounded)
    (grows : Grows h.tree (h.tree.put (there ++ [indexName]) (.file content executable)))
    (names : ∀ name ∈ plan.root, IsName name) (found : h.outlineRecords plan = .ok records) :
    (h.withTree (h.tree.put (there ++ [indexName]) (.file content executable))).outlineRecords plan =
      .ok records := by
  obtain ⟨files, scanned, inside, rfl⟩ := outlineRecords_eq_ok_iff.mp found
  obtain ⟨-, areFiles⟩ :=
    sources_found grounded.tree (grounded.tree.isName grounded.cwd) names scanned inside
  obtain ⟨top, skipped, resolved, resolvedSkip, walked⟩ := sourcesListed_eq_ok_iff.mp scanned
  have lists : (h.walk top skipped).Lists h.tree.children :=
    ⟨grounded.tree.toProper, fun _ => .refl _⟩
  refine outlineRecords_eq_ok_iff.mpr ⟨files, ?_, inside, ?_⟩
  · exact sourcesListed_eq_ok_iff.mpr ⟨top, skipped, same.resolve grows resolved,
      mapM_eq_ok_of_forall (fun _ _ => same.resolve grows) resolvedSkip,
      (alike_of_index same).sources_eq_ok lists ⟨groundedAfter.toProper, fun _ => .refl _⟩ walked⟩
  · apply List.filterMap_congr
    intro file member
    obtain ⟨bytes, mode, isFile⟩ := areFiles file member
    obtain ⟨l, rfl, source, -⟩ := ((lists.sources_found walked).2.2 file).mp member
    have kept := isFile
    rw [← get?_put_of_ne (ne_index_of_suffix source.taken.suffix)] at kept
    rw [outlineRecord?, grounded.tree.read_text isFile, outlineRecord?, withTree_tree,
      groundedAfter.read_text kept]

end Rescan

/-! ### What a run leaves -/

/-- What a run that succeeds leaves: a tree that has grown, in which the directory for the index is there
and no files are other ones but the index. -/
structure Indexed (h : Host) (dir : Location) (tree : FileTree) (index : Location) : Prop where
  grows : Grows h.tree tree
  isDir : tree.isDir h.cwd (Location.text dir) = true
  kept : ∀ l content executable, l ≠ index →
    (tree.get? l = some (.file content executable) ↔ h.tree.get? l = some (.file content executable))
  written : ∃ content executable, tree.get? index = some (.file content executable)
  place : ∃ there, h.tree.Leads [] dir there ∧ index = there ++ [indexName]

theorem indexed_of_write {content : Utf8.Bytes} (dirNames : ∀ name ∈ dir, IsName name)
    (noZero : hasZero (Location.text dir) = false)
    (making : h.tree.ensureDirs h.cwd .top dir.reverse = .ok made)
    (written : made.write h.cwd (Location.text (dir ++ [indexName])) content = .ok tree)
    (noLink : h.tree.NoLinkIn dir indexName) :
    ∃ there executable, h.Indexed dir tree (there ++ [indexName]) ∧
      tree = made.put (there ++ [indexName]) (.file content executable) ∧
      made.get? (there ++ [indexName]) ≠ some .dir ∧
      ∀ target, made.get? (there ++ [indexName]) ≠ some (.link target) := by
  have names : ∀ name ∈ dir ++ [indexName], IsName name :=
    List.forall_mem_append.mpr ⟨dirNames, List.forall_mem_singleton.mpr isName_indexName⟩
  have growsMade : Grows h.tree made := .of_ensureDirs making
  have growsTree : Grows made tree := .of_write written
  have isDir : made.isDir h.cwd (Location.text dir) = true := by
    have new := isDir_of_ensureDirs (by rwa [List.reverse_reverse]) making
    rwa [List.reverse_reverse] at new
  obtain ⟨place, executable, located, same, notTop, noDir, notLink⟩ := exists_place_of_write written
  obtain ⟨there, way, rfl⟩ := (growsMade.links.noLinkIn noLink).exists_parent isName_indexName
    (leads_of_locate names located)
  have isFile : tree.get? (there ++ [indexName]) = some (.file content executable) :=
    same ▸ get?_put_self notTop
  refine ⟨there, executable, ⟨growsMade.trans growsTree, growsTree.isDir isDir, ?_,
    ⟨content, executable, isFile⟩, there, growsMade.links.leads way, rfl⟩, same, noDir, notLink⟩
  intro l content executable different
  rw [same, get?_put_of_ne different]
  rcases MakesAlong.of_ensureDirs dirNames making l with equal | ⟨missing, isDir, -⟩
  · rw [equal]
  · simp [missing, isDir]

theorem Indexed.outputDir_eq {value : String} (indexed : h.Indexed dir tree index)
    (names : ∀ name ∈ dir, IsName name) (accepted : h.outputDir root value = .ok dir) :
    (h.withTree tree).outputDir root value = .ok dir := by
  obtain ⟨nonempty, noTilde, relative, top, resolved, begins, resolvedDir⟩ :=
    outputDir_eq_ok_iff.mp accepted
  have again {above : Location} {p : Path} (isAbove : above <+: dir) (before : h.resolve p = .ok above) :
      (h.withTree tree).resolve p = .ok above :=
    indexed.grows.resolve before (find_ne_tooManyLinks_of_isDir names indexed.isDir isAbove)
  exact outputDir_eq_ok_iff.mpr ⟨nonempty, noTilde, relative, top, again begins resolved, begins,
    again (List.prefix_refl dir) resolvedDir⟩

/-! ### The settings after a run -/

theorem settings_eq_default
    (missing : ¬ h.tree.isFile h.cwd (Location.text (top ++ [Settings.fileName])) = true) :
    h.settings (Path.ofLocation top) = .ok .default := by
  rw [settings]
  exact if_neg missing

theorem settings_eq_of_find
    (same : ∀ l content executable,
      tree.find h.cwd (Location.text (top ++ [Settings.fileName])) = .ok (l, .file content executable) ↔
        h.tree.find h.cwd (Location.text (top ++ [Settings.fileName])) =
          .ok (l, .file content executable)) :
    (h.withTree tree).settings (Path.ofLocation top) = h.settings (Path.ofLocation top) := by
  have text : ((Path.ofLocation top).child Settings.fileName).toString =
      Location.text (top ++ [Settings.fileName]) := rfl
  have sameFile : tree.isFile h.cwd (Location.text (top ++ [Settings.fileName])) = true ↔
      h.tree.isFile h.cwd (Location.text (top ++ [Settings.fileName])) = true := by
    simp only [isFile_iff, same]
  by_cases isFile : h.tree.isFile h.cwd (Location.text (top ++ [Settings.fileName])) = true
  · obtain ⟨-, l, content, executable, found⟩ := isFile_iff.mp isFile
    unfold settings
    simp only [text, withTree_tree, withTree_cwd, withTree_wording]
    rw [if_pos isFile, if_pos (sameFile.mpr isFile)]
    simp only [FileTree.read, found, (same l content executable).mpr found]
  · rw [settings_eq_default isFile]
    exact settings_eq_default (mt sameFile.mp isFile)

theorem Indexed.isFile {text : String} (indexed : h.Indexed dir tree index)
    (isFile : h.tree.isFile h.cwd text = true) : tree.isFile h.cwd text = true := by
  obtain ⟨noZero, l, _, _, found⟩ := isFile_iff.mp isFile
  obtain ⟨located, before⟩ := find_eq_ok_iff.mp found
  have after : ∃ content executable, tree.get? l = some (.file content executable) := by
    by_cases isIndex : l = index
    · exact isIndex ▸ indexed.written
    · exact ⟨_, _, (indexed.kept l _ _ isIndex).mpr before⟩
  obtain ⟨content, executable, after⟩ := after
  exact isFile_iff.mpr ⟨noZero, l, content, executable,
    find_eq_ok_iff.mpr ⟨indexed.grows.locate located, after⟩⟩

theorem Grounded.locate_named {name : String} {node : Node} (grounded : h.Grounded)
    (names : ∀ name ∈ top, IsName name) (isName : IsName name) (noLink : h.tree.NoLinkIn top name)
    (stays : h.tree.LinkFree top ∨ ∃ found, h.tree.find h.cwd (Location.text top) = .ok found)
    (way : h.tree.Leads [] top there) (isThere : h.tree.get? (there ++ [name]) = some node) :
    h.tree.locate h.cwd true (Location.text (top ++ [name])) = .ok (there ++ [name]) := by
  have isDir : h.tree.get? there = some .dir := by
    simpa using grounded.tree.isDir_dropLast isThere (by simp)
  by_cases free : h.tree.LinkFree top
  · obtain rfl := way.unique (free.leads names)
    exact grounded.tree.locate_child isDir isName (noLink there way)
  · obtain ⟨⟨place, node⟩, found⟩ := stays.resolve_left free
    obtain ⟨located, -⟩ := find_eq_ok_iff.mp found
    obtain rfl : place = there := (leads_of_locate names located).unique way
    have notTop : top ≠ [] := by
      rintro rfl
      exact free linkFree_top
    have whole : ∀ other ∈ top ++ [name], IsName other :=
      List.forall_mem_append.mpr ⟨names, List.forall_mem_singleton.mpr isName⟩
    rw [locate_text _ _ _ notTop names] at located
    rw [locate_text _ _ _ (by simp) whole]
    exact walk_concat located isDir isName (noLink place way)

theorem Indexed.find_eq_iff {text : String} {place l : Location} {node : Node} {content : Utf8.Bytes}
    {executable : Bool} (indexed : h.Indexed dir tree index)
    (found : h.tree.find h.cwd text = .ok (place, node)) (notIndex : place ≠ index) :
    tree.find h.cwd text = .ok (l, .file content executable) ↔
      h.tree.find h.cwd text = .ok (l, .file content executable) := by
  obtain ⟨before, -⟩ := find_eq_ok_iff.mp found
  rw [find_eq_ok_iff, find_eq_ok_iff, before, indexed.grows.locate before]
  apply and_congr_right
  intro same
  obtain rfl : place = l := Except.ok.inj same
  exact indexed.kept place content executable notIndex

theorem Indexed.find_named_iff {name : String} {l : Location} {content : Utf8.Bytes} {executable : Bool}
    (indexed : h.Indexed dir tree index) (grounded : h.Grounded) (names : ∀ name ∈ top, IsName name)
    (isName : IsName name) (notIndex : name ≠ indexName) (noLink : h.tree.NoLinkIn top name)
    (stays : h.tree.LinkFree top ∨ ∃ found, h.tree.find h.cwd (Location.text top) = .ok found) :
    tree.find h.cwd (Location.text (top ++ [name])) = .ok (l, .file content executable) ↔
      h.tree.find h.cwd (Location.text (top ++ [name])) = .ok (l, .file content executable) := by
  have whole : ∀ other ∈ top ++ [name], IsName other :=
    List.forall_mem_append.mpr ⟨names, List.forall_mem_singleton.mpr isName⟩
  have apart {there : Location} : there ++ [name] ≠ index := by
    obtain ⟨place, -, rfl⟩ := indexed.place
    exact fun equal => notIndex (List.singleton_inj.mp (List.append_inj_right' equal rfl))
  rw [find_eq_ok_iff, find_eq_ok_iff]
  constructor
  · rintro ⟨located, isFile⟩
    obtain ⟨there, way, rfl⟩ := noLink.exists_parent isName
      (indexed.grows.links.leads (leads_of_locate whole located))
    have before := (indexed.kept _ content executable apart).mp isFile
    exact ⟨grounded.locate_named names isName noLink stays way before, before⟩
  · rintro ⟨located, isFile⟩
    obtain ⟨there, way, rfl⟩ := noLink.exists_parent isName (leads_of_locate whole located)
    exact ⟨indexed.grows.locate located, (indexed.kept _ content executable apart).mpr isFile⟩

/-- The settings are the same as before if their file is no link, in a root without a link in it or
that was there, or if it was there and is not the index, or if it is still missing. -/
theorem Indexed.settings_eq (indexed : h.Indexed dir tree index) (grounded : h.Grounded)
    (names : ∀ name ∈ top, IsName name)
    (rootStays : h.tree.LinkFree top ∨ ∃ found, h.tree.find h.cwd (Location.text top) = .ok found)
    (settingsStay : h.tree.NoLinkIn top Settings.fileName ∨
      (∃ l node, h.tree.find h.cwd (Location.text (top ++ [Settings.fileName])) = .ok (l, node) ∧
        l ≠ index) ∨
      tree.isFile h.cwd (Location.text (top ++ [Settings.fileName])) = false) :
    (h.withTree tree).settings (Path.ofLocation top) = h.settings (Path.ofLocation top) := by
  rcases settingsStay with noLink | ⟨place, node, found, notIndex⟩ | missing
  · exact settings_eq_of_find fun _ _ _ =>
      indexed.find_named_iff grounded names isName_fileName (by decide) noLink rootStays
  · exact settings_eq_of_find fun _ _ _ => indexed.find_eq_iff found notIndex
  · have missing := Bool.eq_false_iff.mp missing
    rw [settings_eq_default (mt indexed.isFile missing), settings_eq_default missing]

end Host
end VibeLens
