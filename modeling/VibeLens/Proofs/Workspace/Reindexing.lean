import VibeLens.Proofs.Settings.Reading
import VibeLens.Proofs.Workspace.Rescan

set_option autoImplicit false

/-!
Indexing once more. The first run changes the tree that it scans, since it makes directories and writes
a file into it. The second run finds what the first one found and writes what is there already. What can
be different is the root, if its path met a circle of links and what was left of it was not there, and
the settings, if they are a link that leads into what the first run has made.
-/

namespace VibeLens

open FileTree Text
open VibeLens.Path (IsName)

namespace Host

variable {h : Host} {root : Path} {settings : Option Settings} {plan : IndexPlan} {tree : FileTree}
  {dir : Location}

theorem Indexed.indexPlan_eq {index : Location} (indexed : h.Indexed dir tree index)
    (grounded : h.Grounded) (rootNames : ∀ name ∈ plan.root, IsName name)
    (planned : h.indexPlan root none settings = .ok plan)
    (rootStays : h.tree.LinkFree plan.root ∨
      ∃ found, h.tree.find h.cwd (Location.text plan.root) = .ok found)
    (settingsStay : settings = none → h.tree.NoLinkIn plan.root Settings.fileName ∨
      (∃ l node, h.tree.find h.cwd (Location.text (plan.root ++ [Settings.fileName])) = .ok (l, node) ∧
        l ≠ index) ∨
      tree.isFile h.cwd (Location.text (plan.root ++ [Settings.fileName])) = false)
    (dir_eq : plan.dir = Path.ofLocation dir) :
    (h.withTree tree).indexPlan root none settings = .ok plan := by
  obtain ⟨resolved, read, -, noZero⟩ := indexPlan_eq_ok_iff.mp planned
  obtain ⟨chosen, accepted, same⟩ := exists_outputDir_of_indexPlan planned
  obtain rfl : chosen = dir := congrArg Path.names (same.symm.trans dir_eq)
  have dirNames := isName_of_outputDir (grounded.tree.isName grounded.cwd) rootNames accepted
  have noCircle : tree.find h.cwd (Location.text plan.root) ≠ .error .tooManyLinks := by
    rcases rootStays with free | ⟨⟨l, node⟩, found⟩
    · exact (indexed.grows.links.linkFree free).find_ne_tooManyLinks rootNames
    · rw [ne_eq, find_eq_tooManyLinks_iff, indexed.grows.locate (find_eq_ok_iff.mp found).1]
      nofun
  refine indexPlan_eq_ok_iff.mpr ⟨indexed.grows.resolve resolved noCircle, ?_, ?_, noZero⟩
  · cases settings with
    | some s => exact read
    | none =>
      rw [indexSettings, indexed.settings_eq grounded rootNames rootStays (settingsStay rfl)]
      exact read
  · rw [indexDir, indexed.outputDir_eq dirNames accepted, dir_eq]
    rfl

/-- Indexing a second time gives the same summary and changes nothing, if the index was no link. The
root must not have met a circle of links, or the place it was resolved to must have been there. Settings
that are read from the workspace must not be a link, or the link must have led to something other than
the index, or must lead to no file even now. -/
theorem reindexing_changes_nothing (h after : Host) (root : String) (settings : Option Settings)
    (summary : IndexSummary) (plan : IndexPlan) (grounded : h.Grounded)
    (planned : h.indexPlan (Path.ofString root) none settings = .ok plan)
    (done : h.index (Path.ofString root) none settings = .ok (after, summary))
    (index : h.tree.NoLinkIn plan.dir.names indexName)
    (rootStays : (∃ there, h.tree.Leads (startOf h.cwd (Path.ofString root)) (Path.ofString root).names
        there) ∨
      ∃ found, h.tree.find h.cwd (Location.text plan.root) = .ok found)
    (settingsStay : settings = none → h.tree.NoLinkIn plan.root Settings.fileName ∨
      (∃ l node, h.tree.find h.cwd (Location.text (plan.root ++ [Settings.fileName])) = .ok (l, node) ∧
        ∀ there, h.tree.Leads [] plan.dir.names there → l ≠ there ++ [indexName]) ∨
      after.tree.isFile after.cwd (Location.text (plan.root ++ [Settings.fileName])) = false) :
    after.index (Path.ofString root) none settings = .ok (after, summary) := by
  obtain ⟨_, made, again, making, run⟩ := index_eq_ok_iff.mp done
  cases planned.symm.trans again
  obtain ⟨records, tree, found, written, whole, rfl, rfl⟩ := writeIndex_eq_ok_iff.mp run
  obtain ⟨dir, accepted, dir_eq⟩ := exists_outputDir_of_indexPlan planned
  obtain ⟨resolved, -, -, noZero⟩ := indexPlan_eq_ok_iff.mp planned
  have cwdNames := grounded.tree.isName grounded.cwd
  have rootNames : ∀ name ∈ plan.root, IsName name :=
    isName_of_resolve resolved cwdNames fun _ => Path.noSlash_of_mem_ofString
  have groundedMade : (h.withTree made).Grounded := grounded.ensureDirs making
  have groundedTree : tree.Grounded := (groundedMade.tree.of_write groundedMade.cwd written).1
  have making' := making
  rw [dir_eq] at making' index settingsStay
  have noZero' : hasZero (Location.text dir) = false := by
    rwa [dir_eq] at noZero
  have written' : made.write h.cwd (Location.text (dir ++ [indexName]))
      (Utf8.encode (OutlineRecord.text records)) = .ok tree := by
    rwa [artifact, dir_eq] at written
  obtain ⟨there, executable, indexed, same, noDir, noLink⟩ := indexed_of_write
    (isName_of_outputDir cwdNames rootNames accepted) noZero' making' written' index
  obtain ⟨place, way, isIndex⟩ := indexed.place
  have planAgain : (h.withTree tree).indexPlan (Path.ofString root) none settings = .ok plan := by
    refine indexed.indexPlan_eq grounded rootNames planned
      (rootStays.imp_left (grounded.linkFree_of_resolve resolved)) (fun unset => ?_) dir_eq
    rcases settingsStay unset with noLink | ⟨l, node, found, notIndex⟩ | missing
    · exact .inl noLink
    · exact .inr (.inl ⟨l, node, found, isIndex ▸ notIndex place way⟩)
    · exact .inr (.inr missing)
  have makingAgain : tree.ensureDirs h.cwd plan.dir.anchor plan.dir.names.reverse = .ok tree := by
    apply ensureDirs_of_isDir
    rw [List.reverse_reverse, dir_eq]
    exact indexed.isDir
  have foundAgain : (h.withTree tree).outlineRecords plan = .ok records := by
    have grows : Grows made tree := .of_write written
    subst same
    exact outlineRecords_of_index (h := h.withTree made) (sameWays_put_file noDir noLink) groundedMade
      groundedTree grows rootNames found
  exact index_eq_ok_iff.mpr ⟨plan, tree, planAgain, makingAgain, writeIndex_eq_ok_iff.mpr
    ⟨records, tree, foundAgain, write_of_write written, whole, rfl, rfl⟩⟩

end Host

namespace oneSource

def freshPlan : IndexPlan := ⟨["ws"], .default, Path.ofLocation ["ws", ".vibe-outline"]⟩

theorem indexPlan_fresh :
    (oneSource twoFunctions).indexPlan (Path.ofString "/ws") none none = .ok freshPlan := by
  have root : Path.ofString "/ws" = Path.ofLocation ["ws"] :=
    ofString_text (l := ["ws"]) (by decide)
  have located : (oneSource twoFunctions).tree.locate ["ws"] true (Location.text ["ws", "vibe.toml"]) =
      .ok ["ws", "vibe.toml"] :=
    (grounded twoFunctions).tree.locate_child (l := ["ws"]) rfl (by decide)
      (by simp [oneSource, FileTree.get?, Table.get?])
  have missing : (oneSource twoFunctions).tree.get? ["ws", "vibe.toml"] = none := rfl
  have noFile : ¬ (oneSource twoFunctions).tree.isFile ["ws"] (Location.text ["ws", "vibe.toml"]) =
      true := by
    simp only [isFile_iff, find_eq_ok_iff, located, not_and, not_exists]
    rintro - _ _ _ ⟨rfl⟩
    simp [missing]
  have dir : (oneSource twoFunctions).outputDir (Path.ofLocation ["ws"]) ".vibe-outline" =
      .ok ["ws", ".vibe-outline"] :=
    Host.outputDir_default (grounded twoFunctions) rfl
      (by simp [oneSource, FileTree.get?, Table.get?]) (by decide) (by decide)
  have settings : (oneSource twoFunctions).settings (Path.ofLocation ["ws"]) = .ok .default :=
    Host.settings_eq_default noFile
  rw [root]
  refine Host.indexPlan_eq_ok_iff.mpr ⟨resolve_root twoFunctions, ?_, ?_, by decide⟩
  · simp only [Host.indexSettings, freshPlan, settings]
    rfl
  · simp only [Host.indexDir, freshPlan, Settings.default, dir]
    rfl

def made : FileTree := (oneSource twoFunctions).tree.put ["ws", ".vibe-outline"] .dir

theorem ensureDirs_fresh : (oneSource twoFunctions).tree.ensureDirs ["ws"] .top
    ["ws", ".vibe-outline"].reverse = .ok made :=
  (grounded twoFunctions).tree.ensureDirs_new (l := ["ws"]) rfl (by decide) rfl

theorem ready_fresh : ((oneSource twoFunctions).withTree made).Ready freshPlan := by
  have grounded := (grounded twoFunctions).ensureDirs ensureDirs_fresh
  have missing : made.get? ["ws", ".vibe-outline", "outline.jsonl"] = none := rfl
  exact
    { grounded
      names := by decide
      root := grounded.tree.resolve_ofLocation rfl Node.dir_ne_link (by decide)
      ignoring := ⟨["ws", ".vibe-outline"],
        grounded.tree.resolve_ofLocation rfl Node.dir_ne_link (by decide),
        Walk.parses_of_forall_keys (show ∀ key ∈ [["ws"], ["ws", "out"], ["ws", "a\nb.vb"],
          ["ws", ".vibe-outline"]], key.getLast? ≠ some ".gitignore" by decide)⟩
      opens := ⟨_, grounded.tree.write_new (l := ["ws", ".vibe-outline"]) rfl (by decide) missing []⟩ }

theorem eq_of_isFile_fresh {file : Location} {bytes : Utf8.Bytes} {executable : Bool}
    (isFile : made.get? file = some (.file bytes executable)) :
    file = ["ws", "a\nb.vb"] := by
  by_cases isDir : file = ["ws", ".vibe-outline"]
  · subst isDir
    cases isFile
  · rw [made, get?_put_of_ne isDir] at isFile
    exact eq_of_isFile twoFunctions isFile

theorem writable_fresh {records : List OutlineRecord}
    (found : ((oneSource twoFunctions).withTree made).outlineRecords freshPlan = .ok records) :
    ∀ r ∈ records, r.toJson.writable := by
  have names : ∀ name ∈ ["ws"], IsName name := by decide
  obtain ⟨files, scanned, inside, rfl⟩ := Host.outlineRecords_eq_ok_iff.mp found
  obtain ⟨-, areFiles⟩ := Host.sources_found ready_fresh.grounded.tree names names scanned inside
  intro r member
  obtain ⟨file, isSource, recorded⟩ := List.mem_filterMap.mp member
  obtain ⟨bytes, executable, isFile⟩ := areFiles file isSource
  obtain rfl := eq_of_isFile_fresh isFile
  have read : ((oneSource twoFunctions).withTree made).tree.read
      ((oneSource twoFunctions).withTree made).cwd (Location.text ["ws", "a\nb.vb"]) = .ok twoFunctions :=
    ready_fresh.grounded.tree.read_text rfl
  obtain rfl := Option.some.inj ((Host.outlineRecord?_eq read).symm.trans recorded)
  simp only [Host.recordOf, Host.contentOf, read]
  decide +kernel

/-- The first run makes the directory and the second one changes nothing. -/
theorem reindexing_new_directory :
    (oneSource twoFunctions).tree.get? ["ws", ".vibe-outline"] = none ∧
      ∃ after summary,
        (oneSource twoFunctions).index (Path.ofString "/ws") none none = .ok (after, summary) ∧
        after.index (Path.ofString "/ws") none none = .ok (after, summary) := by
  obtain ⟨files, -, -, found⟩ := ready_fresh.exists_records
  obtain ⟨after, summary, done, -⟩ :=
    (ready_fresh.index indexPlan_fresh ensureDirs_fresh found).1 (writable_fresh found)
  refine ⟨rfl, after, summary, done, ?_⟩
  refine Host.reindexing_changes_nothing _ after "/ws" none summary freshPlan (grounded twoFunctions)
    indexPlan_fresh done ?_ (.inr ?_) fun _ => .inl ?_
  · exact noLinkIn_of_forall_keys (show ∀ key ∈ [["ws"], ["ws", "out"], ["ws", "a\nb.vb"]],
      key.getLast? ≠ some indexName by decide)
  · exact ⟨_, (grounded twoFunctions).tree.find_text (l := ["ws"]) rfl Node.dir_ne_link⟩
  · exact noLinkIn_of_forall_keys (show ∀ key ∈ [["ws"], ["ws", "out"], ["ws", "a\nb.vb"]],
      key.getLast? ≠ some Settings.fileName by decide)

end oneSource

/-- A workspace whose settings are a link through the directory that the first index makes. -/
def redirected : Host where
  tree := ⟨[(["ws"], .dir), (["ws", "real.toml"], .file [120] false),
    (["ws", "vibe.toml"], .link ".vibe-outline/../real.toml")]⟩
  cwd := ["ws"]
  home := "/"
  users := []
  searchPath := ""
  utilities := []
  wording := namedFaults

namespace redirected

def plan : IndexPlan := ⟨["ws"], .default, Path.ofLocation ["ws", ".vibe-outline"]⟩

theorem grounded : redirected.Grounded where
  tree := .of_keys [["ws"], ["ws", "real.toml"], ["ws", "vibe.toml"]] rfl (by decide) (by decide)
    (by simp [redirected, FileTree.get?, Table.get?])
  cwd := rfl

theorem systemNames_target : systemNames ".vibe-outline/../real.toml" =
    [".vibe-outline", "..", "real.toml"] := by
  simp [systemNames, Path.pieces, List.splitOn_cons_eq_if_modifyHead]

theorem settings_eq : redirected.settings (Path.ofLocation ["ws"]) = .ok .default := by
  have located : redirected.tree.locate ["ws"] true (Location.text ["ws", "vibe.toml"]) =
      .error .noEntry := by
    rw [locate_text _ _ _ (by simp) (by decide)]
    simp [FileTree.walk, linkLimit, systemNames_target, redirected, FileTree.get?, Table.get?,
      isAbsoluteText]
  have noFile : ¬ redirected.tree.isFile ["ws"] (Location.text ["ws", "vibe.toml"]) = true := by
    simp [isFile_iff, find_eq_ok_iff, located]
  exact Host.settings_eq_default noFile

theorem indexPlan_eq : redirected.indexPlan (Path.ofString "/ws") none none = .ok plan := by
  have root : Path.ofString "/ws" = Path.ofLocation ["ws"] :=
    ofString_text (l := ["ws"]) (by decide)
  have resolved : redirected.resolve (Path.ofLocation ["ws"]) = .ok ["ws"] :=
    grounded.tree.resolve_ofLocation rfl Node.dir_ne_link (by decide)
  have dir : redirected.outputDir (Path.ofLocation ["ws"]) ".vibe-outline" =
      .ok ["ws", ".vibe-outline"] :=
    Host.outputDir_default grounded rfl (by simp [redirected, FileTree.get?, Table.get?]) (by decide)
      (by decide)
  rw [root]
  refine Host.indexPlan_eq_ok_iff.mpr ⟨resolved, ?_, ?_, by decide⟩
  · simp only [Host.indexSettings, plan, settings_eq]
    rfl
  · simp only [Host.indexDir, plan, Settings.default, dir]
    rfl

def indexed : Host := redirected.withTree ((redirected.tree.put ["ws", ".vibe-outline"] .dir).put
  ["ws", ".vibe-outline", "outline.jsonl"] (.file [] false))

theorem index_eq : redirected.index (Path.ofString "/ws") none none =
    .ok (indexed, ⟨0, 0, "/ws/.vibe-outline/outline.jsonl"⟩) := by
  have made : (redirected.withTree (redirected.tree.put ["ws", ".vibe-outline"] .dir)).tree.Grounded :=
    grounded.tree.put_free (.inr ⟨["ws"], ".vibe-outline", rfl, by decide, rfl⟩) rfl
  exact Host.index_of_no_source ["ws"] ".vibe-outline" grounded indexPlan_eq rfl rfl (by decide)
    rfl (made.resolve_ofLocation rfl Node.dir_ne_link (by decide))
    (show ∀ key ∈ [["ws"], ["ws", "real.toml"], ["ws", "vibe.toml"], ["ws", ".vibe-outline"]],
      key.getLast? ≠ some ".gitignore" ∧ (Path.ofLocation key).suffix ≠ sourceSuffix by decide)

theorem settings_indexed : indexed.settings (Path.ofLocation ["ws"]) =
    .error (.malformed "/ws/vibe.toml" (namedFaults.malformed ['x'])) := by
  have found : indexed.tree.find ["ws"] (Location.text ["ws", "vibe.toml"]) =
      .ok (["ws", "real.toml"], .file [120] false) := by
    rw [find_eq_ok_iff, locate_text _ _ _ (by simp) (by decide)]
    simp [FileTree.walk, linkLimit, systemNames_target, indexed, redirected, FileTree.get?, Table.get?,
      FileTree.put, Table.put, isAbsoluteText]
  have isFile : indexed.tree.isFile ["ws"] (Location.text ["ws", "vibe.toml"]) = true :=
    isFile_iff.mpr ⟨by decide, _, _, _, found⟩
  have read : indexed.tree.read ["ws"] (Location.text ["ws", "vibe.toml"]) = .ok [120] := by
    simp only [FileTree.read, found]
  have malformed : Settings.ofBytes namedFaults "/ws/vibe.toml" [120] =
      .error (.malformed "/ws/vibe.toml" (namedFaults.malformed ['x'])) := by decide +kernel
  rw [Host.settings]
  refine (if_pos isFile).trans ?_
  rw [show indexed.tree.read indexed.cwd ((Path.ofLocation ["ws"]).child Settings.fileName).toString =
    .ok [120] from read]
  exact malformed

theorem index_indexed : indexed.index (Path.ofString "/ws") none none =
    .error (.settings (.malformed "/ws/vibe.toml" (namedFaults.malformed ['x']))) := by
  have made : (redirected.tree.put ["ws", ".vibe-outline"] .dir).Grounded :=
    grounded.tree.put_free (.inr ⟨["ws"], ".vibe-outline", rfl, by decide, rfl⟩) rfl
  have groundedIndexed : indexed.tree.Grounded :=
    made.put_free (.inr ⟨["ws", ".vibe-outline"], "outline.jsonl", rfl, by decide, rfl⟩) rfl
  have resolved : indexed.resolve (Path.ofLocation ["ws"]) = .ok ["ws"] :=
    groundedIndexed.resolve_ofLocation rfl Node.dir_ne_link (by decide)
  have read : indexed.indexSettings ["ws"] none =
      .error (.settings (.malformed "/ws/vibe.toml" (namedFaults.malformed ['x']))) := by
    rw [Host.indexSettings, settings_indexed]
    rfl
  apply Host.index_eq_error
  rw [show Path.ofString "/ws" = Path.ofLocation ["ws"] from ofString_text (l := ["ws"]) (by decide),
    Host.indexPlan, Failure.ofPath_eq_ok_iff.mpr resolved, ok_bind, read]
  rfl

end redirected

/-- A workspace whose root is given past a link to itself. What is left then is a link through the
directory that the first index makes. -/
def circling : Host where
  tree := ⟨[(["ws"], .dir), (["ws", "loop"], .link "loop"), (["ws", "esc"], .link "x/../loop/../x")]⟩
  cwd := ["ws"]
  home := "/"
  users := []
  searchPath := ""
  utilities := []
  wording := .plain

namespace circling

def atRoot : Settings := { Settings.default with outputDir := "." }

def plan : IndexPlan := ⟨["ws", "esc"], atRoot, Path.ofLocation ["ws", "x"]⟩

theorem grounded : circling.Grounded where
  tree := .of_keys [["ws"], ["ws", "loop"], ["ws", "esc"]] rfl (by decide) (by decide)
    (by simp [circling, FileTree.get?, Table.get?])
  cwd := rfl

theorem paths : Path.ofString "loop/../esc" = ⟨.here, ["loop", "..", "esc"]⟩ ∧
    Path.ofString "." = ⟨.here, []⟩ := by
  simp [Path.ofString, Path.anchorOf, Path.isPlain, Path.pieces, List.splitOn_cons_eq_if_modifyHead]

theorem targets : Path.pieces "loop" = ["loop"] ∧
    Path.pieces "x/../loop/../x" = ["x", "..", "loop", "..", "x"] := by
  simp [Path.pieces, List.splitOn_cons_eq_if_modifyHead]

theorem systemNames_targets : systemNames "loop" = ["loop"] ∧
    systemNames "x/../loop/../x" = ["x", "..", "loop", "..", "x"] := by
  simp [systemNames, targets]

theorem canonical_root : circling.tree.canonical ["ws"] ⟨.here, ["loop", "..", "esc"]⟩ =
    ["ws", "esc"] := by
  simp [canonical, follow, Path.isAbsolute, Reached.here, Reached.location, Reached.down, circling,
    linkNesting, links, FileTree.get?, Table.get?, targets, isAbsoluteText, leaveOver, Path.collapse,
    Path.isPlain]

theorem canonical_left : circling.tree.canonical ["ws"] ⟨.top, ["ws", "esc"]⟩ = ["ws", "x"] := by
  simp [canonical, follow, Path.isAbsolute, Reached.top, Reached.location, Reached.down, Reached.up,
    circling, linkNesting, links, FileTree.get?, Table.get?, targets, isAbsoluteText, leaveOver,
    Path.collapse, Path.isPlain]

theorem resolve_root : circling.resolve (Path.ofString "loop/../esc") = .ok ["ws", "esc"] := by
  rw [paths.1]
  refine resolve_eq_ok_iff.mpr ⟨by decide, canonical_root, ?_⟩
  rw [ne_eq, find_eq_tooManyLinks_iff, locate_text _ _ _ (by simp) (by decide)]
  simp [FileTree.walk, linkLimit, systemNames_targets, circling, FileTree.get?, Table.get?,
    isAbsoluteText]

theorem indexPlan_eq :
    circling.indexPlan (Path.ofString "loop/../esc") none (some atRoot) = .ok plan := by
  have free : circling.tree.LinkFree (["ws"] ++ ["x"]) :=
    (grounded.tree.linkFree rfl Node.dir_ne_link).concat (by simp [circling, FileTree.get?, Table.get?])
  have left : circling.resolve (Path.ofLocation ["ws", "esc"]) = .ok ["ws", "x"] :=
    resolve_eq_ok_iff.mpr ⟨by decide, canonical_left, free.find_ne_tooManyLinks (by decide)⟩
  have dir : circling.outputDir (Path.ofLocation ["ws", "esc"]) "." = .ok ["ws", "x"] :=
    Host.outputDir_eq_ok_iff.mpr ⟨by decide, by decide, by simp [paths, Path.isAbsolute], ["ws", "x"],
      left, by decide, paths.2 ▸ free.resolve_ofLocation (by decide) (by decide)⟩
  refine Host.indexPlan_eq_ok_iff.mpr ⟨resolve_root, rfl, ?_, by decide⟩
  simp only [Host.indexDir, plan, atRoot, dir]
  rfl

def indexed : Host := circling.withTree ((circling.tree.put ["ws", "x"] .dir).put
  ["ws", "x", "outline.jsonl"] (.file [] false))

theorem grows_made : Grows circling.tree (circling.tree.put ["ws", "x"] .dir) :=
  grows_put (by simp [circling, FileTree.get?, Table.get?]) Node.dir_ne_link (fun _ => rfl)
    (List.cons_ne_nil _ _)

theorem index_eq : circling.index (Path.ofString "loop/../esc") none (some atRoot) =
    .ok (indexed, ⟨0, 0, "/ws/x/outline.jsonl"⟩) := by
  have made : (circling.tree.put ["ws", "x"] .dir).Grounded :=
    grounded.tree.put_free (.inr ⟨["ws"], "x", rfl, by decide, rfl⟩) rfl
  have left : (circling.withTree (circling.tree.put ["ws", "x"] .dir)).resolve
      (Path.ofLocation ["ws", "esc"]) = .ok ["ws", "x"] := by
    refine resolve_eq_ok_iff.mpr ⟨by decide, (grows_made.canonical _).trans canonical_left, ?_⟩
    exact (made.linkFree rfl Node.dir_ne_link).find_ne_tooManyLinks (by decide)
  exact Host.index_of_no_source ["ws"] "x" grounded indexPlan_eq rfl rfl (by decide) rfl
    left (show ∀ key ∈ [["ws"], ["ws", "loop"], ["ws", "esc"], ["ws", "x"]],
      key.getLast? ≠ some ".gitignore" ∧ (Path.ofLocation key).suffix ≠ sourceSuffix by decide)

theorem walk_loop (links : Nat) (rest : List String) :
    indexed.tree.walk true links ["ws"] ("loop" :: rest) = .error .tooManyLinks := by
  have link : indexed.tree.get? ["ws", "loop"] = some (.link "loop") := rfl
  have isDir : indexed.tree.get? ["ws"] = some .dir := rfl
  induction links with
  | zero =>
    rw [FileTree.walk, isDir]
    simp [link]
  | succ links ih =>
    rw [FileTree.walk, isDir]
    simpa [link, systemNames_targets, isAbsoluteText] using ih

theorem index_indexed : indexed.index (Path.ofString "loop/../esc") none (some atRoot) =
    .error (.path .linkLoop) := by
  have missing : (circling.tree.put ["ws", "x"] .dir).get? ["ws", "x", "outline.jsonl"] = none := rfl
  have grows : Grows circling.tree indexed.tree := grows_made.trans (grows_put (by simp [missing])
    (Node.file_ne_link _ _) (by simp [missing]) (List.cons_ne_nil _ _))
  have circle : indexed.tree.find ["ws"] (Location.text ["ws", "esc"]) = .error .tooManyLinks := by
    have isLink : indexed.tree.get? ["ws", "esc"] = some (.link "x/../loop/../x") := rfl
    have isDir : indexed.tree.get? ["ws"] = some .dir ∧ indexed.tree.get? ["ws", "x"] = some .dir :=
      ⟨rfl, rfl⟩
    rw [find_eq_tooManyLinks_iff, locate_text _ _ _ (by simp) (by decide)]
    simp [FileTree.walk, linkLimit, isLink, isDir, systemNames_targets, isAbsoluteText, walk_loop]
  have resolved : indexed.resolve ⟨.here, ["loop", "..", "esc"]⟩ = .error .linkLoop := by
    rw [Host.resolve, resolve_eq, if_neg (by decide), settled,
      show indexed.tree.canonical indexed.cwd _ = _ from (grows.canonical _).trans canonical_root]
    simp only [show indexed.tree.find indexed.cwd _ = _ from circle]
  apply Host.index_eq_error
  rw [paths.1, Host.indexPlan, resolved]
  rfl

end circling

/-- A second run can fail where the first one succeeded: if the settings are a link that only then leads
to a file, and if the root was left over by a circle of links as a link that only then leads into it. In
both cases there is no link with the name of the index. -/
theorem reindexing_can_fail :
    (∃ after summary, redirected.index (Path.ofString "/ws") none none = .ok (after, summary) ∧
      redirected.tree.NoLinkIn ["ws", ".vibe-outline"] indexName ∧
      after.index (Path.ofString "/ws") none none =
        .error (.settings (.malformed "/ws/vibe.toml" (namedFaults.malformed ['x'])))) ∧
    ∃ after summary, circling.index (Path.ofString "loop/../esc") none (some circling.atRoot) =
        .ok (after, summary) ∧
      circling.tree.NoLinkIn ["ws", "x"] indexName ∧
      after.index (Path.ofString "loop/../esc") none (some circling.atRoot) =
        .error (.path .linkLoop) :=
  ⟨⟨_, _, redirected.index_eq, noLinkIn_of_forall_keys (show ∀ key ∈ [["ws"], ["ws", "real.toml"],
      ["ws", "vibe.toml"]], key.getLast? ≠ some indexName by decide), redirected.index_indexed⟩,
    _, _, circling.index_eq, noLinkIn_of_forall_keys (show ∀ key ∈ [["ws"], ["ws", "loop"],
      ["ws", "esc"]], key.getLast? ≠ some indexName by decide), circling.index_indexed⟩

end VibeLens
