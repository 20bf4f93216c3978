import VibeLens.Proofs.Files.Writing
import VibeLens.Proofs.Outline.BlockMatching
import VibeLens.Proofs.Text.Encoding
import VibeLens.Proofs.Workspace.Record
import VibeLens.Proofs.Workspace.Scanned

set_option autoImplicit false

/-!
The index loses nothing. It has one line for each source file, in the order of their paths, from which
the record of that file is read back; and the symbols it counts are the lines that define something.
-/

namespace VibeLens

open FileTree Text
open VibeLens.Path (IsName)

/-! ### The text of an index -/

namespace OutlineRecord

variable {records : List OutlineRecord}

theorem line?_eq_some_iff {r : OutlineRecord} {line : List Char} :
    r.line? = some line ↔ r.toJson.writable ∧ r.toJson.compact = line := by
  simp [line?, Json.text?]

theorem isSome_line?_iff {r : OutlineRecord} : r.line?.isSome ↔ r.toJson.writable := by
  simp [line?, Json.text?]

/-- The bytes of a record in an index, without the line feed that ends them. -/
def bytes (r : OutlineRecord) : Utf8.Bytes := Utf8.encode r.toJson.compact

theorem encode_text (whole : ∀ r ∈ records, r.toJson.writable) :
    Utf8.encode (text records) = (records.map bytes).flatMap (· ++ [10]) := by
  induction records with
  | nil => rfl
  | cons r rest ih =>
    obtain ⟨first, later⟩ := List.forall_mem_cons.mp whole
    have line : r.line? = some r.toJson.compact := line?_eq_some_iff.mpr ⟨first, rfl⟩
    have joined : text (r :: rest) = r.toJson.compact ++ '\n' :: text rest := by simp only [text, line]
    rw [joined, List.append_cons, Utf8.encode_append, Utf8.encode_append, Utf8.encode_lineFeed,
      ih later, List.map_cons, List.flatMap_cons]
    rfl

/-- A line of bytes holds a record: as text and as JSON it is read back. -/
def ReadBack (line : Utf8.Bytes) (r : OutlineRecord) : Prop :=
  ∃ chars value, Utf8.decode? line = some chars ∧ Json.read? chars = some value ∧
    ofDatum (.ofJson value) = .valid r

theorem readBack_bytes (r : OutlineRecord) : ReadBack r.bytes r :=
  ⟨_, _, Utf8.decode?_encode _, Json.read?_compact _, ofDatum_reread r⟩

theorem lineFeed_notMem_bytes (r : OutlineRecord) : 10 ∉ r.bytes :=
  Utf8.notMem_encode (Json.lineFeed_notMem_compact _)

end OutlineRecord

/-! ### Counting symbols -/

namespace Outline

theorem length_entriesOf (lines : List (List Char)) :
    (entriesOf lines).length = lines.countP fun line => (definition? line).isSome := by
  induction lines using List.reverseRecOn with
  | nil => rfl
  | append_singleton lines line ih =>
    rw [entriesOf_append, List.length_append, List.length_map, ih, List.countP_append,
      entryAt?_append_length, List.countP_singleton]
    cases definition? line <;> rfl

theorem length_forestListing (content : Content) :
    (Symbol.forestListing 0 (ofContent content)).length =
      content.lines.countP fun line => (definition? line).isSome := by
  have nodes := (lines_nodes_perm content.lines).length_eq
  rw [List.length_map, List.length_map, length_entriesOf] at nodes
  rw [← nodes, Symbol.nodes, List.length_map, ofContent]

end Outline

/-! ### The stages of indexing -/

namespace Host

variable {h after : Host} {root : Path} {outDir : Option Path} {settings : Option Settings}
  {plan : IndexPlan} {made tree : FileTree} {records : List OutlineRecord} {summary : IndexSummary}

theorem indexPlan_eq_ok_iff :
    h.indexPlan root outDir settings = .ok plan ↔
      h.resolve root = .ok plan.root ∧ h.indexSettings plan.root settings = .ok plan.settings ∧
        h.indexDir plan.root plan.settings outDir = .ok plan.dir ∧
        hasZero plan.dir.toString = false := by
  constructor
  · intro planned
    obtain ⟨top, resolved, planned⟩ := bind_eq_ok_iff.mp planned
    obtain ⟨s, found, planned⟩ := bind_eq_ok_iff.mp planned
    obtain ⟨dir, chosen, planned⟩ := bind_eq_ok_iff.mp planned
    split at planned
    · cases planned
    · rename_i noZero
      cases planned
      exact ⟨Failure.ofPath_eq_ok_iff.mp resolved, found, chosen, by simpa using noZero⟩
  · rintro ⟨resolved, found, chosen, noZero⟩
    rw [indexPlan, Failure.ofPath_eq_ok_iff.mpr resolved, ok_bind, found, ok_bind, chosen, ok_bind,
      if_neg (by simp [noZero])]
    rfl

theorem outlineRecords_eq_ok_iff :
    h.outlineRecords plan = .ok records ↔
      ∃ files, h.sources (Path.ofLocation plan.root) [plan.dir] plan.settings.includes
          plan.settings.excludes = .ok files ∧ (∀ file ∈ files, plan.root <+: file) ∧
        records = files.filterMap (h.outlineRecord? plan.root) := by
  rw [outlineRecords, bind_eq_ok_iff]
  apply exists_congr
  intro files
  apply and_congr_right
  intro _
  simp only [List.all_eq_true, List.isPrefixOf_iff_prefix]
  split
  · rename_i inside
    rw [and_iff_right inside]
    exact ⟨fun same => (Except.ok.inj same).symm, fun same => congrArg Except.ok same.symm⟩
  · rename_i outside
    simp only [outside, reduceCtorEq, false_and]

/-- The file that an index is written to. -/
def artifact (plan : IndexPlan) : String := (plan.dir.child indexName).toString

theorem writeIndex_eq_ok_iff :
    h.writeIndex plan = (after, .ok summary) ↔
      ∃ records tree, h.outlineRecords plan = .ok records ∧
        h.tree.write h.cwd (artifact plan) (Utf8.encode (OutlineRecord.text records)) = .ok tree ∧
        (∀ r ∈ records, r.toJson.writable) ∧ after = h.withTree tree ∧
        summary = ⟨records.length, (records.map OutlineRecord.symbolCount).sum, artifact plan⟩ := by
  have checked (records : List OutlineRecord) :
      records.all (·.line?.isSome) = true ↔ ∀ r ∈ records, r.toJson.writable := by
    simp only [List.all_eq_true, OutlineRecord.isSome_line?_iff]
  have counted (records : List OutlineRecord) :
      records.foldl (fun n r => n + r.symbolCount) 0 =
        (records.map OutlineRecord.symbolCount).sum := by
    rw [List.sum_eq_foldl, List.foldl_map]
  constructor
  · intro done
    unfold writeIndex at done
    split at done
    · cases done
    · rename_i records found
      simp only at done
      split at done
      · cases done
      · rename_i tree written
        obtain ⟨rfl, outcome⟩ := Prod.mk.inj done
        split at outcome
        · rename_i whole
          cases outcome
          refine ⟨records, tree, found, written, (checked records).mp whole, rfl, ?_⟩
          rw [counted]
          rfl
        · cases outcome
  · rintro ⟨records, tree, found, written, whole, rfl, rfl⟩
    rw [artifact] at written
    simp only [writeIndex, found, written, (checked records).mpr whole, if_true, counted, artifact]

theorem index_eq_ok_iff :
    h.index root outDir settings = .ok (after, summary) ↔
      ∃ plan made, h.indexPlan root outDir settings = .ok plan ∧
        h.tree.ensureDirs h.cwd plan.dir.anchor plan.dir.names.reverse = .ok made ∧
        (h.withTree made).writeIndex plan = (after, .ok summary) := by
  constructor
  · intro done
    unfold index at done
    split at done
    · rename_i run
      cases done
      unfold indexing at run
      split at run
      · cases run
      · split at run
        · cases run
        · exact ⟨_, _, ‹_›, ‹_›, run⟩
    · cases done
  · rintro ⟨plan, made, planned, making, written⟩
    simp only [index, indexing, planned, making, written]

/-! ### The records -/

structure Grounded (h : Host) : Prop where
  tree : h.tree.Grounded
  cwd : h.tree.get? h.cwd = some .dir

theorem Grounded.ensureDirs {anchor : Anchor} {names : List String} (grounded : h.Grounded)
    (making : h.tree.ensureDirs h.cwd anchor names = .ok made) :
    (h.withTree made).Grounded :=
  have kept := grounded.tree.ensureDirs grounded.cwd making
  ⟨kept.1, kept.2⟩

theorem Grounded.linkFree_startOf (grounded : h.Grounded) (p : Path) :
    h.tree.LinkFree (startOf h.cwd p) := by
  unfold startOf
  split
  · exact linkFree_top
  · exact grounded.tree.linkFree grounded.cwd Node.dir_ne_link

theorem Grounded.linkFree_of_resolve {p : Path} {l : Location} (grounded : h.Grounded)
    (resolved : h.resolve p = .ok l) (ends : ∃ there, h.tree.Leads (startOf h.cwd p) p.names there) :
    h.tree.LinkFree l :=
  (leads_of_resolve resolved ends).linkFree (grounded.linkFree_startOf p)

/-- The content of a file; one that cannot be read counts as empty. -/
def contentOf (h : Host) (file : Location) : Utf8.Bytes :=
  match h.tree.read h.cwd (Location.text file) with
  | .ok content => content
  | .error _ => []

def recordOf (h : Host) (root file : Location) : OutlineRecord :=
  ⟨relativeText root file, Outline.ofContent (.bytes (h.contentOf file))⟩

def definitionCount (h : Host) (file : Location) : Nat :=
  (Content.bytes (h.contentOf file)).lines.countP fun line => (Outline.definition? line).isSome

theorem symbolCount_recordOf (root file : Location) :
    (h.recordOf root file).symbolCount = h.definitionCount file :=
  Outline.length_forestListing _

theorem outlineRecord?_eq {root file : Location} {content : Utf8.Bytes}
    (read : h.tree.read h.cwd (Location.text file) = .ok content) :
    h.outlineRecord? root file = some (h.recordOf root file) := by
  simp only [outlineRecord?, recordOf, contentOf, read]

theorem read_contentOf {file : Location} {content : Utf8.Bytes}
    (read : h.tree.read h.cwd (Location.text file) = .ok content) :
    h.tree.read h.cwd (Location.text file) = .ok (h.contentOf file) := by
  simp only [contentOf, read]

theorem records_of_outlineRecords (grounded : h.Grounded) (names : ∀ name ∈ plan.root, IsName name)
    (found : h.outlineRecords plan = .ok records) :
    ∃ files, h.sources (Path.ofLocation plan.root) [plan.dir] plan.settings.includes
        plan.settings.excludes = .ok files ∧
      files.Pairwise (fun a b => relativeText plan.root a < relativeText plan.root b) ∧
      (∀ file ∈ files, h.tree.read h.cwd (Location.text file) = .ok (h.contentOf file)) ∧
      records = files.map (h.recordOf plan.root) := by
  obtain ⟨files, scanned, inside, rfl⟩ := outlineRecords_eq_ok_iff.mp found
  have cwdNames := grounded.tree.isName grounded.cwd
  obtain ⟨ordered, areFiles⟩ := sources_found grounded.tree cwdNames names scanned inside
  have readable : ∀ file ∈ files,
      h.tree.read h.cwd (Location.text file) = .ok (h.contentOf file) := by
    intro file member
    obtain ⟨content, executable, isFile⟩ := areFiles file member
    exact read_contentOf (grounded.tree.read_text isFile)
  refine ⟨files, scanned, ordered, readable, ?_⟩
  rw [← List.filterMap_eq_map]
  apply List.filterMap_congr
  intro file member
  exact outlineRecord?_eq (readable file member)

theorem outlineRecords_of_no_source {top skipped : Location} (proper : h.tree.Proper)
    (resolved : h.resolve (Path.ofLocation plan.root) = .ok top)
    (resolvedDir : h.resolve plan.dir = .ok skipped)
    (clean : ∀ key ∈ h.tree.nodes.keys,
      key.getLast? ≠ some ".gitignore" ∧ (Path.ofLocation key).suffix ≠ sourceSuffix) :
    h.outlineRecords plan = .ok [] := by
  have resolvedSkip : [plan.dir].mapM h.resolve = .ok [skipped] := by
    rw [List.mapM_cons, resolvedDir, ok_bind]
    rfl
  have parses : (h.walk top [skipped]).Parses :=
    Walk.parses_of_forall_keys fun key member => (clean key member).1
  obtain ⟨files, scanned, exactly⟩ := exists_sources proper resolved resolvedSkip parses
    plan.settings.includes plan.settings.excludes
  have none : files = [] := by
    apply List.eq_nil_iff_forall_not_mem.mpr
    intro file member
    obtain ⟨l, rfl, source, -⟩ := (exactly file).mp member
    apply (clean _ source.taken.mem_keys).2
    rw [Walk.suffix_append source.taken.ne_root, source.taken.suffix]
  refine outlineRecords_eq_ok_iff.mpr ⟨files, scanned, ?_, ?_⟩
  · rw [none]
    exact List.forall_mem_nil _
  · rw [none]
    rfl

/-! ### When an index is written -/

/-- All is in place for an index once its directory is made: the root resolves to itself, the directory
has a canonical location, ignore files can be read, and the file of the index can be opened. -/
structure Ready (h : Host) (plan : IndexPlan) : Prop where
  grounded : h.Grounded
  names : ∀ name ∈ plan.root, IsName name
  root : h.resolve (Path.ofLocation plan.root) = .ok plan.root
  ignoring : ∃ skipped, h.resolve plan.dir = .ok skipped ∧ (h.walk plan.root [skipped]).Parses
  opens : ∃ tree, h.tree.write h.cwd (artifact plan) [] = .ok tree

theorem Ready.exists_records (ready : h.Ready plan) :
    ∃ files,
      h.sources (Path.ofLocation plan.root) [plan.dir] plan.settings.includes
        plan.settings.excludes = .ok files ∧
      (∀ file ∈ files, h.tree.read h.cwd (Location.text file) = .ok (h.contentOf file)) ∧
      h.outlineRecords plan = .ok (files.map (h.recordOf plan.root)) := by
  obtain ⟨skipped, resolved, parses⟩ := ready.ignoring
  have resolvedSkip : [plan.dir].mapM h.resolve = .ok [skipped] := by
    rw [List.mapM_cons, resolved, ok_bind]
    rfl
  obtain ⟨files, scanned, exactly⟩ := exists_sources ready.grounded.tree.toProper ready.root
    resolvedSkip parses plan.settings.includes plan.settings.excludes
  have inside : ∀ file ∈ files, plan.root <+: file := by
    intro file member
    obtain ⟨l, rfl, -⟩ := (exactly file).mp member
    exact List.prefix_append _ _
  have found := outlineRecords_eq_ok_iff.mpr ⟨files, scanned, inside, rfl⟩
  obtain ⟨again, scannedAgain, -, readable, recorded⟩ :=
    records_of_outlineRecords ready.grounded ready.names found
  obtain rfl : again = files := Except.ok.inj (scannedAgain.symm.trans scanned)
  exact ⟨again, scanned, readable, recorded ▸ found⟩

theorem Ready.index (planned : h.indexPlan root outDir settings = .ok plan)
    (making : h.tree.ensureDirs h.cwd plan.dir.anchor plan.dir.names.reverse = .ok made)
    (ready : (h.withTree made).Ready plan) (found : (h.withTree made).outlineRecords plan = .ok records) :
    ((∀ r ∈ records, r.toJson.writable) → ∃ after summary,
      h.index root outDir settings = .ok (after, summary) ∧
        after.tree.read after.cwd summary.artifact =
          .ok ((records.map OutlineRecord.bytes).flatMap (· ++ [10]))) ∧
    ((∃ r ∈ records, ¬ r.toJson.writable) → h.index root outDir settings = .error .unwritable) := by
  obtain ⟨_, opened⟩ := ready.opens
  obtain ⟨tree, written⟩ := exists_write_of_write opened (Utf8.encode (OutlineRecord.text records))
  constructor
  · intro whole
    have run := writeIndex_eq_ok_iff.mpr ⟨records, tree, found, written, whole, rfl, rfl⟩
    refine ⟨_, _, index_eq_ok_iff.mpr ⟨plan, made, planned, making, run⟩, ?_⟩
    rw [← OutlineRecord.encode_text whole]
    exact read_of_write written
  · rintro ⟨r, member, none⟩
    have broken : ¬ records.all (·.line?.isSome) = true := by
      intro whole
      exact none (OutlineRecord.isSome_line?_iff.mp (List.all_eq_true.mp whole r member))
    rw [artifact] at written
    simp only [Host.index, indexing, planned, making, writeIndex, found, written, broken,
      Bool.false_eq_true, if_false]

/-! ### Nothing is lost -/

/-- An index that is written holds one line of bytes for each source file, ended by a line feed and
with no other one in it. From each line the record of its file is read back: the path below the root
and the outline of the content. The paths are strictly increasing, and the symbols counted are the
lines that define something. -/
theorem index_lossless (h after : Host) (root : String) (outDir : Option String)
    (settings : Option Settings) (summary : IndexSummary) (grounded : h.Grounded)
    (done : h.index (Path.ofString root) (outDir.map Path.ofString) settings = .ok (after, summary)) :
    ∃ plan made files,
      h.indexPlan (Path.ofString root) (outDir.map Path.ofString) settings = .ok plan ∧
      h.tree.ensureDirs h.cwd plan.dir.anchor plan.dir.names.reverse = .ok made ∧
      (h.withTree made).sources (Path.ofLocation plan.root) [plan.dir]
        plan.settings.includes plan.settings.excludes = .ok files ∧
      files.Pairwise (fun a b => relativeText plan.root a < relativeText plan.root b) ∧
      summary.fileCount = files.length ∧
      summary.symbolCount = (files.map (h.withTree made).definitionCount).sum ∧
      ∃ lines : List Utf8.Bytes,
        after.tree.read after.cwd summary.artifact = .ok (lines.flatMap (· ++ [10])) ∧
        (∀ line ∈ lines, 10 ∉ line) ∧
        List.Forall₂ (fun file line => ∃ content,
          made.read h.cwd (Location.text file) = .ok content ∧
          OutlineRecord.ReadBack line
            ⟨relativeText plan.root file, Outline.ofContent (.bytes content)⟩) files lines := by
  obtain ⟨plan, made, planned, making, run⟩ := index_eq_ok_iff.mp done
  obtain ⟨records, tree, found, written, whole, rfl, rfl⟩ := writeIndex_eq_ok_iff.mp run
  have names : ∀ name ∈ plan.root, IsName name :=
    isName_of_resolve (indexPlan_eq_ok_iff.mp planned).1 (grounded.tree.isName grounded.cwd)
      fun _ => Path.noSlash_of_mem_ofString
  obtain ⟨files, scanned, ordered, readable, rfl⟩ :=
    records_of_outlineRecords (grounded.ensureDirs making) names found
  refine ⟨plan, made, files, planned, making, scanned, ordered, ?_, ?_,
    (files.map ((h.withTree made).recordOf plan.root)).map OutlineRecord.bytes, ?_, ?_, ?_⟩
  · rw [List.length_map]
  · have counted : OutlineRecord.symbolCount ∘ (h.withTree made).recordOf plan.root =
        (h.withTree made).definitionCount := funext (symbolCount_recordOf plan.root)
    rw [List.map_map, counted]
  · rw [← OutlineRecord.encode_text whole]
    exact read_of_write written
  · intro line member
    obtain ⟨r, -, rfl⟩ := List.mem_map.mp member
    exact r.lineFeed_notMem_bytes
  · apply List.forall₂_map_right_iff.mpr
    apply List.forall₂_map_right_iff.mpr
    apply List.forall₂_same.mpr
    intro file member
    exact ⟨_, readable file member, OutlineRecord.readBack_bytes _⟩

end Host

/-- A workspace with one source file, whose name has a line break in it. -/
def oneSource (content : Utf8.Bytes) : Host where
  tree := ⟨[(["ws"], .dir), (["ws", "out"], .dir), (["ws", "a\nb.vb"], .file content false)]⟩
  cwd := ["ws"]
  home := "/"
  users := []
  searchPath := ""
  utilities := []
  wording := .plain

namespace oneSource

variable (content : Utf8.Bytes)

def plan : IndexPlan := ⟨["ws"], .default, ⟨.top, ["ws", "out"]⟩⟩

theorem grounded : (oneSource content).Grounded where
  tree := .of_keys [["ws"], ["ws", "out"], ["ws", "a\nb.vb"]] rfl (by decide) (by decide)
    (by simp [oneSource, FileTree.get?, Table.get?])
  cwd := rfl

theorem indexPlan_eq : (oneSource content).indexPlan (Path.ofString "/ws")
    (some (Path.ofString "/ws/out")) (some .default) = .ok plan := by
  have root : Path.ofString "/ws" = Path.ofLocation ["ws"] :=
    ofString_text (l := ["ws"]) (by decide)
  have dir : Path.ofString "/ws/out" = Path.ofLocation ["ws", "out"] :=
    ofString_text (l := ["ws", "out"]) (by decide)
  rw [root, dir]
  refine Host.indexPlan_eq_ok_iff.mpr ⟨?_, rfl, rfl, by decide⟩
  exact (grounded content).tree.resolve_ofLocation rfl Node.dir_ne_link (by decide)

theorem ensureDirs_eq : (oneSource content).tree.ensureDirs (oneSource content).cwd plan.dir.anchor
    plan.dir.names.reverse = .ok (oneSource content).tree :=
  (grounded content).tree.ensureDirs_self rfl (by decide)

theorem no_ignoreFile (skip : List Location) :
    ∀ key ∈ ((oneSource content).walk ["ws"] skip).tree.nodes.keys,
      key.getLast? ≠ some ".gitignore" :=
  show ∀ key ∈ [["ws"], ["ws", "out"], ["ws", "a\nb.vb"]], key.getLast? ≠ some ".gitignore" by decide

theorem resolve_dir : (oneSource content).resolve plan.dir = .ok ["ws", "out"] :=
  (grounded content).tree.resolve_ofLocation rfl Node.dir_ne_link (by decide)

theorem resolve_root : (oneSource content).resolve (Path.ofLocation ["ws"]) = .ok ["ws"] :=
  (grounded content).tree.resolve_ofLocation rfl Node.dir_ne_link (by decide)

theorem ready : ((oneSource content).withTree (oneSource content).tree).Ready plan where
  grounded := grounded content
  names := by decide
  root := resolve_root content
  ignoring := ⟨["ws", "out"], resolve_dir content,
    Walk.parses_of_forall_keys (no_ignoreFile content _)⟩
  opens := (grounded content).tree.exists_write (l := ["ws", "out"]) rfl (by decide)
    (fun _ impossible => nomatch impossible) []

theorem isSource : ((oneSource content).walk ["ws"] [["ws", "out"]]).IsSource ["a\nb.vb"] where
  taken := by
    have free : (oneSource content).tree.LinkFree ["ws"] :=
      (grounded content).tree.linkFree rfl Node.dir_ne_link
    refine ⟨⟨content, false, ?_⟩, by decide, ?_⟩
    · rw [Walk.get?, (oneSource content).walk_place _ free (by decide)]
      rfl
    · exact Walk.not_ignored_of_forall_keys (no_ignoreFile content _)
  way := by
    intro dir nonempty isAbove different
    rcases List.prefix_concat_iff.mp (show dir <+: [] ++ ["a\nb.vb"] from isAbove) with same | none
    · exact absurd same different
    · exact absurd (List.prefix_nil.mp none) nonempty

theorem eq_of_isFile {file : Location} {bytes : Utf8.Bytes} {executable : Bool}
    (isFile : (oneSource content).tree.get? file = some (.file bytes executable)) :
    file = ["ws", "a\nb.vb"] := by
  simp only [oneSource, FileTree.get?, Table.get?] at isFile
  grind

theorem sources_eq : (oneSource content).sources (Path.ofLocation ["ws"]) [plan.dir] [] [] =
    .ok [["ws", "a\nb.vb"]] := by
  have resolvedSkip : [plan.dir].mapM (oneSource content).resolve = .ok [["ws", "out"]] := by
    rw [List.mapM_cons, resolve_dir, ok_bind]
    rfl
  obtain ⟨files, scanned, exactly⟩ := Host.exists_sources (grounded content).tree.toProper
    (resolve_root content) resolvedSkip (Walk.parses_of_forall_keys (no_ignoreFile content _)) [] []
  have found : ["ws", "a\nb.vb"] ∈ files :=
    (exactly _).mpr ⟨["a\nb.vb"], rfl, isSource content, by simp [Glob.Selected]⟩
  have inside : ∀ file ∈ files, ["ws"] <+: file := by
    intro file member
    obtain ⟨l, rfl, -⟩ := (exactly file).mp member
    exact List.prefix_append _ _
  have names : ∀ name ∈ ["ws"], IsName name := by decide
  obtain ⟨ordered, areFiles⟩ := Host.sources_found (grounded content).tree names names scanned inside
  have same : ∀ file, file ∈ files ↔ file ∈ [["ws", "a\nb.vb"]] := by
    intro file
    rw [List.mem_singleton]
    constructor
    · intro member
      obtain ⟨bytes, executable, isFile⟩ := areFiles file member
      exact eq_of_isFile content isFile
    · rintro rfl
      exact found
  rw [scanned, Walk.eq_of_increasing ordered (List.pairwise_singleton _ _) same]

theorem read_eq : (oneSource content).tree.read (oneSource content).cwd
    (Location.text ["ws", "a\nb.vb"]) = .ok content :=
  (grounded content).tree.read_text rfl

theorem contentOf_eq : (oneSource content).contentOf ["ws", "a\nb.vb"] = content := by
  simp only [Host.contentOf, read_eq]

theorem outlineRecords_eq : (oneSource content).outlineRecords plan =
    .ok ([["ws", "a\nb.vb"]].map ((oneSource content).recordOf plan.root)) := by
  refine Host.outlineRecords_eq_ok_iff.mpr ⟨_, sources_eq content, by decide, ?_⟩
  rw [List.filterMap_cons_some (Host.outlineRecord?_eq (read_eq content)), List.filterMap_nil]
  rfl

def twoFunctions : Utf8.Bytes := Utf8.encode "def f\nend\ndef g".toList

theorem index_lossless_line_break :
    ∃ after summary line, (oneSource twoFunctions).index (Path.ofString "/ws")
        (some (Path.ofString "/ws/out")) (some .default) = .ok (after, summary) ∧
      summary.fileCount = 1 ∧ summary.symbolCount = 2 ∧
      after.tree.read after.cwd summary.artifact = .ok (line ++ [10]) ∧ 10 ∉ line ∧
      OutlineRecord.ReadBack line ⟨"a\nb.vb", Outline.ofContent (.bytes twoFunctions)⟩ := by
  have whole : ∀ r ∈ [(oneSource twoFunctions).recordOf ["ws"] ["ws", "a\nb.vb"]],
      r.toJson.writable := by
    rw [Host.recordOf, contentOf_eq]
    decide +kernel
  obtain ⟨after, summary, done, -⟩ := ((ready twoFunctions).index (indexPlan_eq _) (ensureDirs_eq _)
    (outlineRecords_eq twoFunctions)).1 whole
  obtain ⟨_, _, files, planned, making, scanned, -, fileCount, symbolCount, lines, read, clean, each⟩ :=
    Host.index_lossless (oneSource twoFunctions) after "/ws" (some "/ws/out") (some .default) summary
      (grounded twoFunctions) done
  cases planned.symm.trans (indexPlan_eq twoFunctions)
  cases making.symm.trans (ensureDirs_eq twoFunctions)
  cases scanned.symm.trans (sources_eq twoFunctions)
  have defined : (oneSource twoFunctions).definitionCount ["ws", "a\nb.vb"] = 2 := by
    rw [Host.definitionCount, contentOf_eq]
    decide +kernel
  cases each with
  | cons first none =>
    cases none
    obtain ⟨_, again, readBack⟩ := first
    cases again.symm.trans (read_eq twoFunctions)
    refine ⟨after, summary, _, done, fileCount, ?_, by simpa using read, by simpa using clean, readBack⟩
    rw [symbolCount, Host.withTree_self, List.map_singleton, List.sum_singleton, defined]

end oneSource
end VibeLens
