import VibeLens.Proofs.Command.Line
import VibeLens.Proofs.Json.RoundTrip
import VibeLens.Proofs.Outline.Nesting
import VibeLens.Proofs.Workspace.Indexing

set_option autoImplicit false

/-!
Outlining is decided by how deep a document is nested, and by nothing else in it. Up to a limit every
document has its line in the index, which depends on its own path and content alone, and its outline
for an editor. One document beyond the limit leaves the whole workspace without an index.
-/

namespace VibeLens

open Text FileTree VibeLens.Symbol

structure Outlinable (content : Utf8.Bytes) : Prop where
  small : content.length < Word.size
  nested : NestedWithin levelLimit (Outline.ofContent (.bytes content))

namespace Outline

theorem not_writable_record {content : Utf8.Bytes}
    (deep : ¬ NestedWithin levelLimit (ofContent (.bytes content))) (path : String) :
    ¬ (OutlineRecord.mk path (ofContent (.bytes content))).toJson.writable := by
  intro writable
  rw [Json.writable, Bool.and_eq_true, decide_eq_true_eq, depth_record_le_iff] at writable
  exact deep writable.2

theorem not_writable_editor {content : Utf8.Bytes}
    (deep : ¬ NestedWithin levelLimit (ofContent (.bytes content))) :
    ¬ (Json.arr (forestToEditor (ofContent (.bytes content)))).writable := by
  intro writable
  rw [Json.writable, Bool.and_eq_true, decide_eq_true_eq, depth_editor_le_iff] at writable
  exact deep writable.2

end Outline

/-! ### The index -/

namespace Host

variable {h : Host} {root : Path} {outDir : Option Path} {settings : Option Settings}
  {plan : IndexPlan} {made : FileTree}

/-- An index is written if all documents can be outlined, and holds a line for each of them. -/
theorem Ready.index_of_outlinable {files : List Location}
    (planned : h.indexPlan root outDir settings = .ok plan)
    (making : h.tree.ensureDirs h.cwd plan.dir.anchor plan.dir.names.reverse = .ok made)
    (ready : (h.withTree made).Ready plan)
    (found : (h.withTree made).outlineRecords plan =
      .ok (files.map ((h.withTree made).recordOf plan.root)))
    (outlinable : ∀ file ∈ files, Outlinable ((h.withTree made).contentOf file)) :
    ∃ after summary, h.index root outDir settings = .ok (after, summary) ∧
      after.tree.read after.cwd summary.artifact =
        .ok (files.flatMap fun file => ((h.withTree made).recordOf plan.root file).bytes ++ [10]) := by
  have writable : ∀ r ∈ files.map ((h.withTree made).recordOf plan.root), r.toJson.writable := by
    intro r member
    obtain ⟨file, inside, rfl⟩ := List.mem_map.mp member
    obtain ⟨small, nested⟩ := outlinable file inside
    exact (Outline.writable_record_iff _ small).mpr nested
  obtain ⟨after, summary, done, written⟩ := (ready.index planned making found).1 writable
  refine ⟨after, summary, done, ?_⟩
  rw [written, List.flatMap_map, List.flatMap_map]

/-- One document that is nested too deep keeps the index from being written. -/
theorem Ready.index_of_deep {files : List Location} {file : Location}
    (planned : h.indexPlan root outDir settings = .ok plan)
    (making : h.tree.ensureDirs h.cwd plan.dir.anchor plan.dir.names.reverse = .ok made)
    (ready : (h.withTree made).Ready plan)
    (found : (h.withTree made).outlineRecords plan =
      .ok (files.map ((h.withTree made).recordOf plan.root)))
    (member : file ∈ files)
    (deep : ¬ NestedWithin levelLimit
      (Outline.ofContent (.bytes ((h.withTree made).contentOf file)))) :
    h.index root outDir settings = .error .unwritable := by
  apply (ready.index planned making found).2
  exact ⟨_, List.mem_map_of_mem member, Outline.not_writable_record deep _⟩

end Host

/-! ### The command -/

namespace Command

theorem ofLine_outline_json {file : String} (plain : IsPlain file) :
    Request.ofLine ["outline", file, "--json"] = .ok (.outline file true) := by
  have command : IsPlain "outline" := by decide
  have outer : outerGrammar.parse ["outline", file, "--json"] =
      .ok ⟨[], [], [], ["outline", file, "--json"], false⟩ := by
    have option : outerGrammar.readAll ["--json"] = .ok [(.unknown, "--json")] := by decide
    rw [Grammar.parse, readAll_cons_of_isPlain _ command (readAll_cons_of_isPlain _ plain option)]
    rfl
  have grammar : grammars.get? "outline" =
      some ⟨helpOptions ++ [("--json", .flag "json")], [required "file"]⟩ := rfl
  have kept : [file].erase dividerWord = [file] := by
    apply List.erase_of_not_mem
    simpa using plain.ne_dividerWord.symm
  have inner : Grammar.parse ⟨helpOptions ++ [("--json", .flag "json")], [required "file"]⟩
      [file, "--json"] = .ok ⟨["json"], [], [("file", some file)], [], false⟩ := by
    have option : Grammar.readAll ⟨helpOptions ++ [("--json", .flag "json")], [required "file"]⟩
        ["--json"] = .ok [(.option (.flag "json") .nothing, "--json")] := by decide
    rw [Grammar.parse, readAll_cons_of_isPlain _ plain option]
    simp [consume, fillSlots, Slot.take?, required, isDivider, isOption, consumeOption, Parsed.act,
      Parsed.fill, kept, Parsed.empty, Table.put, bind, Except.bind, pure, Except.pure]
  rw [Request.ofLine, outer, ok_bind]
  simp only [grammar, inner, ok_bind]
  rfl

variable {h : Host} {file : String} {content : Utf8.Bytes}

theorem perform_outline_json (input : Utf8.Bytes) (read : readFile h file = .ok content) :
    perform h input (.outline file true) =
      (jsonText (.arr (forestToEditor (Outline.ofContent (.bytes content)))) >>=
        fun text => .ok ⟨0, text, [], h⟩) := by
  rw [perform, outline, read, ok_bind]
  rfl

theorem carryOut_outline_of_outlinable (input : Utf8.Bytes) (plain : IsPlain file)
    (read : readFile h file = .ok content) (outlinable : Outlinable content) :
    ∃ text, carryOut h input ["outline", file, "--json"] = .reported ⟨0, text, [], h⟩ ∧
      Json.read? text =
        some (Json.arr (forestToEditor (Outline.ofContent (.bytes content)))).canonical := by
  have done := perform_outline_json input read
  obtain ⟨small, nested⟩ := outlinable
  rw [jsonText_of_writable ((Outline.writable_editor_iff small).mpr nested), ok_bind] at done
  exact ⟨_, carryOut_of_ok (ofLine_outline_json plain) done, Json.read?_indented _⟩

theorem carryOut_outline_of_deep (input : Utf8.Bytes) (plain : IsPlain file)
    (read : readFile h file = .ok content)
    (deep : ¬ NestedWithin levelLimit (Outline.ofContent (.bytes content))) :
    carryOut h input ["outline", file, "--json"] = .failed .unwritable := by
  have done := perform_outline_json input read
  rw [jsonText_of_not_writable (Outline.not_writable_editor deep)] at done
  exact carryOut_of_unreported (ofLine_outline_json plain) done rfl

/-- Once all is in place, which means among other things that the root resolves to itself, the nesting of
documents alone decides whether they are outlined. If no source is nested too deep, an index is written,
and the line of each source in it is made of its path and its content; one that is nested too deep keeps
it from being written. And each file that can be read, and whose name does not start like an option, is
outlined for an editor by the same measure. -/
theorem outlining_decided_by_nesting (h : Host) (root : Path) (outDir : Option Path)
    (settings : Option Settings) (plan : IndexPlan) (made : FileTree)
    (planned : h.indexPlan root outDir settings = .ok plan)
    (making : h.tree.ensureDirs h.cwd plan.dir.anchor plan.dir.names.reverse = .ok made)
    (ready : (h.withTree made).Ready plan) :
    (∃ files,
      (h.withTree made).sources (Path.ofLocation plan.root) [plan.dir] plan.settings.includes
        plan.settings.excludes = .ok files ∧
      (∀ file ∈ files,
        made.read h.cwd (Location.text file) = .ok ((h.withTree made).contentOf file)) ∧
      ((∀ file ∈ files, Outlinable ((h.withTree made).contentOf file)) → ∃ after summary,
        h.index root outDir settings = .ok (after, summary) ∧
          after.tree.read after.cwd summary.artifact = .ok (files.flatMap fun file =>
            (OutlineRecord.mk (relativeText plan.root file)
              (Outline.ofContent (.bytes ((h.withTree made).contentOf file)))).bytes ++ [10])) ∧
      ((∃ file ∈ files,
          ¬ NestedWithin levelLimit (Outline.ofContent (.bytes ((h.withTree made).contentOf file)))) →
        h.index root outDir settings = .error .unwritable)) ∧
    ∀ file content input, IsPlain file → readFile h file = .ok content →
      (Outlinable content → ∃ text,
        carryOut h input ["outline", file, "--json"] = .reported ⟨0, text, [], h⟩ ∧
          Json.read? text =
            some (Json.arr (forestToEditor (Outline.ofContent (.bytes content)))).canonical) ∧
      (¬ NestedWithin levelLimit (Outline.ofContent (.bytes content)) →
        carryOut h input ["outline", file, "--json"] = .failed .unwritable) := by
  obtain ⟨files, scanned, readable, found⟩ := ready.exists_records
  refine ⟨⟨files, scanned, readable, ?_, ?_⟩, ?_⟩
  · exact ready.index_of_outlinable planned making found
  · rintro ⟨file, member, deep⟩
    exact ready.index_of_deep planned making found member deep
  · intro file content input plain read
    exact ⟨carryOut_outline_of_outlinable input plain read, carryOut_outline_of_deep input plain read⟩

end Command

namespace oneSource

def openings (levels : Nat) : Utf8.Bytes :=
  Utf8.encode (List.replicate levels "def f\n".toList).flatten

theorem readFile_eq (content : Utf8.Bytes) :
    Command.readFile (oneSource content) "/ws/a\nb.vb" = .ok content := by
  have path : Path.ofString "/ws/a\nb.vb" = Path.ofLocation ["ws", "a\nb.vb"] :=
    ofString_text (l := ["ws", "a\nb.vb"]) (by decide)
  have noZero : ¬ hasZero (Path.ofLocation ["ws", "a\nb.vb"]).toString := by decide
  rw [Command.readFile, path]
  exact (if_neg noZero).trans (Failure.ofSystem_eq_ok_iff.mpr ((grounded content).tree.read_text rfl))

/-- Functions nested as deep as can be are outlined. -/
theorem outlining_at_limit :
    (∃ after summary, (oneSource (openings 126)).index (Path.ofString "/ws")
      (some (Path.ofString "/ws/out")) (some .default) = .ok (after, summary)) ∧
    ∃ text, Command.carryOut (oneSource (openings 126)) [] ["outline", "/ws/a\nb.vb", "--json"] =
      .reported ⟨0, text, [], oneSource (openings 126)⟩ := by
  have outlinable : Outlinable (openings 126) := ⟨by decide +kernel, by decide +kernel⟩
  obtain ⟨⟨files, scanned, -, indexes, -⟩, outlines⟩ :=
    Command.outlining_decided_by_nesting _ _ _ _ _ _ (indexPlan_eq (openings 126))
      (ensureDirs_eq (openings 126)) (ready (openings 126))
  cases scanned.symm.trans (sources_eq (openings 126))
  constructor
  · obtain ⟨after, summary, done, -⟩ := indexes (List.forall_mem_singleton.mpr
      ((contentOf_eq (openings 126)).symm ▸ outlinable))
    exact ⟨after, summary, done⟩
  · obtain ⟨text, printed, -⟩ :=
      (outlines _ _ [] (by decide) (readFile_eq (openings 126))).1 outlinable
    exact ⟨text, printed⟩

/-- One function more, and there is neither an index nor an outline. -/
theorem outlining_beyond_limit :
    (oneSource (openings 127)).index (Path.ofString "/ws") (some (Path.ofString "/ws/out"))
        (some .default) = .error .unwritable ∧
      Command.carryOut (oneSource (openings 127)) [] ["outline", "/ws/a\nb.vb", "--json"] =
        .failed .unwritable := by
  have deep : ¬ NestedWithin levelLimit (Outline.ofContent (.bytes (openings 127))) := by
    decide +kernel
  constructor
  · apply (ready (openings 127)).index_of_deep (indexPlan_eq _) (ensureDirs_eq _)
      (outlineRecords_eq (openings 127)) List.mem_cons_self
    exact (contentOf_eq (openings 127)).symm ▸ deep
  · exact Command.carryOut_outline_of_deep [] (by decide) (readFile_eq (openings 127)) deep

end oneSource
end VibeLens
