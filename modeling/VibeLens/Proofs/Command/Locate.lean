import VibeLens.Proofs.Command.Line
import VibeLens.Proofs.Diagnostic.Coordinates
import VibeLens.Proofs.Json.RoundTrip

set_option autoImplicit false

/-!
The command that turns error text into diagnostics. It prints one object for each line that is not
blank, unless a numeral of the text is beyond what can be printed: then there is no answer at all.
-/

namespace VibeLens

namespace Diagnostic

open Text

theorem integersFit_toEditor (d : Diagnostic) :
    d.toEditor.integersFit ↔ d.line < Word.size ∧ d.column < Word.size := by
  have last : Word.isSignedOrUnsigned endOfLine := by decide
  have severity : Word.isSignedOrUnsigned 1 := by decide
  have line := Word.isSignedOrUnsigned_natCast (n := d.line)
  have column := Word.isSignedOrUnsigned_natCast (n := d.column)
  have twice : d.line < Word.size → d.column < Word.size → d.line < Word.size := fun fits _ => fits
  simpa [toEditor, Json.integersFit, Json.membersFit, Json.nat, last, severity, line, column]
    using twice

theorem depth_toEditor (d : Diagnostic) : d.toEditor.depth = 3 := rfl

/-- The diagnostics of a text can be printed exactly if its numerals are small enough. -/
theorem writable_iff (content : Content) :
    Json.writable (.arr ((locate content).map toEditor)) ↔
      ∀ line ∈ content.inkedLines, Within Word.size (trim line) := by
  have shallow : Json.depth (.arr ((locate content).map toEditor)) ≤ Json.depthLimit := by
    rw [Json.depth]
    apply Nat.succ_le_of_lt
    apply Nat.lt_of_le_of_lt (m := 3)
    · apply Json.itemsDepth_le_iff.mpr
      intro v mem
      obtain ⟨d, -, rfl⟩ := List.mem_map.mp mem
      exact (depth_toEditor d).le
    · decide
  have positive : 0 < Word.size := by decide
  have fits (line : List Char) :
      (ofLine line).toEditor.integersFit ↔ Within Word.size line := by
    have bounded : _ ↔ Within Word.size line := coordinates_le_iff line (Word.size - 1)
    rw [integersFit_toEditor, ← bounded]
    exact and_congr (Nat.lt_iff_le_pred positive) (Nat.lt_iff_le_pred positive)
  rw [Json.writable, Bool.and_eq_true, decide_eq_true_eq, and_iff_left shallow, Json.integersFit,
    Json.itemsFit_iff, locate_eq_map]
  simp only [List.forall_mem_map, fits]

theorem canonical_located (content : Content) :
    Json.canonical (.arr ((locate content).map toEditor)) =
      .arr (content.inkedLines.map fun line => (ofLine (trim line)).toEditor.canonical) := by
  rw [Json.canonical, Json.canonicalItems_eq_map, locate_eq_map, List.map_map, List.map_map]
  rfl

end Diagnostic

namespace Command

open Text

/-! ### The command line -/

theorem ofLine_locate_file {file : String} (plain : IsPlain file) :
    Request.ofLine ["locate", file] = .ok (.locate (some file)) := by
  have command : IsPlain "locate" := by decide
  have words : ∀ w ∈ ["locate", file], IsPlain w :=
    List.forall_mem_cons.mpr ⟨command, List.forall_mem_singleton.mpr plain⟩
  have outer : outerGrammar.parse ["locate", file] = .ok ⟨[], [], [], ["locate", file], false⟩ := by
    rw [Grammar.parse, readAll_of_isPlain _ words]
    rfl
  have grammar : grammars.get? "locate" = some ⟨helpOptions, [optional "file"]⟩ := rfl
  have kept : [file].erase dividerWord = [file] := by
    apply List.erase_of_not_mem
    simpa using plain.ne_dividerWord.symm
  have inner : Grammar.parse ⟨helpOptions, [optional "file"]⟩ [file] =
      .ok ⟨[], [], [("file", some file)], [], false⟩ := by
    rw [Grammar.parse, readAll_of_isPlain _ (List.forall_mem_singleton.mpr plain)]
    simp [consume, fillSlots, Slot.take?, optional, isDivider, Parsed.fill, kept, Parsed.empty,
      Table.put, bind, Except.bind, pure, Except.pure]
  rw [Request.ofLine, outer, ok_bind]
  simp only [grammar, inner, ok_bind]
  rfl

/-! ### What the command does -/

/-- The command line asks for the diagnostics of these bytes, which stand on the standard input or in
a file that can be read. -/
inductive Locates (h : Host) (input : Utf8.Bytes) (line : List String) : Utf8.Bytes → Prop
  | standard : Request.ofLine line = .ok (.locate none) → Locates h input line input
  | file {file : String} {data : Utf8.Bytes} :
    Request.ofLine line = .ok (.locate (some file)) → readFile h file = .ok data →
      Locates h input line data

section Locates

variable {h : Host} {input data : Utf8.Bytes} {line : List String}

theorem Locates.exists_request (locates : Locates h input line data) :
    ∃ request, Request.ofLine line = .ok request ∧
      perform h input request =
        (jsonText (.arr ((Diagnostic.locate (.bytes data)).map Diagnostic.toEditor)) >>=
          fun text => .ok ⟨0, text, [], h⟩) := by
  cases locates with
  | standard asked =>
    refine ⟨_, asked, ?_⟩
    rw [perform, locate]
    simp only [pure, Except.pure, ok_bind]
  | file asked read =>
    refine ⟨_, asked, ?_⟩
    rw [perform, locate]
    simp only [read, pure, Except.pure, ok_bind]

theorem Locates.carryOut_of_writable (locates : Locates h input line data)
    (writable : Json.writable (.arr ((Diagnostic.locate (.bytes data)).map Diagnostic.toEditor))) :
    ∃ text, carryOut h input line = .reported ⟨0, text, [], h⟩ ∧
      Json.read? text = some (.arr ((Content.bytes data).inkedLines.map
        fun l => (Diagnostic.ofLine (trim l)).toEditor.canonical)) := by
  obtain ⟨request, asked, performed⟩ := locates.exists_request
  rw [jsonText_of_writable writable] at performed
  rw [← Diagnostic.canonical_located]
  refine ⟨_, ?_, Json.read?_indented _⟩
  rw [carryOut, asked]
  simp only [performed, ok_bind]

theorem Locates.carryOut_of_not_writable (locates : Locates h input line data)
    (unwritable :
      ¬ Json.writable (.arr ((Diagnostic.locate (.bytes data)).map Diagnostic.toEditor))) :
    carryOut h input line = .failed .unwritable := by
  obtain ⟨request, asked, performed⟩ := locates.exists_request
  rw [jsonText_of_not_writable unwritable] at performed
  rw [carryOut, asked]
  simp only [performed]
  rfl

/-- The command prints one object for each line that is not blank, in the order of the lines, if no
numeral that places a diagnostic is beyond the words there are. With such a numeral it fails. -/
theorem carryOut_locate (locates : Locates h input line data) :
    ((∀ l ∈ (Content.bytes data).inkedLines, Diagnostic.Within Word.size (trim l)) →
      ∃ text, carryOut h input line = .reported ⟨0, text, [], h⟩ ∧
        Json.read? text = some (.arr ((Content.bytes data).inkedLines.map
          fun l => (Diagnostic.ofLine (trim l)).toEditor.canonical))) ∧
    ((∃ l ∈ (Content.bytes data).inkedLines, ¬ Diagnostic.Within Word.size (trim l)) →
      carryOut h input line = .failed .unwritable) := by
  have writable := Diagnostic.writable_iff (.bytes data)
  constructor
  · intro within
    exact locates.carryOut_of_writable (writable.mpr within)
  · rintro ⟨l, mem, beyond⟩
    apply locates.carryOut_of_not_writable
    intro fits
    exact beyond (writable.mp fits l mem)

end Locates

theorem locates_standard (h : Host) (input : Utf8.Bytes) : Locates h input ["locate"] input :=
  .standard (by decide +kernel)

theorem locates_file {h : Host} {file : String} {data : Utf8.Bytes} (input : Utf8.Bytes)
    (plain : IsPlain file) (read : readFile h file = .ok data) :
    Locates h input ["locate", file] data :=
  .file (ofLine_locate_file plain) read

/-- The last row that can be printed, a blank line, and a place in prose. -/
def farthestRow : Utf8.Bytes := Utf8.encode "[18446744073709551616:1] x\r\n \nat Line 3".toList

def logged : Host := ⟨⟨[(["errors"], .file farthestRow false)]⟩, [], "/", [], "", [], .plain⟩

theorem readFile_logged : readFile logged "errors" = .ok farthestRow := by
  have path : (Path.ofString "errors").toString = "errors" := by
    simp [Path.ofString, Path.anchorOf, Path.isPlain, Path.pieces, Path.toString, Path.Anchor.text,
      List.splitOn_cons_eq_if_modifyHead]
  have names : FileTree.systemNames "errors" = ["errors"] := by
    simp [FileTree.systemNames, Path.pieces, List.splitOn_cons_eq_if_modifyHead]
  rw [readFile, path]
  simp [FileTree.read, FileTree.find, FileTree.locate, FileTree.walk, names, logged, FileTree.get?,
    Table.get?, FileTree.hasZero, FileTree.isAbsoluteText]

theorem carryOut_locate_farthestRow :
    ∃ text, carryOut logged [] ["locate", "errors"] = .reported ⟨0, text, [], logged⟩ ∧
      Json.read? text = some (.arr
        [(Diagnostic.mk 18446744073709551615 0 "x").toEditor.canonical,
         (Diagnostic.mk 2 0 "at Line 3").toEditor.canonical]) := by
  have lines : (Content.bytes farthestRow).inkedLines =
      ["[18446744073709551616:1] x".toList, "at Line 3".toList] := by decide +kernel
  have first : Diagnostic.ofLine (trim "[18446744073709551616:1] x".toList) =
      ⟨18446744073709551615, 0, "x"⟩ := by decide +kernel
  have second : Diagnostic.ofLine (trim "at Line 3".toList) = ⟨2, 0, "at Line 3"⟩ := by
    decide +kernel
  have within : ∀ l ∈ (Content.bytes farthestRow).inkedLines,
      Diagnostic.Within Word.size (trim l) := by decide +kernel
  have done := (carryOut_locate (locates_file [] (by decide) readFile_logged)).1 within
  simpa only [lines, List.map_cons, List.map_nil, first, second] using done

def rowBeyond : Utf8.Bytes := Utf8.encode "[18446744073709551617:1] x".toList

/-- A row one beyond the last that can be printed leaves the command without an answer. -/
theorem carryOut_locate_rowBeyond :
    carryOut logged rowBeyond ["locate"] = .failed .unwritable := by
  apply (locates_standard logged rowBeyond).carryOut_of_not_writable
  decide +kernel

end Command
end VibeLens
