import VibeLens.Assist.Hover
import VibeLens.Diagnostic.Locate
import VibeLens.Outline.Scan
import VibeLens.Proofs.Text.Decoding

set_option autoImplicit false

/-!
Documents that are read alike. An outline, diagnostics and the documentation at a place are made of
the lines of a document. So it does not matter how lines are ended, nor whether the document is text
or the bytes that encode it, and what cannot be decoded stays on its line.
-/

namespace VibeLens

namespace Content

structure ReadAlike (first second : Content) : Prop where
  outline : Outline.ofContent first = Outline.ofContent second
  diagnostics : Diagnostic.locate first = Diagnostic.locate second
  hover : ∀ line column : Int, Assist.hover? first line column = Assist.hover? second line column

theorem readAlike_of_lines_eq {first second : Content} (same : first.lines = second.lines) :
    ReadAlike first second where
  outline := by rw [Outline.ofContent, same, Outline.ofContent]
  diagnostics := by rw [Diagnostic.locate, same, Diagnostic.locate]
  hover line column := by rw [Assist.hover?, same, Assist.hover?]

end Content

open Text

/-- A text is its lines with breaks between them, in one way only, and nothing that is read from a
document tells which breaks these are. -/
theorem document_blind_to_line_breaks :
    (∀ text : List Char, lines text ≠ [] ∧ (∀ line ∈ lines text, Unbroken line) ∧
      ∃! breaks : List LineBreak,
        breaks.length + 1 = (lines text).length ∧ Woven (lines text) breaks text) ∧
    (∀ (style : LineBreak) (text : List Char),
      lines (style.symbols.intercalate (lines text)) = lines text) ∧
    ∀ (style : LineBreak) (document : Content),
      convert style document.chars = style.symbols.intercalate document.lines ∧
      (Content.text (convert style document.chars)).ReadAlike document := by
  refine ⟨fun text => ⟨lines_ne_nil text, fun _ mem => unbroken_of_mem_lines mem, ?_⟩, ?_, ?_⟩
  · obtain ⟨breaks, woven⟩ := exists_woven_lines text
    refine ⟨breaks, ⟨woven.length_breaks, woven⟩, ?_⟩
    rintro breaks' ⟨-, woven'⟩
    exact woven'.breaks_unique woven rfl
  · intro style text
    exact lines_intercalate style (fun _ mem => unbroken_of_mem_lines mem) (lines_ne_nil text)
  · intro style document
    refine ⟨?_, Content.readAlike_of_lines_eq (lines_convert style document.chars)⟩
    rw [convert_eq_intercalate, ← lines_eq_cut, Content.lines]

/-- Bytes can be cut into lines before they are decoded, whatever is ill-formed among them, and the
bytes of a text are read as the text. -/
theorem undecodable_bytes_keep_lines :
    (∀ raw : Utf8.Bytes, lines (Utf8.decode raw) = (cut raw).map Utf8.decode) ∧
    (∀ (upper lower : Utf8.Bytes) (b : LineBreak),
      Utf8.decode (upper ++ (b.symbols ++ lower)) =
        Utf8.decode upper ++ (b.symbols ++ Utf8.decode lower)) ∧
    ∀ text : List Char, Utf8.decode (Utf8.encode text) = text ∧
      (Content.bytes (Utf8.encode text)).ReadAlike (.text text) := by
  refine ⟨Utf8.lines_decode, Utf8.decode_append_break, fun text => ?_⟩
  have decoded := Utf8.decode_encode text
  refine ⟨decoded, Content.readAlike_of_lines_eq ?_⟩
  rw [Content.lines, Content.chars_bytes, decoded, Content.lines, Content.chars_text]

end VibeLens
