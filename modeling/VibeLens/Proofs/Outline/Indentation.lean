import VibeLens.Proofs.Outline.LineGrammar
import VibeLens.Proofs.Text.Joining

set_option autoImplicit false

/-!
The outline does not depend on how lines are indented. Blanks in front of a line move its definition
and its end to the right by as many columns as they take, and neither open nor close a block. A
document with other blanks in front of each line, whatever its line breaks are, has therefore the
same outline with its columns moved line by line.
-/

namespace VibeLens

namespace Text

/-! ### Indented text -/

/-- The text with something put behind every line break. The line at which it starts has number
`i`, and `pad j` goes in front of line `j`. -/
def padFrom (pad : Nat → List Char) (i : Nat) : List Char → List Char
  | [] => []
  | '\r' :: '\n' :: rest => '\r' :: '\n' :: (pad (i + 1) ++ padFrom pad (i + 1) rest)
  | c :: rest =>
    if c = '\r' ∨ c = '\n' then c :: (pad (i + 1) ++ padFrom pad (i + 1) rest)
    else c :: padFrom pad i rest

/-- The text with something put in front of every line. Line breaks stay as they are. -/
def indent (pad : Nat → List Char) (text : List Char) : List Char := pad 0 ++ padFrom pad 0 text

variable {pad : Nat → List Char}

namespace LinesAhead

def padOthers (pad : Nat → List Char) (i : Nat) (ahead : LinesAhead) : LinesAhead :=
  { ahead with others := (ahead.others.zipIdx i).map fun line => pad line.2 ++ line.1 }

theorem breakLine_padOthers (unbroken : ∀ i, Unbroken (pad i)) (i : Nat) (ahead : LinesAhead)
    (feed : Bool) :
    ((pad i).foldr before (ahead.padOthers pad (i + 1))).breakLine feed =
      (ahead.breakLine feed).padOthers pad i := by
  rw [(unbroken i).foldr_before]
  rfl

/-- The first line is left as it is, and each later one starts with what is put behind a break. -/
theorem foldr_padFrom (unbroken : ∀ i, Unbroken (pad i)) (i : Nat) (text : List Char) :
    (padFrom pad i text).foldr before .none =
      (text.foldr before .none).padOthers pad (i + 1) := by
  fun_induction padFrom pad i text with
  | case1 => rfl
  | case2 i rest ih =>
    have broken := breakLine_padOthers unbroken (i + 1) (rest.foldr before .none) false
    rw [List.foldr_cons, List.foldr_cons, List.foldr_append, ih]
    exact broken
  | case3 i c rest notPair lineBreak ih =>
    have broken := breakLine_padOthers unbroken (i + 1) (rest.foldr before .none)
    rw [List.foldr_cons, List.foldr_append, ih, List.foldr_cons]
    rcases lineBreak with rfl | rfl
    · -- A lone carriage return is no part of a pair, neither before the blanks are there nor after.
      have alone : (rest.foldr before .none).feedNext = false := by
        rw [feedNext_foldr, beq_eq_false_iff_ne]
        intro feed
        obtain ⟨tail, rfl⟩ := List.head?_eq_some_iff.mp feed
        exact notPair tail rfl rfl
      have padded : ((pad (i + 1)).foldr before
          ((rest.foldr before .none).padOthers pad (i + 1 + 1))).feedNext = false := by
        rw [(unbroken (i + 1)).foldr_before, padOthers, alone, Bool.and_false]
      rw [before_return padded, before_return alone]
      exact broken false
    · exact broken true
  | case4 i c rest notPair plain ih =>
    rw [not_or] at plain
    rw [List.foldr_cons, ih, List.foldr_cons]
    simp only [before, if_neg plain.1, if_neg plain.2]
    rfl

end LinesAhead

theorem lines_indent (unbroken : ∀ i, Unbroken (pad i)) (text : List Char) :
    lines (indent pad text) = (lines text).zipIdx.map fun line => pad line.2 ++ line.1 := by
  rw [lines, indent, List.foldr_append, LinesAhead.foldr_padFrom unbroken,
    (unbroken 0).foldr_before]
  rfl

end Text

def Relocation.right (width : Nat → Nat) : Relocation where
  line := id
  injective := Function.injective_id
  startColumn i column := column + width i
  stopColumn i column := column + width i

namespace Outline

open Text

/-! ### An indented line -/

section Line

variable {blanks : List Char} (blank : ∀ c ∈ blanks, isBlank c)
include blank

theorem Form.match?_indent (form : Form) (line : List Char) :
    form.match? (blanks ++ line) =
      (form.match? line).map fun d => { d with column := d.column + blanks.length } := by
  rw [Form.match?, skipBlanks_append blank, Form.match?]
  cases keyword : word? form.keyword (skipBlanks line) with
  | none => rfl
  | some behind =>
    simp only [bind, Option.bind_some]
    cases found : blanks? behind with
    | none => rfl
    | some rest =>
      have column : (blanks ++ line).length - rest.length =
          line.length - rest.length + blanks.length := by
        have := (suffix_behind_word keyword found).length_le
        rw [List.length_append]
        omega
      simp only [Option.bind_some, Option.map_bind, Function.comp_def, column]
      rfl

theorem definition?_indent (line : List Char) :
    definition? (blanks ++ line) =
      (definition? line).map fun d => { d with column := d.column + blanks.length } := by
  rw [definition?, definition?, List.map_findSome?]
  congr 1
  funext form
  exact form.match?_indent blank line

theorem codePortion_indent (line : List Char) :
    codePortion (blanks ++ line) = blanks ++ codePortion line :=
  codePortion_append (fun c hc => isPlain_of_isBlank (blank c hc)) line

theorem opensByKeyword_indent (code : List Char) :
    opensByKeyword (blanks ++ code) = opensByKeyword code := by
  rw [opensByKeyword, skipBlanks_append blank, opensByKeyword]

/-- A word does not start with a blank, and after blanks it may start as at the start of a line. -/
theorem occursFrom_indent {first : Char} (ink : isBlank first = false) (word code : List Char) :
    occursFrom (first :: word) true (blanks ++ code) = occursFrom (first :: word) true code := by
  induction blanks with
  | nil => rfl
  | cons c blanks ih =>
    obtain ⟨here, later⟩ := List.forall_mem_cons.mp blank
    have differ : first ≠ c := by
      rintro rfl
      rw [ink] at here
      cases here
    rw [List.cons_append, occursFrom, word?_cons_cons, if_neg differ,
      bindsToNext_eq_false_of_isBlank here, Bool.not_false, ih later]
    rfl

theorem opens_indent (line : List Char) :
    opens (codePortion (blanks ++ line)) = opens (codePortion line) := by
  have literal : opensByLiteral (blanks ++ codePortion line) = opensByLiteral (codePortion line) :=
    occursFrom_indent blank (by decide) _ _
  rw [codePortion_indent blank, opens, opensByKeyword_indent blank, literal, opens]

theorem closes_indent (line : List Char) :
    closes (codePortion (blanks ++ line)) = closes (codePortion line) := by
  rw [codePortion_indent blank]
  exact occursFrom_indent blank (by decide) _ _

end Line

/-! ### An indented document -/

section Document

variable {pad : Nat → List Char} (blank : ∀ i, ∀ c ∈ pad i, isBlank c)
include blank

theorem reads_indent (i : Nat) (line : List Char) :
    Reads (.right fun i => (pad i).length) i line (pad i ++ line) where
  definition := definition?_indent (blank i) line
  opens := opens_indent (blank i) line
  closes := closes_indent (blank i) line
  length := by rw [List.length_append, Nat.add_comm, Relocation.right]
  next := rfl

theorem ofLines_indent (lines : List (List Char)) :
    ofLines (lines.zipIdx.map fun line => pad line.2 ++ line.1) =
      Symbol.forestRelocate (.right fun i => (pad i).length) (ofLines lines) := by
  apply ofLines_relocate rfl
  rw [List.forall₂_map_right_iff, List.forall₂_same]
  intro line _
  exact reads_indent blank line.2 line.1

theorem ofContent_indent (unbroken : ∀ i, Unbroken (pad i)) {document other : Content}
    (indented : other.chars = indent pad document.chars) :
    ofContent other =
      Symbol.forestRelocate (.right fun i => (pad i).length) (ofContent document) := by
  have lines : other.lines = document.lines.zipIdx.map fun line => pad line.2 ++ line.1 := by
    rw [Content.lines, indented, lines_indent unbroken, Content.lines]
  rw [ofContent, lines, ofContent]
  exact ofLines_indent blank document.lines

end Document

/-- Blanks put in front of the lines, other ones in front of each, move what stands on a line to the
right by as much as was put in front of it, and do nothing else. -/
theorem outline_independent_of_indentation {pad : Nat → List Char}
    (blank : ∀ i, ∀ c ∈ pad i, isBlank c ∧ c ≠ '\r' ∧ c ≠ '\n') :
    (∀ text, lines (indent pad text) = (lines text).zipIdx.map fun line => pad line.2 ++ line.1) ∧
    (∀ text, ofContent (.text (indent pad text)) =
      Symbol.forestRelocate (.right fun i => (pad i).length) (ofContent (.text text))) ∧
    ∀ document other : Content, other.chars = indent pad document.chars →
      ofContent other =
        Symbol.forestRelocate (.right fun i => (pad i).length) (ofContent document) := by
  have unbroken : ∀ i, Unbroken (pad i) := fun i =>
    ⟨fun mem => (blank i _ mem).2.1 rfl, fun mem => (blank i _ mem).2.2 rfl⟩
  have white : ∀ i, ∀ c ∈ pad i, isBlank c := fun i c mem => (blank i c mem).1
  refine ⟨lines_indent unbroken, fun text => ?_, fun document other indented => ?_⟩
  · exact ofContent_indent white unbroken rfl
  · exact ofContent_indent white unbroken indented

def raggedPad : Nat → List Char
  | 0 => ['\t']
  | 1 => ['\u3000', ' ']
  | 3 => ['\u2028']
  | _ => []

/-- Three kinds of line breaks, all of which stay. The function ends on a line that was not moved. -/
theorem ragged_class_outline :
    let text := "class A\r\n def f\rend\nend".toList
    (∀ i, ∀ c ∈ raggedPad i, isBlank c ∧ c ≠ '\r' ∧ c ≠ '\n') ∧
      indent raggedPad text = "\tclass A\r\n\u3000  def f\rend\n\u2028end".toList ∧
      ofContent (.text text) =
        [⟨"A", .classType, ⟨0, 6⟩, ⟨3, 3⟩, [⟨"f", .function, ⟨1, 5⟩, ⟨2, 3⟩, []⟩]⟩] ∧
      ofContent (.text (indent raggedPad text)) =
        [⟨"A", .classType, ⟨0, 7⟩, ⟨3, 4⟩, [⟨"f", .function, ⟨1, 7⟩, ⟨2, 3⟩, []⟩]⟩] := by
  intro text
  have blank : ∀ i, ∀ c ∈ raggedPad i, isBlank c ∧ c ≠ '\r' ∧ c ≠ '\n' := by
    have all : ∀ i, (raggedPad i).all fun c => isBlank c && c ≠ '\r' && c ≠ '\n' := by
      intro i
      unfold raggedPad
      split <;> decide
    intro i c mem
    simpa [and_assoc] using List.all_eq_true.mp (all i) c mem
  have entries : (Scan.run (Content.text text).lines).entries =
      [⟨"f", .function, ⟨1, 5⟩, ⟨2, 3⟩, some 0⟩, ⟨"A", .classType, ⟨0, 6⟩, ⟨3, 3⟩, none⟩] := by
    decide +kernel
  have before : ofContent (.text text) =
      [⟨"A", .classType, ⟨0, 6⟩, ⟨3, 3⟩, [⟨"f", .function, ⟨1, 5⟩, ⟨2, 3⟩, []⟩]⟩] := by
    rw [ofContent, ofLines, entries]
    rfl
  refine ⟨blank, by decide +kernel, before, ?_⟩
  rw [(outline_independent_of_indentation blank).2.1, before]
  rfl

end Outline
end VibeLens
