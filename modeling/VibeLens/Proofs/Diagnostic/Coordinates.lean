import Mathlib.Data.List.Forall2
import VibeLens.Proofs.Diagnostic.Messages
import VibeLens.Proofs.Editor.Range

set_option autoImplicit false

/-!
How large the coordinates of a diagnostic can be. They are read off numerals, and a numeral is taken
at its value unless it is too long to convert, so nothing but the numerals of the line bounds them.
The range that an editor is given ends at the largest column there is: a numeral beyond it makes the
range run backwards.
-/

namespace VibeLens.Diagnostic

open Text

/-- The numerals from which the place of a trimmed line is taken. -/
def numerals (line : List Char) : List (List Char) :=
  match leftmost? bracketed? line with
  | some (row, column, _) => [row, column]
  | none => (leftmost? prose? line).toList

/-- All numerals of a line that are converted stay within a bound. -/
def Within (bound : Nat) (line : List Char) : Prop :=
  ∀ digits ∈ numerals line, digits.length ≤ numeralLimit → decimalValue digits ≤ bound

instance (bound : Nat) (line : List Char) : Decidable (Within bound line) :=
  inferInstanceAs (Decidable (∀ digits ∈ numerals line, _ → _))

theorem isNumeral_of_mem_numerals {line digits : List Char} (h : digits ∈ numerals line) :
    IsNumeral digits ∧ digits <:+: line := by
  unfold numerals at h
  split at h
  · rename_i row column rest found
    obtain ⟨start, suffix, read⟩ := exists_suffix_of_leftmost? found
    obtain ⟨split, isRow, isColumn⟩ := eq_of_bracketed? read
    simp only [List.mem_cons, List.not_mem_nil, or_false] at h
    rcases h with rfl | rfl
    · refine ⟨isRow, List.IsInfix.trans ⟨['['], ':' :: (column ++ ']' :: rest), ?_⟩ suffix.isInfix⟩
      rw [split]
      simp
    · refine ⟨isColumn, List.IsInfix.trans ⟨'[' :: (row ++ [':']), ']' :: rest, ?_⟩ suffix.isInfix⟩
      rw [split]
      simp
  · obtain ⟨start, suffix, read⟩ := exists_suffix_of_leftmost? (Option.mem_toList.mp h)
    obtain ⟨part, isNumeral⟩ := infix_of_prose? read
    exact ⟨isNumeral, part.trans suffix.isInfix⟩

theorem zeroBased_le_iff {digits : List Char} {bound : Nat} :
    zeroBased digits ≤ bound ↔
      (digits.length ≤ numeralLimit → decimalValue digits ≤ bound + 1) := by
  unfold zeroBased
  split
  · rename_i long
    constructor
    · intro _ short
      exact absurd short (Nat.not_le.mpr long)
    · intro _
      exact Nat.zero_le bound
  · rename_i short
    rw [Nat.sub_le_iff_le_add]
    exact ⟨fun low _ => low, fun low => low (Nat.not_lt.mp short)⟩

theorem coordinates_le_iff (line : List Char) (bound : Nat) :
    ((ofLine line).line ≤ bound ∧ (ofLine line).column ≤ bound) ↔ Within (bound + 1) line := by
  unfold Within numerals ofLine
  cases leftmost? bracketed? line with
  | some place =>
    obtain ⟨row, column, rest⟩ := place
    simp [zeroBased_le_iff]
  | none =>
    cases leftmost? prose? line with
    | some row => simp [zeroBased_le_iff]
    | none => simp

theorem wellFormed_iff (d : Diagnostic) :
    (Range.mk ⟨d.line, d.column⟩ ⟨d.line, endOfLine⟩).WellFormed ↔
      d.line ≤ endOfLine ∧ d.column ≤ endOfLine := by
  constructor
  · intro h
    exact ⟨h.start_line, h.start_column⟩
  · rintro ⟨line, column⟩
    exact ⟨.inr ⟨rfl, column⟩, line, column, line, le_rfl⟩

/-- The range of a diagnostic lies on one line, and an editor can take it exactly if no numeral that
places it goes beyond the columns there are. -/
theorem wellFormed_toEditor_iff (content : Content) :
    List.Forall₂
      (fun line d => ∃ range : Range,
        (d.toEditor.member? "range").bind Json.range? = some range ∧
        range.start = ⟨d.line, d.column⟩ ∧ range.stop = ⟨d.line, endOfLine⟩ ∧
        (∀ digits ∈ numerals (trim line), IsNumeral digits ∧ digits <:+: trim line) ∧
        (range.WellFormed ↔ Within (endOfLine + 1) (trim line)))
      content.inkedLines (locate content) := by
  rw [locate_eq_map]
  apply List.forall₂_map_right_iff.mpr
  apply List.forall₂_same.mpr
  intro line _
  refine ⟨_, range?_toEditor _, rfl, rfl, ?_, ?_⟩
  · intro digits mem
    exact isNumeral_of_mem_numerals mem
  · exact (wellFormed_iff _).trans (coordinates_le_iff _ _)

def farColumn : Content := .text "[1:2147483649] x".toList

/-- A column one beyond the last makes a range that runs backwards. -/
theorem toEditor_runs_backwards :
    ∃ d ∈ locate farColumn, ∃ range : Range,
      (d.toEditor.member? "range").bind Json.range? = some range ∧
        ¬ range.start ≤ range.stop ∧ endOfLine < range.start.column := by
  have located : locate farColumn = [⟨0, 2147483648, "x"⟩] := by decide +kernel
  rw [located]
  exact ⟨_, .head _, _, range?_toEditor _, by decide, by decide⟩

end VibeLens.Diagnostic
