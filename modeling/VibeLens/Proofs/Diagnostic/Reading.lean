import Mathlib.Data.List.TakeWhile
import Mathlib.Data.Option.Basic
import VibeLens.Diagnostic.Locate

set_option autoImplicit false

/-!
What the readers of a trimmed line have found when they succeed: the text that was read, in its
parts, and what is left behind it.
-/

namespace VibeLens.Diagnostic

open Text

structure IsNumeral (digits : List Char) : Prop where
  ne_nil : digits ≠ []
  digits : ∀ c ∈ digits, isDigit c

variable {α : Type} {text row column digits rest : List Char}

theorem exists_suffix_of_leftmost? {read : List Char → Option α} {a : α}
    (h : leftmost? read text = some a) : ∃ start, start <:+ text ∧ read start = some a := by
  fun_induction leftmost? read text with
  | case1 => exact ⟨[], List.suffix_rfl, h⟩
  | case2 c rest b found =>
    cases h
    exact ⟨c :: rest, List.suffix_rfl, found⟩
  | case3 c rest missed ih =>
    obtain ⟨start, suffix, found⟩ := ih h
    exact ⟨start, suffix.trans (List.suffix_cons c rest), found⟩

theorem eq_cons_of_after? {c : Char} (h : after? c text = some rest) : text = c :: rest := by
  cases text with
  | nil => cases h
  | cons d tail =>
    rw [after?] at h
    split at h
    · rename_i same
      rw [same, Option.some.inj h]
    · cases h

theorem eq_append_of_digits? (h : digits? text = some (digits, rest)) :
    text = digits ++ rest ∧ IsNumeral digits := by
  simp only [digits?] at h
  split at h
  · cases h
  · rename_i nonempty
    cases h
    refine ⟨List.takeWhile_append_dropWhile.symm, ?_, ?_⟩
    · intro empty
      exact nonempty (List.isEmpty_iff.mpr empty)
    · intro c hc
      exact List.mem_takeWhile_imp hc

theorem eq_of_bracketed? (h : bracketed? text = some (row, column, rest)) :
    text = '[' :: (row ++ ':' :: (column ++ ']' :: rest)) ∧ IsNumeral row ∧ IsNumeral column := by
  simp only [bracketed?, bind, Option.bind_eq_some_iff, pure] at h
  obtain ⟨opened, bracket, ⟨row, behindRow⟩, first, h⟩ := h
  obtain ⟨separated, colon, ⟨column, behindColumn⟩, second, closed, closing, found⟩ := h
  cases found
  obtain ⟨rowText, isRow⟩ := eq_append_of_digits? first
  obtain ⟨columnText, isColumn⟩ := eq_append_of_digits? second
  refine ⟨?_, isRow, isColumn⟩
  dsimp only at colon closing ⊢
  rw [eq_cons_of_after? bracket, rowText, eq_cons_of_after? colon, columnText,
    eq_cons_of_after? closing]

theorem suffix_of_spelled? {letters : List (List Char)} (h : spelled? letters text = some rest) :
    rest <:+ text := by
  fun_induction spelled? letters text with
  | case1 text =>
    cases h
    exact List.suffix_rfl
  | case2 set more c text _ ih => exact (ih h).trans (List.suffix_cons c text)
  | case3 => cases h
  | case4 => cases h

theorem infix_of_prose? (h : prose? text = some row) : row <:+: text ∧ IsNumeral row := by
  simp only [prose?, bind, Option.bind_eq_some_iff, pure] at h
  obtain ⟨behind, word, -, -, ⟨digits, after⟩, number, found⟩ := h
  cases found
  obtain ⟨split, isNumeral⟩ := eq_append_of_digits? number
  refine ⟨?_, isNumeral⟩
  have numeral : digits <+: skipBlanks behind := ⟨after, split.symm⟩
  apply numeral.isInfix.trans
  apply List.IsSuffix.isInfix
  exact (List.dropWhile_suffix isBlank).trans (suffix_of_spelled? word)

end VibeLens.Diagnostic
