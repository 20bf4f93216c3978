import Mathlib.Data.List.Induction
import Mathlib.Data.List.TakeWhile
import Mathlib.Data.Nat.Digits.Defs
import VibeLens.Text.Digit

set_option autoImplicit false

/-!
Runs at the front of a text: all characters up to the first that is not of a kind. A run does not
reach over a character that stops it, so what stands behind such a character has no part in it. A run
of digits writes a number.
-/

namespace VibeLens.Text

variable {p : Char → Bool} {run rest : List Char}

theorem takeWhile_append_of_stop (front : List Char) (stop : ∀ c ∈ rest.head?, p c = false) :
    (front ++ rest).takeWhile p = front.takeWhile p := by
  induction front with
  | nil =>
    cases rest with
    | nil => rfl
    | cons c rest => exact List.takeWhile_cons_of_neg (by simp [stop c rfl])
  | cons c front ih => by_cases here : p c <;> simp [here, ih]

theorem dropWhile_append_of_stop (front : List Char) (stop : ∀ c ∈ rest.head?, p c = false) :
    (front ++ rest).dropWhile p = front.dropWhile p ++ rest := by
  induction front with
  | nil =>
    cases rest with
    | nil => rfl
    | cons c rest => exact List.dropWhile_cons_of_neg (by simp [stop c rfl])
  | cons c front ih => by_cases here : p c <;> simp [here, ih]

theorem takeWhile_append_eq (all : ∀ c ∈ run, p c) (stop : ∀ c ∈ rest.head?, p c = false) :
    (run ++ rest).takeWhile p = run := by
  rw [takeWhile_append_of_stop run stop, List.takeWhile_eq_self_iff.mpr all]

theorem dropWhile_append_eq (all : ∀ c ∈ run, p c) (stop : ∀ c ∈ rest.head?, p c = false) :
    (run ++ rest).dropWhile p = rest := by
  rw [dropWhile_append_of_stop run stop, List.dropWhile_eq_nil_iff.mpr all, List.nil_append]

theorem exists_run (p : Char → Bool) (text : List Char) :
    ∃ run, (∀ c ∈ run, p c) ∧ text = run ++ text.dropWhile p :=
  ⟨text.takeWhile p, fun _ hc => List.mem_takeWhile_imp hc,
    List.takeWhile_append_dropWhile.symm⟩

theorem stop_dropWhile (text : List Char) : ∀ c ∈ (text.dropWhile p).head?, p c = false := by
  intro c head
  have found := List.head?_dropWhile_not p text
  rw [Option.mem_def.mp head] at found
  simpa using found

/-! ### Numerals -/

theorem decimalValue_concat (digits : List Char) (c : Char) :
    decimalValue (digits ++ [c]) = 10 * decimalValue digits + digitValue c := by
  rw [decimalValue, List.foldl_append]
  rfl

/-- The last digit counts once, and each one before it ten times as much as the next. -/
theorem decimalValue_eq_ofDigits (digits : List Char) :
    decimalValue digits = Nat.ofDigits 10 (digits.reverse.map digitValue) := by
  induction digits using List.reverseRecOn with
  | nil => rfl
  | append_singleton digits c ih =>
    rw [decimalValue_concat, ih, List.reverse_append, List.reverse_singleton,
      List.singleton_append, List.map_cons, Nat.ofDigits_cons, Nat.add_comm]

theorem digitValue_digitChar {n : Nat} (h : n < 10) : digitValue n.digitChar = n :=
  Nat.toNat_digitChar_sub_48_of_lt_ten h

theorem decimalValue_toDigits (n : Nat) : decimalValue (Nat.toDigits 10 n) = n := by
  induction n using Nat.strongRecOn with
  | ind n ih =>
    rw [Nat.toDigits_eq_if (by decide)]
    split
    · rename_i small
      rw [← List.nil_append [n.digitChar], decimalValue_concat, digitValue_digitChar small]
      exact Nat.zero_add n
    · rw [decimalValue_concat, ih _ (by omega), digitValue_digitChar (by omega)]
      omega

theorem isDigit_of_mem_toDigits {c : Char} {n : Nat} (h : c ∈ Nat.toDigits 10 n) : isDigit c :=
  Nat.isDigit_of_mem_toDigits (by decide) (by decide) h

end VibeLens.Text
