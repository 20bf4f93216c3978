import Mathlib.Data.List.DropRight
import VibeLens.Proofs.Text.Runs
import VibeLens.Text.Blank

set_option autoImplicit false

/-!
Trimmed text. Something is left of a line exactly if it holds a character that is not blank, and what
is left then starts and ends with such a character. Trimming the end of trimmed text leaves it alone,
so from a part at its end only blanks in front can go.
-/

namespace VibeLens.Text

/-- Whether a line holds more than blanks. -/
def hasInk (line : List Char) : Bool := line.any (!isBlank ·)

structure IsTrimmed (text : List Char) : Prop where
  ne_nil : text ≠ []
  head : ∀ c ∈ text.head?, isBlank c = false
  last : ∀ c ∈ text.getLast?, isBlank c = false

variable {line text rest : List Char}

theorem trim_eq_rdropWhile (line : List Char) :
    trim line = (skipBlanks line).rdropWhile isBlank := rfl

theorem isBlank_head?_skipBlanks (line : List Char) :
    ∀ c ∈ (skipBlanks line).head?, isBlank c = false := stop_dropWhile line

theorem hasInk_eq_false_iff : hasInk line = false ↔ ∀ c ∈ line, isBlank c := by
  simp [hasInk]

theorem trim_eq_nil_iff : trim line = [] ↔ hasInk line = false := by
  rw [hasInk_eq_false_iff, trim_eq_rdropWhile, List.rdropWhile_eq_nil_iff]
  constructor
  · intro blank
    apply List.dropWhile_eq_nil_iff.mp
    cases left : skipBlanks line with
    | nil => exact left
    | cons c rest =>
      have ink := isBlank_head?_skipBlanks line c
      rw [left] at ink blank
      exact absurd (blank c List.mem_cons_self) (by simp [ink rfl])
  · intro blank c hc
    exact blank c ((List.dropWhile_suffix isBlank).subset hc)

theorem trim_prefix_skipBlanks (line : List Char) : trim line <+: skipBlanks line :=
  List.rdropWhile_prefix isBlank _

theorem mem_of_mem_trim {c : Char} (h : c ∈ trim line) : c ∈ line :=
  (List.dropWhile_suffix isBlank).subset ((trim_prefix_skipBlanks line).subset h)

theorem isTrimmed_trim (h : hasInk line) : IsTrimmed (trim line) := by
  have nonempty : trim line ≠ [] := by
    intro empty
    rw [trim_eq_nil_iff, h] at empty
    cases empty
  refine ⟨nonempty, ?_, ?_⟩
  · intro c head
    obtain ⟨blanks, split⟩ := trim_prefix_skipBlanks line
    apply isBlank_head?_skipBlanks line
    rw [← split, List.head?_append, Option.mem_def.mp head, Option.some_or]
    rfl
  · intro c last
    have ink := List.rdropWhile_last_not isBlank (skipBlanks line) nonempty
    rw [List.getLast?_eq_some_getLast nonempty] at last
    rw [← Option.some.inj last]
    exact eq_false_of_ne_true ink

theorem IsTrimmed.getLast?_of_suffix (h : IsTrimmed text) (suffix : rest <:+ text) :
    ∀ c ∈ rest.getLast?, isBlank c = false := by
  intro c last
  apply h.last
  obtain ⟨front, rfl⟩ := suffix
  rw [List.getLast?_append, Option.mem_def.mp last, Option.some_or]
  rfl

theorem IsTrimmed.trim_eq_skipBlanks (h : IsTrimmed text) (suffix : rest <:+ text) :
    trim rest = skipBlanks rest := by
  apply List.rdropWhile_eq_self_iff.mpr
  intro nonempty
  have part : skipBlanks rest <:+ text := (List.dropWhile_suffix isBlank).trans suffix
  have ink := h.getLast?_of_suffix part
  simpa using ink _ (List.getLast?_eq_some_getLast nonempty)

theorem IsTrimmed.trim_suffix (h : IsTrimmed text) (suffix : rest <:+ text) :
    trim rest <:+ text := by
  rw [h.trim_eq_skipBlanks suffix]
  exact (List.dropWhile_suffix isBlank).trans suffix

theorem IsTrimmed.append_skipBlanks (h : IsTrimmed text) (front middle : List Char)
    (ink : ∀ c ∈ (middle ++ text).head?, isBlank c = false) :
    IsTrimmed (skipBlanks front ++ (middle ++ text)) := by
  refine ⟨by simp [h.ne_nil], ?_, ?_⟩
  · intro c head
    cases left : skipBlanks front with
    | nil =>
      rw [left, List.nil_append] at head
      exact ink c head
    | cons d rest =>
      apply isBlank_head?_skipBlanks front
      rw [left] at head ⊢
      exact head
  · intro c last
    apply h.last
    rwa [← List.append_assoc, List.getLast?_append_of_ne_nil _ h.ne_nil] at last

theorem exists_eq_append_trim (line : List Char) :
    ∃ before behind, line = before ++ (trim line ++ behind) ∧ (∀ c ∈ before, isBlank c) ∧
      ∀ c ∈ behind, isBlank c := by
  refine ⟨line.takeWhile isBlank, (skipBlanks line).rtakeWhile isBlank, ?_,
    fun c hc => List.mem_takeWhile_imp hc, fun c hc => List.mem_rtakeWhile_imp hc⟩
  rw [trim_eq_rdropWhile, List.rdropWhile_append_rtakeWhile]
  exact List.takeWhile_append_dropWhile.symm

theorem IsTrimmed.trim_between (h : IsTrimmed text) (before behind : List Char)
    (blankBefore : ∀ c ∈ before, isBlank c) (blankBehind : ∀ c ∈ behind, isBlank c) :
    trim (before ++ (text ++ behind)) = text := by
  have starts : skipBlanks (text ++ behind) = text ++ behind := by
    cases text with
    | nil => exact absurd rfl h.ne_nil
    | cons c rest => exact List.dropWhile_cons_of_neg (by simp [h.head c rfl])
  have ends : text.rdropWhile isBlank = text := by
    apply List.rdropWhile_eq_self_iff.mpr
    intro nonempty
    simpa using h.last _ (List.getLast?_eq_some_getLast nonempty)
  have back : ∀ c ∈ behind.reverse, isBlank c := fun c hc => blankBehind c (List.mem_reverse.mp hc)
  have skipped : skipBlanks (before ++ (text ++ behind)) = text ++ behind := by
    rw [skipBlanks, trimStartBy, List.dropWhile_append_of_pos blankBefore]
    exact starts
  rw [trim_eq_rdropWhile, skipped, List.rdropWhile, List.reverse_append,
    List.dropWhile_append_of_pos back, ← List.rdropWhile, ends]

end VibeLens.Text
