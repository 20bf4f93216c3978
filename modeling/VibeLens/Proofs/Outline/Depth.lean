import Mathlib.Data.List.Find
import Mathlib.Order.Bounds.Defs
import VibeLens.Outline.Scan

set_option autoImplicit false

/-!
Block structure read off the depths alone. Before each line a number of blocks is open. The block of
a line ends at the first line after which no more blocks are open than before it, and a definition
is open as long as that has not happened. Nothing here keeps a stack.
-/

namespace VibeLens.Outline

/-- How many blocks are open after a line. -/
def depthAfter (depth : Nat) (line : List Char) : Nat :=
  let opened := if opens (codePortion line) then depth + 1 else depth
  if closes (codePortion line) then opened - 1 else opened

/-- How many blocks are open before a line. -/
def depthAt (lines : List (List Char)) (i : Nat) : Nat := (lines.take i).foldl depthAfter 0

def definitionAt? (lines : List (List Char)) (i : Nat) : Option Definition :=
  lines[i]?.bind definition?

/-- Whether a definition stands on a line that can own others. -/
def isScopedAt (lines : List (List Char)) (i : Nat) : Bool :=
  (definitionAt? lines i).any (·.kind.isScoped)

/-- The line at which the block of a line ends. -/
def closingLine? (lines : List (List Char)) (i : Nat) : Option Nat :=
  (List.range' i (lines.length - i)).find? fun j => depthAt lines (j + 1) ≤ depthAt lines i

/-- Whether a definition that can own others is still open when the lines are over. -/
def isOpen (lines : List (List Char)) (i : Nat) : Bool :=
  isScopedAt lines i && (closingLine? lines i).isNone

/-- The nearest definition above a line that is still open before it. -/
def owner? (lines : List (List Char)) (i : Nat) : Option Nat :=
  (List.range i).reverse.find? (isOpen (lines.take i))

def lineEnd (lines : List (List Char)) (i : Nat) : Position := ⟨i, (lines[i]?.getD []).length⟩

/-! ### One more line -/

section Append

variable (lines : List (List Char)) (line : List Char)

theorem depthAt_append {i : Nat} (h : i ≤ lines.length) :
    depthAt (lines ++ [line]) i = depthAt lines i := by
  rw [depthAt, List.take_append_of_le_length h, depthAt]

theorem depthAt_append_length :
    depthAt (lines ++ [line]) (lines.length + 1) =
      depthAfter (depthAt lines lines.length) line := by
  have whole : (lines ++ [line]).take (lines.length + 1) = lines ++ [line] :=
    List.take_of_length_le (by simp)
  rw [depthAt, whole, List.foldl_append, depthAt, List.take_length]
  rfl

theorem definitionAt?_append {i : Nat} (h : i < lines.length) :
    definitionAt? (lines ++ [line]) i = definitionAt? lines i := by
  rw [definitionAt?, List.getElem?_append_left h, definitionAt?]

theorem definitionAt?_append_length :
    definitionAt? (lines ++ [line]) lines.length = definition? line := by
  simp [definitionAt?]

theorem closingLine?_append {i : Nat} (h : i ≤ lines.length) :
    closingLine? (lines ++ [line]) i =
      (closingLine? lines i).or
        (if depthAt (lines ++ [line]) (lines.length + 1) ≤ depthAt lines i
          then some lines.length else none) := by
  have split : List.range' i ((lines ++ [line]).length - i) =
      List.range' i (lines.length - i) ++ [lines.length] := by
    rw [List.length_append, List.length_singleton, Nat.sub_add_comm h, List.range'_concat,
      Nat.one_mul, Nat.add_sub_cancel' h]
  have old : (List.range' i (lines.length - i)).find?
        (fun j => depthAt (lines ++ [line]) (j + 1) ≤ depthAt (lines ++ [line]) i) =
      closingLine? lines i := by
    rw [closingLine?]
    apply List.find?_congr
    intro j hj
    have bound := (List.mem_range'_1.mp hj).2
    rw [depthAt_append lines line (by omega), depthAt_append lines line h]
  rw [closingLine?, split, List.find?_append, old, depthAt_append lines line h]
  simp only [List.find?_singleton, decide_eq_true_eq]

theorem isScopedAt_append {i : Nat} (h : i < lines.length) :
    isScopedAt (lines ++ [line]) i = isScopedAt lines i := by
  rw [isScopedAt, definitionAt?_append lines line h, isScopedAt]

theorem isOpen_append {i : Nat} (h : i < lines.length) :
    isOpen (lines ++ [line]) i =
      (isOpen lines i &&
        decide (depthAt lines i < depthAt (lines ++ [line]) (lines.length + 1))) := by
  rw [isOpen, isScopedAt_append lines line h, closingLine?_append lines line h.le, isOpen]
  cases closingLine? lines i with
  | some j => simp
  | none =>
    simp only [Option.none_or, Option.isNone_none, Bool.and_true]
    by_cases back : depthAt (lines ++ [line]) (lines.length + 1) ≤ depthAt lines i
    · simp [back]
    · simp [back, lt_of_not_ge back]

theorem isOpen_append_length :
    isOpen (lines ++ [line]) lines.length =
      ((definition? line).any (·.kind.isScoped) &&
        decide (depthAt lines lines.length <
          depthAt (lines ++ [line]) (lines.length + 1))) := by
  have none_before : closingLine? lines lines.length = none := by simp [closingLine?]
  rw [isOpen, isScopedAt, definitionAt?_append_length, closingLine?_append lines line le_rfl,
    none_before, Option.none_or]
  by_cases back : depthAt (lines ++ [line]) (lines.length + 1) ≤ depthAt lines lines.length
  · simp [back]
  · simp [back, lt_of_not_ge back]

theorem owner?_append {i : Nat} (h : i ≤ lines.length) :
    owner? (lines ++ [line]) i = owner? lines i := by
  rw [owner?, List.take_append_of_le_length h, owner?]

theorem lineEnd_append {i : Nat} (h : i < lines.length) :
    lineEnd (lines ++ [line]) i = lineEnd lines i := by
  rw [lineEnd, List.getElem?_append_left h, lineEnd]

theorem lineEnd_append_length :
    lineEnd (lines ++ [line]) lines.length = ⟨lines.length, line.length⟩ := by
  simp [lineEnd]

end Append

/-! ### Ends and owners as extremal lines -/

section Extremal

variable {lines : List (List Char)} {i j k : Nat}

theorem lt_length_of_isScopedAt (h : isScopedAt lines i) : i < lines.length := by
  by_contra beyond
  rw [isScopedAt, definitionAt?, List.getElem?_eq_none (by omega)] at h
  exact absurd h (by simp)

/-- After line `j` no more blocks are open than before line `i`. -/
def ReturnsAt (lines : List (List Char)) (i j : Nat) : Prop :=
  i ≤ j ∧ j < lines.length ∧ depthAt lines (j + 1) ≤ depthAt lines i

theorem closingLine?_eq_none_iff :
    closingLine? lines i = none ↔
      ∀ j, i ≤ j → j < lines.length → depthAt lines i < depthAt lines (j + 1) := by
  rw [closingLine?, List.find?_range'_eq_none]
  constructor
  · intro h j lower upper
    simpa using h j lower (by omega)
  · intro h j lower upper
    simpa using h j lower (by omega)

theorem closingLine?_eq_some_iff :
    closingLine? lines i = some j ↔ IsLeast {j | ReturnsAt lines i j} j := by
  rw [closingLine?, List.find?_range'_eq_some]
  constructor
  · rintro ⟨low, range, least⟩
    rw [List.mem_range'_1] at range
    refine ⟨⟨range.1, by omega, by simpa using low⟩, ?_⟩
    rintro m ⟨lower, -, back⟩
    by_contra before
    have stays := least m lower (by omega)
    simp only [Bool.not_eq_true', decide_eq_false_iff_not] at stays
    exact stays back
  · rintro ⟨⟨lower, upper, back⟩, least⟩
    refine ⟨by simpa using back, List.mem_range'_1.mpr ⟨lower, by omega⟩, ?_⟩
    intro m from_i before
    simp only [Bool.not_eq_true', decide_eq_false_iff_not]
    intro low
    have := least ⟨from_i, by omega, low⟩
    omega

/-- A definition on line `k` that can own others, whose block is open at least until line `i`. -/
def Encloses (lines : List (List Char)) (k i : Nat) : Prop :=
  k < i ∧ isScopedAt lines k ∧ ∀ m, k ≤ m → m < i → depthAt lines k < depthAt lines (m + 1)

theorem isOpen_iff : isOpen lines k ↔ Encloses lines k lines.length := by
  rw [isOpen, Bool.and_eq_true, Option.isNone_iff_eq_none, closingLine?_eq_none_iff]
  constructor
  · rintro ⟨owning, stays⟩
    exact ⟨lt_length_of_isScopedAt owning, owning, stays⟩
  · rintro ⟨-, owning, stays⟩
    exact ⟨owning, stays⟩

theorem Encloses.depth_lt (h : Encloses lines k i) (after : k < j) (upto : j ≤ i) :
    depthAt lines k < depthAt lines j := by
  obtain ⟨m, rfl⟩ : ∃ m, j = m + 1 := ⟨j - 1, by omega⟩
  exact h.2.2 m (by omega) (by omega)

theorem depthAt_take (h : j ≤ i) : depthAt (lines.take i) j = depthAt lines j := by
  rw [depthAt, List.take_take, Nat.min_eq_left h, depthAt]

theorem encloses_take_iff :
    Encloses (lines.take i) k i ↔ Encloses lines k i := by
  simp only [Encloses]
  refine and_congr_right fun before => ?_
  have same : isScopedAt (lines.take i) k = isScopedAt lines k := by
    rw [isScopedAt, definitionAt?, List.getElem?_take_of_lt before, isScopedAt, definitionAt?]
  rw [same, depthAt_take before.le]
  refine and_congr_right fun _ => forall_congr' fun m => ?_
  refine imp_congr_right fun _ => imp_congr_right fun upper => ?_
  rw [depthAt_take upper]

theorem isOpen_take_iff (h : i ≤ lines.length) :
    isOpen (lines.take i) k ↔ Encloses lines k i := by
  rw [isOpen_iff, List.length_take, Nat.min_eq_left h, encloses_take_iff]

theorem owner?_eq_none_iff (h : i ≤ lines.length) :
    owner? lines i = none ↔ ∀ k, ¬ Encloses lines k i := by
  rw [owner?, List.find?_eq_none]
  constructor
  · intro none_open k encloses
    exact none_open k (by simpa using encloses.1) ((isOpen_take_iff h).mpr encloses)
  · intro none_encloses k _ stays
    exact none_encloses k ((isOpen_take_iff h).mp stays)

theorem find?_reverse_range_eq_some_iff {p : Nat → Bool} :
    (List.range i).reverse.find? p = some k ↔ IsGreatest {k | k < i ∧ p k} k := by
  induction i with
  | zero => simp [IsGreatest]
  | succ i ih =>
    rw [List.range_succ, List.reverse_append, List.reverse_singleton, List.singleton_append,
      List.find?_cons]
    cases here : p i with
    | true =>
      simp only [Option.some.injEq]
      constructor
      · rintro rfl
        exact ⟨⟨by omega, here⟩, fun m hm => by have := hm.1; omega⟩
      · rintro ⟨⟨below, -⟩, greatest⟩
        have := greatest ⟨Nat.lt_succ_self i, here⟩
        omega
    | false =>
      have same : {k | k < i + 1 ∧ p k} = {k | k < i ∧ p k} := by
        ext m
        simp only [Set.mem_ofPred_eq]
        refine and_congr_left fun hm => ⟨fun below => ?_, fun below => by omega⟩
        have : m ≠ i := fun eq => by simp [eq, here] at hm
        omega
      rw [same]
      exact ih

theorem owner?_eq_some_iff (h : i ≤ lines.length) :
    owner? lines i = some k ↔ IsGreatest {k | Encloses lines k i} k := by
  have same : {k | k < i ∧ isOpen (lines.take i) k} = {k | Encloses lines k i} := by
    ext m
    simp only [Set.mem_ofPred_eq, isOpen_take_iff h, and_iff_right_iff_imp]
    exact fun encloses => encloses.1
  rw [owner?, find?_reverse_range_eq_some_iff, same]

end Extremal

end VibeLens.Outline
