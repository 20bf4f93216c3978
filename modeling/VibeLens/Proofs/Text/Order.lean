set_option autoImplicit false

/-!
Texts in increasing order. Texts are compared character by character, from the front, and characters
by their numbers. Sorting things by a text that tells them apart brings them into strictly increasing
order.
-/

namespace VibeLens.Text

def codePoints (text : String) : List Nat := text.toList.map Char.toNat

theorem map_toNat_lt {first second : List Char} (h : first < second) :
    first.map Char.toNat < second.map Char.toNat := by
  induction h with
  | nil => exact .nil
  | rel before => exact .rel before
  | cons _ ih => exact .cons ih

theorem codePoints_lt {a b : String} (h : a < b) : codePoints a < codePoints b := map_toNat_lt h

variable {α : Type}

theorem pairwise_mergeSort_le (text : α → String) (list : List α) :
    (list.mergeSort fun a b => text a ≤ text b).Pairwise fun a b => text a ≤ text b := by
  have ordered : (list.mergeSort fun a b => text a ≤ text b).Pairwise
      fun a b => decide (text a ≤ text b) = true := by
    apply List.pairwise_mergeSort
    · intro a b c first second
      exact decide_eq_true (String.le_trans (of_decide_eq_true first) (of_decide_eq_true second))
    · intro a b
      simpa using String.le_total (text a) (text b)
  exact ordered.imp of_decide_eq_true

theorem pairwise_mergeSort_lt (text : α → String) {list : List α} (distinct : list.Nodup)
    (apart : ∀ a ∈ list, ∀ b ∈ list, text a = text b → a = b) :
    (list.mergeSort fun a b => text a ≤ text b).Pairwise fun a b => text a < text b := by
  have sortedDistinct : (list.mergeSort fun a b => text a ≤ text b).Nodup :=
    (List.mergeSort_perm _ _).nodup_iff.mpr distinct
  refine ((pairwise_mergeSort_le text list).and sortedDistinct).imp_of_mem ?_
  rintro a b inFirst inSecond ⟨le, different⟩
  apply String.not_le.mp
  intro back
  have same := apart a (List.mem_mergeSort.mp inFirst) b (List.mem_mergeSort.mp inSecond)
    (String.le_antisymm le back)
  exact different same

end VibeLens.Text
