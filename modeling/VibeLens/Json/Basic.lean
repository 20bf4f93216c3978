import VibeLens.Number.Word

set_option autoImplicit false

/-!
JSON values without fractions. The members of an object are a list in which every key stands once;
their order carries no meaning.
-/

namespace VibeLens

inductive Json where
  | null
  | bool (value : Bool)
  | int (value : Int)
  | str (value : String)
  | arr (items : List Json)
  | obj (members : List (String × Json))
  deriving Repr, Inhabited

namespace Json

def nat (n : Nat) : Json := .int n

mutual

/-- How many containers stand around the innermost value; an empty container counts as one. -/
def depth : Json → Nat
  | arr items => itemsDepth items + 1
  | obj members => membersDepth members + 1
  | _ => 0

def itemsDepth : List Json → Nat
  | [] => 0
  | v :: vs => max v.depth (itemsDepth vs)

def membersDepth : List (String × Json) → Nat
  | [] => 0
  | (_, v) :: ms => max v.depth (membersDepth ms)

end

mutual

def integersFit : Json → Bool
  | int n => Word.isSignedOrUnsigned n
  | arr items => itemsFit items
  | obj members => membersFit members
  | _ => true

def itemsFit : List Json → Bool
  | [] => true
  | v :: vs => v.integersFit && itemsFit vs

def membersFit : List (String × Json) → Bool
  | [] => true
  | (_, v) :: ms => v.integersFit && membersFit ms

end

theorem itemsFit_iff {items : List Json} :
    itemsFit items ↔ ∀ v ∈ items, v.integersFit := by
  induction items with
  | nil => simp [itemsFit]
  | cons v vs ih => rw [itemsFit, Bool.and_eq_true, ih, List.forall_mem_cons]

theorem itemsDepth_le_iff {items : List Json} {bound : Nat} :
    itemsDepth items ≤ bound ↔ ∀ v ∈ items, v.depth ≤ bound := by
  induction items with
  | nil => simp [itemsDepth]
  | cons v vs ih => rw [itemsDepth, Nat.max_le, ih, List.forall_mem_cons]

end Json
end VibeLens
