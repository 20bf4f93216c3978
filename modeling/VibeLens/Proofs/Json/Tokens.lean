import VibeLens.Proofs.Json.Reader

set_option autoImplicit false

/-!
The tokens of a value, and how they are put together again. What the reader has left open around a
value does not matter to it, so one statement covers a value at every depth.
-/

namespace VibeLens.Json

/-- Induction over a value: over the items of an array and the values of an object's members. -/
theorem value_induction {motive : Json → Prop} (null : motive null)
    (bool : ∀ b, motive (bool b)) (int : ∀ n, motive (int n)) (str : ∀ s, motive (str s))
    (arr : ∀ items, (∀ v ∈ items, motive v) → motive (arr items))
    (obj : ∀ members, (∀ m ∈ members, motive m.2) → motive (obj members)) :
    ∀ v, motive v
  | .null => null
  | .bool b => bool b
  | .int n => int n
  | .str s => str s
  | .arr items => arr items fun v _ => value_induction null bool int str arr obj v
  | .obj members => obj members fun m _ => value_induction null bool int str arr obj m.2
termination_by v => sizeOf v
decreasing_by
  · rename_i mem
    have := List.sizeOf_lt_of_mem mem
    simp only [Json.arr.sizeOf_spec]
    omega
  · rename_i mem
    have := List.sizeOf_lt_of_mem mem
    have : sizeOf m.2 < sizeOf m := by
      obtain ⟨key, v⟩ := m
      simp only [Prod.mk.sizeOf_spec]
      omega
    simp only [Json.obj.sizeOf_spec]
    omega

/-! ### The tokens of a value -/

def separated : List (List Token) → List Token
  | [] => []
  | [item] => item
  | item :: rest => item ++ .comma :: separated rest

@[simp] theorem separated_cons_cons (item next : List Token) (rest : List (List Token)) :
    separated (item :: next :: rest) = item ++ .comma :: separated (next :: rest) := rfl

theorem exists_separated_eq_append (item : List Token) (rest : List (List Token)) :
    ∃ behind, separated (item :: rest) = item ++ behind := by
  cases rest with
  | nil => exact ⟨[], (List.append_nil item).symm⟩
  | cons next rest => exact ⟨_, separated_cons_cons item next rest⟩

def memberTokens (key : String) (value : List Token) : List Token :=
  .scalar (.str key) :: .colon :: value

mutual

def tokens : Json → List Token
  | arr items => .openArray :: (separated (itemsTokens items) ++ [.closeArray])
  | obj members => .openObject :: (separated (membersTokens members) ++ [.closeObject])
  | v => [.scalar v]

def itemsTokens : List Json → List (List Token)
  | [] => []
  | v :: vs => v.tokens :: itemsTokens vs

def membersTokens : List (String × Json) → List (List Token)
  | [] => []
  | (key, v) :: ms => memberTokens key v.tokens :: membersTokens ms

end

theorem itemsTokens_eq_map (items : List Json) : itemsTokens items = items.map tokens := by
  induction items with
  | nil => rfl
  | cons v vs ih => rw [itemsTokens, ih, List.map_cons]

theorem membersTokens_eq_map (members : List (String × Json)) :
    membersTokens members = members.map fun m => memberTokens m.1 m.2.tokens := by
  induction members with
  | nil => rfl
  | cons m ms ih => rw [membersTokens, ih, List.map_cons]

theorem exists_tokens_eq_cons (v : Json) :
    ∃ t rest, v.tokens = t :: rest ∧ t ≠ .closeArray := by
  cases v
  all_goals exact ⟨_, _, rfl, nofun⟩

/-! ### Tokens put together -/

/-- The tokens of a value rebuild it, whatever is open around it. -/
def Rebuilt (v : Json) : Prop :=
  ∀ stack rest, value? stack (v.tokens ++ rest) = proceed? v stack rest

section Rebuilt

variable {stack : List Opened} {rest : List Token}

theorem value?_openArray {inside : List Token} (h : ∀ more, inside ≠ .closeArray :: more) :
    value? stack (.openArray :: inside) = value? (.array [] :: stack) inside := by
  cases inside with
  | nil => rfl
  | cons t more =>
    cases t with
    | closeArray => exact absurd rfl (h more)
    | _ => rfl

theorem value?_items {v : Json} {items before : List Json} (h : ∀ w ∈ v :: items, Rebuilt w) :
    value? (.array before :: stack)
        (separated (v.tokens :: items.map tokens) ++ .closeArray :: rest) =
      proceed? (.arr (before.reverse ++ v :: items)) stack rest := by
  induction items generalizing v before with
  | nil =>
    rw [List.map_nil, separated, h v List.mem_cons_self, proceed?, List.reverse_cons]
  | cons w items ih =>
    have later := @ih w (v :: before) fun u hu => h u (List.mem_cons_of_mem _ hu)
    rw [List.map_cons, separated_cons_cons, List.append_assoc, h v List.mem_cons_self,
      List.cons_append, proceed?, later, List.reverse_cons, List.append_assoc]
    rfl

theorem key?_members {m : String × Json} {members before : List (String × Json)}
    (h : ∀ n ∈ m :: members, Rebuilt n.2) :
    key? before stack
        (separated (memberTokens m.1 m.2.tokens ::
            members.map fun n => memberTokens n.1 n.2.tokens) ++ .closeObject :: rest) =
      proceed? (.obj (before.reverse ++ m :: members)) stack rest := by
  induction members generalizing m before with
  | nil =>
    rw [List.map_nil, separated, memberTokens, List.cons_append, List.cons_append, key?,
      h m List.mem_cons_self, proceed?, List.reverse_cons]
  | cons n members ih =>
    have later := @ih n (m :: before) fun u hu => h u (List.mem_cons_of_mem _ hu)
    rw [List.map_cons, separated_cons_cons, List.append_assoc, memberTokens, List.cons_append,
      List.cons_append, key?, h m List.mem_cons_self, List.cons_append, proceed?, later,
      List.reverse_cons, List.append_assoc]
    rfl

theorem rebuilt (v : Json) : Rebuilt v := by
  induction v using value_induction with
  | null => exact fun _ _ => rfl
  | bool b => exact fun _ _ => rfl
  | int n => exact fun _ _ => rfl
  | str s => exact fun _ _ => rfl
  | arr items ih =>
    intro stack rest
    rw [tokens, itemsTokens_eq_map, List.cons_append, List.append_assoc]
    cases items with
    | nil => rfl
    | cons v items =>
      obtain ⟨t, more, start, notClosed⟩ := exists_tokens_eq_cons v
      obtain ⟨behind, split⟩ := exists_separated_eq_append v.tokens (items.map tokens)
      rw [List.map_cons, value?_openArray]
      · exact value?_items ih
      · intro other same
        rw [split, start, List.cons_append, List.cons_append] at same
        exact notClosed (List.cons.inj same).1
  | obj members ih =>
    intro stack rest
    rw [tokens, membersTokens_eq_map, List.cons_append, List.append_assoc]
    cases members with
    | nil => rfl
    | cons m members =>
      obtain ⟨behind, split⟩ := exists_separated_eq_append (memberTokens m.1 m.2.tokens)
        (members.map fun n => memberTokens n.1 n.2.tokens)
      have opened : value? stack
          (.openObject :: (memberTokens m.1 m.2.tokens ++ behind ++ ([.closeObject] ++ rest))) =
        key? [] stack (memberTokens m.1 m.2.tokens ++ behind ++ ([.closeObject] ++ rest)) := rfl
      rw [← split] at opened
      rw [List.map_cons, opened]
      exact key?_members ih

end Rebuilt

end VibeLens.Json
