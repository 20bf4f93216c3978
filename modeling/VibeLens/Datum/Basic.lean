import VibeLens.Json.Basic
import VibeLens.Number.Double

set_option autoImplicit false

/-!
Data as it arrives, before anything is known about its shape. The members of a table are a list in
which every key stands once.
-/

namespace VibeLens

inductive Datum where
  | null
  | bool (value : Bool)
  | int (value : Int)
  | float (value : Double)
  | str (value : String)
  /-- A date or a time, which no record has a use for. -/
  | moment
  | list (items : List Datum)
  | table (members : List (String × Datum))
  deriving Repr, Inhabited

namespace Datum

theorem sizeOf_lookup_lt {members : List (String × Datum)} {key : String} {d : Datum}
    (h : members.lookup key = some d) : sizeOf d < sizeOf (table members) := by
  have hm : sizeOf d < sizeOf members := by
    induction members with
    | nil => simp at h
    | cons m ms ih =>
      obtain ⟨k, v⟩ := m
      rw [List.lookup_cons] at h
      split at h
      · cases h
        simp
        omega
      · have := ih h
        simp
        omega
  simp
  omega

theorem sizeOf_item_lt {items : List Datum} {d : Datum} (h : d ∈ items) :
    sizeOf d < sizeOf (list items) := by
  have := List.sizeOf_lt_of_mem h
  simp
  omega

mutual

def ofJson : Json → Datum
  | .null => null
  | .bool b => bool b
  | .int n => int n
  | .str s => str s
  | .arr items => list (ofItems items)
  | .obj members => table (ofMembers members)

def ofItems : List Json → List Datum
  | [] => []
  | v :: vs => ofJson v :: ofItems vs

def ofMembers : List (String × Json) → List (String × Datum)
  | [] => []
  | (key, v) :: ms => (key, ofJson v) :: ofMembers ms

end

end Datum
end VibeLens
