import Mathlib.Data.List.Basic
import VibeLens.Datum.Record

set_option autoImplicit false

/-!
When a verdict is a value: every reader of data accepts exactly if its parts do, and then the value is
made of the values of the parts. Nothing here looks at faults.
-/

namespace VibeLens

namespace Verdict

variable {α β : Type}

@[simp] theorem fault_ne_valid (cause : Cause) (a : α) : (fault cause : Verdict α) ≠ valid a := nofun

@[simp] theorem map_eq_valid_iff {f : α → β} {v : Verdict α} {b : β} :
    v.map f = valid b ↔ ∃ a, v = valid a ∧ f a = b := by
  cases v <;> simp [map]

@[simp] theorem app_eq_valid_iff {v : Verdict (α → β)} {w : Verdict α} {b : β} :
    v.app w = valid b ↔ ∃ f a, v = valid f ∧ w = valid a ∧ f a = b := by
  cases v <;> cases w <;> simp [app]

@[simp] theorem andThen_eq_valid_iff {v : Verdict α} {check : α → Verdict β} {b : β} :
    v.andThen check = valid b ↔ ∃ a, v = valid a ∧ check a = valid b := by
  cases v <;> simp [andThen]

@[simp] theorem under_eq_valid_iff {step : Step} {v : Verdict α} {a : α} :
    v.under step = valid a ↔ v = valid a := by
  cases v <;> simp [under]

@[simp] theorem alongside_eq_valid_iff {v : Verdict α} {more : List Fault} {a : α} :
    v.alongside more = valid a ↔ v = valid a ∧ more = [] := by
  cases v <;> cases more <;> simp [alongside]

theorem collectFrom_eq_valid_iff {n : Nat} {vs : List (Verdict α)} {as : List α} :
    collectFrom n vs = valid as ↔ vs = as.map valid := by
  induction vs generalizing n as with
  | nil =>
    cases as
    · exact iff_of_true rfl rfl
    · exact iff_of_false nofun nofun
  | cons v vs ih =>
    simp only [collectFrom, app_eq_valid_iff, map_eq_valid_iff, under_eq_valid_iff, ih]
    constructor
    · rintro ⟨_, rest, ⟨a, rfl, rfl⟩, rfl, rfl⟩
      rfl
    · intro same
      cases as with
      | nil => cases same
      | cons a rest =>
        obtain ⟨first, later⟩ := List.cons.inj same
        exact ⟨_, rest, ⟨a, first, rfl⟩, later, rfl⟩

@[simp] theorem collect_eq_valid_iff {vs : List (Verdict α)} {as : List α} :
    collect vs = valid as ↔ vs = as.map valid := collectFrom_eq_valid_iff

end Verdict

namespace Datum

variable {α : Type} {members : List (String × Datum)} {key : String} {read : Datum → Verdict α}
  {a : α}

@[simp] theorem record_eq_valid_iff {name : String} {read : List (String × Datum) → Verdict α}
    {d : Datum} :
    record name read d = .valid a ↔ ∃ members, d = .table members ∧ read members = .valid a := by
  cases d <;> simp [record]

@[simp] theorem required_eq_valid_iff :
    required members key read = .valid a ↔ ∃ d, members.lookup key = some d ∧ read d = .valid a := by
  unfold required
  cases members.lookup key <;> simp

@[simp] theorem optional_eq_valid_iff {default : α} :
    optional members key default read = .valid a ↔
      (members.lookup key = none ∧ default = a) ∨
        ∃ d, members.lookup key = some d ∧ read d = .valid a := by
  unfold optional
  cases members.lookup key <;> simp

/-- There are no faults of unknown keys exactly if every key is known. -/
theorem unknownKeys_eq_nil_iff {known : List String} :
    unknownKeys known members = [] ↔ ∀ m ∈ members, m.1 ∈ known := by
  simp [unknownKeys, List.filter_eq_nil_iff]

@[simp] theorem listOf_eq_valid_iff {as : List α} {d : Datum} :
    listOf read d = .valid as ↔ ∃ items, d = .list items ∧ items.map read = as.map .valid := by
  cases d <;> simp [listOf]

@[simp] theorem string_eq_valid_iff {d : Datum} {s : String} :
    string d = .valid s ↔ d = .str s := by
  cases d <;> simp [string]

theorem natural_int (n : Nat) : natural (.int n) = .valid n := by
  simp [natural, integer, Verdict.andThen]

end Datum

/-- A symbol is read field by field; its children are read as a list of symbols. -/
theorem Symbol.ofDatum_table (members : List (String × Datum)) :
    Symbol.ofDatum (.table members) =
      (((((Verdict.valid Symbol.mk).app (Datum.required members "name" Datum.string)).app
        (Datum.required members "kind" Kind.ofDatum)).app
        (Datum.required members "start" Position.ofDatum)).app
        (Datum.required members "end" Position.ofDatum)).app
        (Datum.optional members "children" [] (Datum.listOf Symbol.ofDatum)) := by
  have items (l : List Datum) :
      (l.attach.map fun item => Symbol.ofDatum item.1) = l.map Symbol.ofDatum :=
    List.attach_map_val
  rw [Symbol.ofDatum]
  congr 1
  unfold Datum.optional
  split
  · rename_i missing
    rw [missing]
  · rename_i inside found
    rw [found]
    simp only [Datum.listOf, ← items]
  · rename_i other notList found
    rw [found]
    cases other with
    | list inside => exact absurd rfl (notList inside)
    | _ => rfl

end VibeLens
