set_option autoImplicit false

/-!
Finite maps as lists of pairs, in the order in which the keys were first put. A key is looked up
from the front.
-/

namespace VibeLens

abbrev Table (κ α : Type) := List (κ × α)

namespace Table

variable {κ α : Type} [DecidableEq κ]

def get? (t : Table κ α) (key : κ) : Option α :=
  match t with
  | [] => none
  | (k, a) :: rest => if k = key then some a else get? rest key

/-- Replaces the value of a key, or adds the key at the end. -/
def put (t : Table κ α) (key : κ) (value : α) : Table κ α :=
  match t with
  | [] => [(key, value)]
  | (k, a) :: rest => if k = key then (key, value) :: rest else (k, a) :: put rest key value

def erase (t : Table κ α) (key : κ) : Table κ α := t.filter fun m => m.1 ≠ key

def keys (t : Table κ α) : List κ := t.map Prod.fst

@[simp] theorem get?_nil (key : κ) : get? ([] : Table κ α) key = none := rfl

theorem get?_cons (k : κ) (a : α) (t : Table κ α) (key : κ) :
    get? ((k, a) :: t) key = if k = key then some a else get? t key := rfl

theorem mem_keys_iff {t : Table κ α} {key : κ} : key ∈ keys t ↔ (get? t key).isSome := by
  induction t with
  | nil => simp [keys]
  | cons m rest ih =>
    obtain ⟨k, a⟩ := m
    rw [get?_cons]
    by_cases same : k = key
    · simp [keys, same]
    · rw [if_neg same, ← ih]
      simp [keys, Ne.symm same]

theorem mem_of_get? {t : Table κ α} {key : κ} {a : α} (found : get? t key = some a) :
    (key, a) ∈ t := by
  induction t with
  | nil => cases found
  | cons m rest ih =>
    obtain ⟨k, b⟩ := m
    rw [get?_cons] at found
    split at found
    · subst_vars
      cases found
      exact .head _
    · exact .tail _ (ih found)

theorem keys_put (t : Table κ α) (key : κ) (value : α) :
    keys (put t key value) = if key ∈ keys t then keys t else keys t ++ [key] := by
  induction t with
  | nil => simp [put, keys]
  | cons m rest ih =>
    obtain ⟨k, a⟩ := m
    by_cases same : k = key
    · simp [put, keys, same]
    · have split : keys (put ((k, a) :: rest) key value) = k :: keys (put rest key value) := by
        simp [put, keys, same]
      have member : key ∈ keys ((k, a) :: rest) ↔ key ∈ keys rest := by
        simp [keys, Ne.symm same]
      rw [split, ih]
      simp only [member]
      split <;> rfl

theorem nodup_keys_put {t : Table κ α} (distinct : (keys t).Nodup) (key : κ) (value : α) :
    (keys (put t key value)).Nodup := by
  rw [keys_put]
  split
  · exact distinct
  · rename_i absent
    refine List.nodup_append.mpr ⟨distinct, List.nodup_cons.mpr ⟨nofun, List.nodup_nil⟩, ?_⟩
    intro k known other new same
    rw [List.mem_singleton] at new
    exact absent (new ▸ same ▸ known)

theorem nodup_keys_erase {t : Table κ α} (distinct : (keys t).Nodup) (key : κ) :
    (keys (erase t key)).Nodup := distinct.sublist (List.filter_sublist.map Prod.fst)

@[simp] theorem get?_put (t : Table κ α) (key other : κ) (value : α) :
    get? (put t key value) other = if key = other then some value else get? t other := by
  induction t with
  | nil => simp [put, get?_cons]
  | cons m rest ih =>
    obtain ⟨k, a⟩ := m
    simp only [put, get?_cons]
    split
    · subst_vars
      simp only [get?_cons]
      split <;> rfl
    · simp only [get?_cons, ih]
      split
      · subst_vars
        split
        · exact absurd ‹_› (by simp_all)
        · rfl
      · rfl

@[simp] theorem get?_erase (t : Table κ α) (key other : κ) :
    get? (erase t key) other = if key = other then none else get? t other := by
  induction t with
  | nil => simp [erase]
  | cons m rest ih =>
    obtain ⟨k, a⟩ := m
    simp only [erase] at ih
    by_cases hk : k = key
    · subst hk
      simp only [erase, List.filter_cons, ne_eq, not_true_eq_false, decide_false,
        Bool.false_eq_true, if_false, ih, get?_cons]
      split <;> rfl
    · simp only [erase, List.filter_cons, ne_eq, hk, not_false_eq_true, decide_true, if_true,
        get?_cons, ih]
      split
      · subst_vars
        simp [Ne.symm hk]
      · rfl

end Table

/-- Of keys that are all different each has the one value that stands beside it. -/
theorem lookup_eq_some_iff_mem {α : Type} {members : List (String × α)}
    (distinct : (members.map Prod.fst).Nodup) {key : String} {a : α} :
    members.lookup key = some a ↔ (key, a) ∈ members := by
  induction members with
  | nil => simp
  | cons m rest ih =>
    obtain ⟨fresh, distinct⟩ := List.nodup_cons.mp distinct
    rw [List.lookup_cons, List.mem_cons]
    cases same : key == m.1 with
    | true =>
      have same : key = m.1 := by simpa using same
      have notLater : (key, a) ∉ rest := fun member =>
        fresh (List.mem_map.mpr ⟨_, member, same⟩)
      rw [or_iff_left notLater, Option.some.injEq, Prod.ext_iff]
      exact ⟨fun value => ⟨same, value.symm⟩, fun both => both.2.symm⟩
    | false =>
      rw [ih distinct, or_iff_right]
      intro first
      exact (beq_eq_false_iff_ne.mp same) (congrArg Prod.fst first)

end VibeLens
