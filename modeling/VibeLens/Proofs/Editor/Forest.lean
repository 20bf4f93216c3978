import VibeLens.Proofs.Editor.Range
import VibeLens.Proofs.Json.Alike
import VibeLens.Proofs.Outline.Forest

set_option autoImplicit false

/-!
Forests of symbols as an editor reads them off the values it is given. The reader looks members up by
their keys, so that a text, which has them in the order of their keys, shows it the same forest as the
value that was printed.
-/

namespace VibeLens

def Kind.ofEditorCode? (code : Nat) : Option Kind := all.find? (·.editorCode = code)

@[simp] theorem Kind.ofEditorCode?_editorCode (kind : Kind) :
    ofEditorCode? kind.editorCode = some kind := by
  cases kind <;> rfl

namespace Json

def string? : Json → Option String
  | str text => some text
  | _ => none

mutual

def symbol? : Json → Option Symbol
  | obj members => do
    let name ← ((obj members).member? "name").bind string?
    let code ← ((obj members).member? "kind").bind natural?
    let kind ← Kind.ofEditorCode? code
    let range ← ((obj members).member? "range").bind range?
    let children ← childForest? members
    return ⟨name, kind, range.start, range.stop, children⟩
  | _ => none

def forest? : Json → Option (List Symbol)
  | arr items => symbols? items
  | _ => none

def symbols? : List Json → Option (List Symbol)
  | [] => some []
  | v :: vs => do
    let s ← v.symbol?
    let rest ← symbols? vs
    return s :: rest

def childForest? : List (String × Json) → Option (List Symbol)
  | [] => none
  | (key, v) :: members => if "children" = key then v.forest? else childForest? members

end

theorem childForest?_eq (members : List (String × Json)) :
    childForest? members = ((obj members).member? "children").bind forest? := by
  induction members with
  | nil => rfl
  | cons m members ih =>
    obtain ⟨key, v⟩ := m
    rw [childForest?, member?, List.lookup_cons]
    by_cases here : "children" = key
    · simp [here]
    · rw [if_neg here, ih, beq_eq_false_iff_ne.mpr here]
      rfl

theorem symbol?_obj (members : List (String × Json)) :
    symbol? (obj members) = do
      let name ← ((obj members).member? "name").bind string?
      let code ← ((obj members).member? "kind").bind natural?
      let kind ← Kind.ofEditorCode? code
      let range ← ((obj members).member? "range").bind range?
      let children ← ((obj members).member? "children").bind forest?
      return ⟨name, kind, range.start, range.stop, children⟩ := by
  rw [symbol?, childForest?_eq]

/-! ### The order of members does not matter -/

section Canonical

variable {v w : Json}

theorem keyed_of_member? (keyed : v.keyed) {key : String} (found : v.member? key = some w) :
    w.keyed := by
  cases v with
  | obj members =>
    obtain ⟨distinct, values⟩ := keyed_obj_iff.mp keyed
    exact values _ ((lookup_eq_some_iff_mem distinct).mp found)
  | _ => cases found

theorem member?_canonical (keyed : v.keyed) (key : String) :
    v.canonical.member? key = (v.member? key).map canonical := by
  cases v with
  | obj members =>
    have distinct := (keyed_obj_iff.mp keyed).1
    rw [canonical, member?, member?, canonicalMembers_eq_map, sortMembers_map, lookup_map,
      lookup_sortMembers distinct]
  | _ => rfl

/-- A member is read alike if the reader of its value does not see the order of members. -/
theorem bind_member?_canonical {α : Type} {read : Json → Option α} (keyed : v.keyed) (key : String)
    (blind : ∀ w, v.member? key = some w → read w.canonical = read w) :
    (v.canonical.member? key).bind read = (v.member? key).bind read := by
  rw [member?_canonical keyed, Option.bind_map]
  cases found : v.member? key with
  | none => rfl
  | some w => exact blind w found

theorem string?_canonical (v : Json) : v.canonical.string? = v.string? := by
  cases v <;> rfl

theorem natural?_canonical (v : Json) : v.canonical.natural? = v.natural? := by
  cases v <;> rfl

theorem position?_eq (v : Json) : v.position? =
    ((v.member? "line").bind natural?).bind fun line =>
      ((v.member? "character").bind natural?).map fun column => ⟨line, column⟩ := by
  simp only [position?, bind, Option.bind_assoc, pure, Option.map_eq_bind, Function.comp_def]

theorem position?_canonical (keyed : v.keyed) : v.canonical.position? = v.position? := by
  rw [position?_eq, position?_eq, bind_member?_canonical keyed _ fun w _ => natural?_canonical w,
    bind_member?_canonical keyed _ fun w _ => natural?_canonical w]

theorem range?_eq (v : Json) : v.range? =
    ((v.member? "start").bind position?).bind fun start =>
      ((v.member? "end").bind position?).map fun stop => ⟨start, stop⟩ := by
  simp only [range?, bind, Option.bind_assoc, pure, Option.map_eq_bind, Function.comp_def]

theorem range?_canonical (keyed : v.keyed) : v.canonical.range? = v.range? := by
  have position (key : String) :
      (v.canonical.member? key).bind position? = (v.member? key).bind position? :=
    bind_member?_canonical keyed key fun w found => position?_canonical (keyed_of_member? keyed found)
  rw [range?_eq, range?_eq, position, position]

theorem symbols?_map_canonical {items : List Json}
    (blind : ∀ v ∈ items, v.canonical.symbol? = v.symbol?) :
    symbols? (items.map canonical) = symbols? items := by
  induction items with
  | nil => rfl
  | cons v vs ih =>
    obtain ⟨first, later⟩ := List.forall_mem_cons.mp blind
    rw [List.map_cons, symbols?, symbols?, first, ih later]

/-- Symbols and forests read each other at the level below, so both are shown at once. -/
theorem read_canonical (v : Json) :
    v.keyed → v.canonical.symbol? = v.symbol? ∧ v.canonical.forest? = v.forest? := by
  induction v using value_induction with
  | arr items ih =>
    intro keyed
    have blind : ∀ v ∈ items, v.canonical.symbol? = v.symbol? := fun v member =>
      (ih v member (itemsKeyed_iff.mp keyed v member)).1
    rw [canonical, canonicalItems_eq_map, forest?, forest?, symbols?_map_canonical blind]
    exact ⟨rfl, rfl⟩
  | obj members ih =>
    intro keyed
    obtain ⟨distinct, values⟩ := keyed_obj_iff.mp keyed
    have name := bind_member?_canonical keyed "name" fun w _ => string?_canonical w
    have code := bind_member?_canonical keyed "kind" fun w _ => natural?_canonical w
    have range := bind_member?_canonical keyed "range" fun w found =>
      range?_canonical (keyed_of_member? keyed found)
    have below : ∀ w, (obj members).member? "children" = some w →
        w.canonical.forest? = w.forest? := fun w found =>
      have member := (lookup_eq_some_iff_mem distinct).mp found
      (ih _ member (values _ member)).2
    have children := bind_member?_canonical keyed "children" below
    rw [canonical] at name code range children ⊢
    rw [symbol?_obj, symbol?_obj, name, code, range, children]
    exact ⟨rfl, rfl⟩
  | _ => exact fun _ => ⟨rfl, rfl⟩

theorem forest?_canonical (keyed : v.keyed) : v.canonical.forest? = v.forest? :=
  (read_canonical v keyed).2

end Canonical

end Json

/-! ### What an editor is given -/

namespace Symbol

theorem keyed_toEditor {s : Symbol} (children : Json.itemsKeyed (forestToEditor s.children)) :
    s.toEditor.keyed := by
  obtain ⟨name, kind, start, stop, below⟩ := s
  simpa [toEditor, Position.toEditor, Json.nat, Json.keyed, Json.membersKeyed] using children

theorem keyed_forestToEditor (forest : List Symbol) :
    (Json.arr (forestToEditor forest)).keyed := by
  induction forest using forest_induction with
  | nil => rfl
  | cons s rest below after =>
    rw [forestToEditor, Json.keyed, Json.itemsKeyed, Bool.and_eq_true]
    exact ⟨keyed_toEditor below, after⟩

theorem symbol?_toEditor {s : Symbol}
    (children : (Json.arr (forestToEditor s.children)).forest? = some s.children) :
    s.toEditor.symbol? = some s := by
  obtain ⟨name, kind, start, stop, below⟩ := s
  have known := kind.ofEditorCode?_editorCode
  have number (n : Nat) : (Json.nat n).natural? = some n := rfl
  rw [toEditor, Json.symbol?_obj]
  simp [Json.member?, List.lookup_cons, Json.string?, number, known, children, Json.range?,
    Json.position?, Position.toEditor]

/-- An editor is given the forest, and not only its symbols. -/
theorem forest?_toEditor (forest : List Symbol) :
    (Json.arr (forestToEditor forest)).forest? = some forest := by
  induction forest using forest_induction with
  | nil => rfl
  | cons s rest below after =>
    rw [Json.forest?] at after ⊢
    rw [forestToEditor, Json.symbols?, symbol?_toEditor below, after]
    rfl

end Symbol
end VibeLens
