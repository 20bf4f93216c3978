import VibeLens.Diagnostic.Basic
import VibeLens.Symbol

set_option autoImplicit false

/-!
Ranges as an editor reads them off the values it is given. Positions are ordered as the text is: by
lines, and on one line by columns.
-/

namespace VibeLens

namespace Position

instance : LE Position where
  le p q := p.line < q.line ∨ p.line = q.line ∧ p.column ≤ q.column

theorem le_iff {p q : Position} :
    p ≤ q ↔ p.line < q.line ∨ p.line = q.line ∧ p.column ≤ q.column := Iff.rfl

instance (p q : Position) : Decidable (p ≤ q) :=
  inferInstanceAs (Decidable (p.line < q.line ∨ p.line = q.line ∧ p.column ≤ q.column))

theorem le_trans {p q r : Position} (h : p ≤ q) (h' : q ≤ r) : p ≤ r := by
  rw [le_iff] at h h' ⊢
  omega

end Position

structure Range where
  start : Position
  stop : Position
  deriving DecidableEq, Repr

namespace Range

/-- A range that an editor can take: it does not run backwards, and it has no coordinate above the
largest one there is. -/
structure WellFormed (r : Range) : Prop where
  forwards : r.start ≤ r.stop
  start_line : r.start.line ≤ Diagnostic.endOfLine
  start_column : r.start.column ≤ Diagnostic.endOfLine
  stop_line : r.stop.line ≤ Diagnostic.endOfLine
  stop_column : r.stop.column ≤ Diagnostic.endOfLine

end Range

namespace Json

def member? (key : String) : Json → Option Json
  | obj members => members.lookup key
  | _ => none

def natural? : Json → Option Nat
  | int n => n.toNat?
  | _ => none

def position? (j : Json) : Option Position := do
  let line ← (← j.member? "line").natural?
  let column ← (← j.member? "character").natural?
  return ⟨line, column⟩

def range? (j : Json) : Option Range := do
  let start ← (← j.member? "start").position?
  let stop ← (← j.member? "end").position?
  return ⟨start, stop⟩

end Json

theorem Diagnostic.range?_toEditor (d : Diagnostic) :
    (d.toEditor.member? "range").bind Json.range? =
      some ⟨⟨d.line, d.column⟩, ⟨d.line, endOfLine⟩⟩ := rfl

namespace Symbol

theorem start_le_nameStop (s : Symbol) : s.start ≤ s.nameStop :=
  .inr ⟨rfl, Nat.le_add_right _ _⟩

theorem range?_toEditor (s : Symbol) :
    (s.toEditor.member? "range").bind Json.range? = some ⟨s.start, s.stop⟩ := by
  cases s
  rfl

theorem selectionRange?_toEditor (s : Symbol) :
    (s.toEditor.member? "selectionRange").bind Json.range? = some ⟨s.start, s.nameStop⟩ := by
  cases s
  rfl

theorem forestToEditor_eq_map (forest : List Symbol) :
    forestToEditor forest = forest.map toEditor := by
  induction forest with
  | nil => rfl
  | cons s rest ih => rw [forestToEditor, ih, List.map_cons]

theorem children?_toEditor (s : Symbol) :
    s.toEditor.member? "children" = some (.arr (s.children.map toEditor)) := by
  rw [← forestToEditor_eq_map]
  cases s
  rfl

end Symbol

end VibeLens
