import VibeLens.Json.Basic

set_option autoImplicit false

/-!
Symbols of a document: named constructs with their ranges, nested into a forest. Lines and columns count
from zero, and a column counts characters.
-/

namespace VibeLens

structure Position where
  line : Nat
  column : Nat
  deriving DecidableEq, Repr

inductive Kind where
  | function
  | classType
  | structType
  | enumType
  | constant
  deriving DecidableEq, Repr

structure Symbol where
  name : String
  kind : Kind
  start : Position
  stop : Position
  children : List Symbol
  deriving Repr

namespace Position

def toEditor (p : Position) : Json :=
  .obj [("line", .nat p.line), ("character", .nat p.column)]

def toJson (p : Position) : Json :=
  .obj [("line", .nat p.line), ("column", .nat p.column)]

end Position

namespace Kind

def all : List Kind := [function, classType, structType, enumType, constant]

def label : Kind → String
  | function => "function"
  | classType => "class"
  | structType => "struct"
  | enumType => "enum"
  | constant => "constant"

def ofLabel? (label : String) : Option Kind := all.find? (·.label = label)

def editorCode : Kind → Nat
  | function => 12
  | classType => 5
  | structType => 23
  | enumType => 10
  | constant => 14

/-- A definition of such a kind opens a block that can own other symbols. -/
def isScoped (kind : Kind) : Bool := kind ≠ constant

/-- A symbol of such a kind belongs to the innermost open definition; any other is a root. -/
def isNestable (kind : Kind) : Bool := kind = function || kind = enumType

@[simp] theorem ofLabel?_label (kind : Kind) : ofLabel? kind.label = some kind := by
  cases kind <;> rfl

end Kind

namespace Symbol

mutual

/-- The symbol and all below it, parents first, with their depths. -/
def listing (depth : Nat) : Symbol → List (Nat × Symbol)
  | ⟨name, kind, start, stop, children⟩ =>
    (depth, ⟨name, kind, start, stop, children⟩) :: forestListing (depth + 1) children

def forestListing (depth : Nat) : List Symbol → List (Nat × Symbol)
  | [] => []
  | s :: rest => s.listing depth ++ forestListing depth rest

end

def nameStop (s : Symbol) : Position := ⟨s.start.line, s.start.column + s.name.length⟩

mutual

def toEditor : Symbol → Json
  | ⟨name, kind, start, stop, children⟩ =>
    .obj
      [("name", .str name),
       ("kind", .nat kind.editorCode),
       ("range", .obj [("start", start.toEditor), ("end", stop.toEditor)]),
       ("selectionRange", .obj
         [("start", start.toEditor),
          ("end", (nameStop ⟨name, kind, start, stop, children⟩).toEditor)]),
       ("children", .arr (forestToEditor children))]

def forestToEditor : List Symbol → List Json
  | [] => []
  | s :: rest => s.toEditor :: forestToEditor rest

end

mutual

def toJson : Symbol → Json
  | ⟨name, kind, start, stop, children⟩ =>
    .obj
      [("name", .str name), ("kind", .str kind.label), ("start", start.toJson),
       ("end", stop.toJson), ("children", .arr (forestToJson children))]

def forestToJson : List Symbol → List Json
  | [] => []
  | s :: rest => s.toJson :: forestToJson rest

end

end Symbol
end VibeLens
