import VibeLens.Shell.Syntax

set_option autoImplicit false

/-!
From the pieces of an expanded word to the fields it stands for. Text that was quoted or written
out stays together; the value of an unquoted parameter is split at blanks, and vanishes if it is
blank.
-/

namespace VibeLens.Shell

inductive Piece where
  | solid (text : Text)
  | loose (text : Text)
  | arguments (texts : List Text) (solid : Bool)
  deriving DecidableEq, Repr

/-- The fields finished so far, newest first, and the one under way, backwards. -/
structure Fields where
  closed : List Text
  last : Option Text
  deriving DecidableEq, Repr

namespace Fields

def empty : Fields := ⟨[], none⟩

def close (f : Fields) : Fields :=
  match f.last with
  | none => f
  | some text => ⟨text.reverse :: f.closed, none⟩

def add (f : Fields) (text : Text) : Fields :=
  { f with last := some (text.reverse ++ f.last.getD []) }

def addLoose (f : Fields) (text : Text) : Fields :=
  text.foldl (fun f c => if c = ' ' ∨ c = '\t' ∨ c = '\n' then f.close else f.add [c]) f

/-- Adds texts with a field ending after each but the last. -/
def addApart (put : Fields → Text → Fields) : Fields → List Text → Fields
  | f, [] => f
  | f, [text] => put f text
  | f, text :: rest => addApart put (put f text).close rest

def piece (f : Fields) : Piece → Fields
  | .solid text => f.add text
  | .loose text => f.addLoose text
  | .arguments texts solid => addApart (if solid then add else addLoose) f texts

def toList (f : Fields) : List Text := f.close.closed.reverse

end Fields

def Piece.fields (pieces : List Piece) : List Text := (pieces.foldl Fields.piece .empty).toList

def Piece.joined (pieces : List Piece) : Text :=
  pieces.flatMap fun
    | .solid text | .loose text => text
    | .arguments texts _ => [' '].intercalate texts

end VibeLens.Shell
