import VibeLens.Diagnostic.Basic
import VibeLens.Text.Blank
import VibeLens.Text.Digit
import VibeLens.Text.Lines

set_option autoImplicit false

/-!
Diagnostics from the error text of an interpreter, one for each line that is not blank. A place is
written `[line:column]` or, in prose, as the word line before a number; both count from one.
-/

namespace VibeLens.Diagnostic

open Text

/-- The first success of a reader at a position of the text, from left to right. -/
def leftmost? {α : Type} (read : List Char → Option α) : List Char → Option α
  | [] => read []
  | c :: rest =>
    match read (c :: rest) with
    | some a => some a
    | none => leftmost? read rest

def digits? (text : List Char) : Option (List Char × List Char) :=
  let digits := text.takeWhile isDigit
  if digits.isEmpty then none else some (digits, text.dropWhile isDigit)

def after? (c : Char) : List Char → Option (List Char)
  | d :: rest => if d = c then some rest else none
  | [] => none

/-- A place in brackets: its two numbers and the rest of the text. -/
def bracketed? (text : List Char) : Option (List Char × List Char × List Char) := do
  let (line, rest) ← digits? (← after? '[' text)
  let (column, rest) ← digits? (← after? ':' rest)
  return (line, column, ← after? ']' rest)

/-- The letters of the word line, in either case. The dotted capital and the dotless small i are
taken for an i. -/
def lineWord : List (List Char) :=
  [['l', 'L'], ['i', 'I', '\u0130', '\u0131'], ['n', 'N'], ['e', 'E']]

def spelled? : List (List Char) → List Char → Option (List Char)
  | [], text => some text
  | letters :: more, c :: rest => if letters.contains c then spelled? more rest else none
  | _ :: _, [] => none

def prose? (text : List Char) : Option (List Char) := do
  let rest ← spelled? lineWord text
  guard (rest.head?.any isBlank)
  return (← digits? (skipBlanks rest)).1

/-- A number that counts from one, counted from zero. Zero stays zero, and a numeral that is too
long to convert counts as zero. -/
def zeroBased (digits : List Char) : Nat :=
  if digits.length > numeralLimit then 0 else decimalValue digits - 1

def ofLine (line : List Char) : Diagnostic :=
  match leftmost? bracketed? line with
  | some (row, column, rest) =>
    let message := trim rest
    ⟨zeroBased row, zeroBased column, String.ofList (if message.isEmpty then line else message)⟩
  | none =>
    match leftmost? prose? line with
    | some row => ⟨zeroBased row, 0, String.ofList line⟩
    | none => ⟨0, 0, String.ofList line⟩

def locate (content : Content) : List Diagnostic :=
  ((content.lines.map trim).filter fun line => !line.isEmpty).map ofLine

end VibeLens.Diagnostic
