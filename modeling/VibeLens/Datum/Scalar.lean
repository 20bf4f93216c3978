import VibeLens.Datum.Basic
import VibeLens.Datum.Verdict
import VibeLens.Number.Numeral
import VibeLens.Number.Word

set_option autoImplicit false

/-!
Reading data as strings, truth values and numbers. Readers are lenient: a number may be written in a
string, a truth value may be a number, and the other way round.
-/

namespace VibeLens.Datum

open Text

def string : Datum → Verdict String
  | str s => .valid s
  | _ => .fault .stringExpected

def string? : Datum → Verdict (Option String)
  | null => .valid none
  | str s => .valid (some s)
  | _ => .fault .stringExpected

def literal {α : Type} (labels : List String) (ofLabel? : String → Option α) : Datum → Verdict α
  | str s => match ofLabel? s with
    | some a => .valid a
    | none => .fault (.literalExpected labels)
  | _ => .fault (.literalExpected labels)

def falseWords : List String := ["0", "off", "f", "false", "n", "no"]

def trueWords : List String := ["1", "on", "t", "true", "y", "yes"]

def truth : Datum → Verdict Bool
  | bool b => .valid b
  | int n =>
    if n = 0 then .valid false
    else if n = 1 then .valid true
    else .fault (if Word.isSigned n then .boolUnreadable else .boolExpected)
  | float d =>
    if d.isFinite && d.toInt? == some 0 then .valid false
    else if d.isFinite && d.toInt? == some 1 then .valid true
    else .fault .boolExpected
  | str s =>
    let word := String.ofList (s.toList.map Numeral.lower)
    if falseWords.contains word then .valid false
    else if trueWords.contains word then .valid true
    else .fault .boolUnreadable
  | _ => .fault .boolExpected

/-- A numeral without a sign that writes an integer: grouped digits, then perhaps a point and
zeros. -/
def wholeNumeral? (text : List Char) : Option Nat := do
  let whole := text.takeWhile (· ≠ '.')
  match text.dropWhile (· ≠ '.') with
  | [] => pure ()
  | _ :: zeros => guard (!zeros.isEmpty && zeros.all (· == '0'))
  return Numeral.ofDigits 10 (← Numeral.grouped? Numeral.asciiDigit? whole)

def integer : Datum → Verdict Int
  | int n => .valid n
  | bool b => .valid (if b then 1 else 0)
  | float d =>
    if !d.isFinite then .fault .finiteExpected
    else match d.toInt? with
      | none => .fault .integerHasFraction
      | some n => if Word.isSigned n then .valid n else .fault .integerTooLong
  | str s =>
    let text := trimBy isSpace s.toList
    if text.length > numeralLimit then .fault .integerTooLong
    else
      let (sign, rest) := Numeral.sign text
      match wholeNumeral? rest with
      | some n => .valid (sign.apply n)
      | none => .fault .integerUnreadable
  | _ => .fault .integerExpected

def natural (d : Datum) : Verdict Nat :=
  d.integer.andThen fun n => if 0 ≤ n then .valid n.toNat else .fault .negative

def positive (d : Datum) : Verdict Nat :=
  d.integer.andThen fun n => if 0 < n then .valid n.toNat else .fault .notPositive

def doubledUnderscore : List Char → Bool
  | '_' :: '_' :: _ => true
  | _ :: rest => doubledUnderscore rest
  | [] => false

/-- A numeral that may hold underscores, only not at its ends and not two in a row. -/
def looseDouble? (text : List Char) : Option Double :=
  if text.head? == some '_' || text.getLast? == some '_' || doubledUnderscore text then none
  else Numeral.double? (text.filter (· ≠ '_'))

def double : Datum → Verdict Double
  | float d => .valid d
  | int n => if (Double.ofInt n).isFinite then .valid (Double.ofInt n) else .fault .numberExpected
  | bool b => .valid (Double.ofNat (if b then 1 else 0))
  | str s => match looseDouble? (trimBy isSpace s.toList) with
    | some d => .valid d
    | none => .fault .numberUnreadable
  | _ => .fault .numberExpected

def positiveDouble (d : Datum) : Verdict Double :=
  d.double.andThen fun x => if x.isPositive then .valid x else .fault .notPositive

def listOf {α : Type} (read : Datum → Verdict α) : Datum → Verdict (List α)
  | list items => .collect (items.map read)
  | _ => .fault .listExpected

end VibeLens.Datum
