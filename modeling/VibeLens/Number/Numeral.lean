import VibeLens.Number.Double
import VibeLens.Text.Blank
import VibeLens.Text.Digit

set_option autoImplicit false

/-!
Numerals as people write them: integers with a sign and underscores between digits, and decimal
fractions with an exponent.
-/

namespace VibeLens.Numeral

open Text

inductive Sign where
  | plus
  | minus
  deriving DecidableEq, Repr

def Sign.apply (sign : Sign) (n : Int) : Int :=
  match sign with
  | .plus => n
  | .minus => -n

def sign : List Char → Sign × List Char
  | '+' :: rest => (.plus, rest)
  | '-' :: rest => (.minus, rest)
  | text => (.plus, text)

/-- The digits of a run in which single underscores may stand between digits; `afterDigit` says
whether one may stand here. The value of a digit is given by `value?`. -/
def groupedFrom (value? : Char → Option Nat) (afterDigit : Bool) :
    List Char → Option (List Nat)
  | [] => if afterDigit then some [] else none
  | '_' :: rest => if afterDigit then groupedFrom value? false rest else none
  | c :: rest =>
    match value? c with
    | some v => (groupedFrom value? true rest).map (v :: ·)
    | none => none

def grouped? (value? : Char → Option Nat) (text : List Char) : Option (List Nat) :=
  groupedFrom value? false text

def ofDigits (base : Nat) (digits : List Nat) : Nat := digits.foldl (fun n d => base * n + d) 0

def asciiDigit? (c : Char) : Option Nat := if isDigit c then some (digitValue c) else none

/-- An integer that may be surrounded by white space and written in the digits of any script. Too long a
numeral is refused. -/
def integer? (text : List Char) : Option Int := do
  let (s, rest) := sign (trimBy isSpace text)
  let digits ← grouped? scriptDigit? rest
  guard (digits.length ≤ numeralLimit)
  return s.apply (ofDigits 10 digits)

def lower (c : Char) : Char := if 'A' ≤ c ∧ c ≤ 'Z' then Char.ofNat (c.toNat + 32) else c

/-- The exponent of a decimal numeral; what is left has to be exactly that, or nothing. -/
def exponent? : List Char → Option Int
  | [] => some 0
  | c :: rest =>
    if c = 'e' ∨ c = 'E' then
      let (s, digits) := sign rest
      if digits.isEmpty || !digits.all isDigit then none
      else some (s.apply (decimalValue digits))
    else none

/-- A decimal numeral without sign: digits, an optional fraction and an optional exponent. There has
to be a digit before or after the point. -/
def decimal? (text : List Char) : Option Double := do
  let whole := text.takeWhile isDigit
  let rest := text.dropWhile isDigit
  let (places, rest) :=
    match rest with
    | '.' :: more => (more.takeWhile isDigit, more.dropWhile isDigit)
    | _ => ([], rest)
  guard (!(whole ++ places).isEmpty)
  let e ← exponent? rest
  return Double.ofDecimal (decimalValue (whole ++ places)) (e - places.length)

def special? (text : List Char) : Option Double :=
  let word := String.ofList (text.map lower)
  if word = "inf" ∨ word = "infinity" then some Double.infinity
  else if word = "nan" then some Double.notANumber
  else none

def double? (text : List Char) : Option Double := do
  let (s, rest) := sign text
  let d ← (decimal? rest).or (special? rest)
  return match s with
    | .plus => d
    | .minus => d.negate

end VibeLens.Numeral
