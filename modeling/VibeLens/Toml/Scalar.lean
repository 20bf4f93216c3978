import VibeLens.Datum.Basic
import VibeLens.Number.Numeral
import VibeLens.Toml.Text

set_option autoImplicit false

/-!
TOML values without parts: truth values, dates and times, and numbers.
-/

namespace VibeLens.Toml

open Text (isDigit)

/-! ### Dates and times -/

def twoDigits? (low high : Nat) : List Char → Option (Nat × List Char)
  | a :: b :: rest =>
    if isDigit a && isDigit b then
      let n := Text.decimalValue [a, b]
      if low ≤ n ∧ n ≤ high then some (n, rest) else none
    else none
  | _ => none

def after? (c : Char) : List Char → Option (List Char)
  | d :: rest => if d = c then some rest else none
  | [] => none

def timeRest? (src : List Char) : Option (List Char) := do
  let (_, rest) ← twoDigits? 0 23 src
  let (_, rest) ← twoDigits? 0 59 (← after? ':' rest)
  let (_, rest) ← twoDigits? 0 59 (← after? ':' rest)
  return match rest with
    | '.' :: c :: more => if isDigit c then more.dropWhile isDigit else rest
    | _ => rest

def offsetRest (src : List Char) : List Char :=
  match src with
  | 'Z' :: rest | 'z' :: rest => rest
  | c :: rest =>
    if c = '+' ∨ c = '-' then
      (do
        let (_, rest) ← twoDigits? 0 23 rest
        let (_, rest) ← twoDigits? 0 59 (← after? ':' rest)
        return rest).getD src
    else src
  | [] => []

def isLeap (year : Nat) : Bool := year % 4 = 0 && (year % 100 ≠ 0 || year % 400 = 0)

def daysIn (year month : Nat) : Nat :=
  if month = 2 then if isLeap year then 29 else 28
  else if [4, 6, 9, 11].contains month then 30
  else 31

/-- A date, with an optional time and offset: whether the calendar has it, and what follows. -/
def date? (src : List Char) : Option (Bool × List Char) := do
  let year := src.take 4
  guard (year.length = 4 && year.all isDigit)
  let (month, rest) ← twoDigits? 1 12 (← after? '-' (src.drop 4))
  let (day, rest) ← twoDigits? 1 31 (← after? '-' rest)
  let y := Text.decimalValue year
  let rest :=
    match rest with
    | c :: more =>
      if c = 'T' ∨ c = 't' ∨ c = ' ' then ((timeRest? more).map offsetRest).getD rest else rest
    | [] => rest
  return (0 < y && day ≤ daysIn y month, rest)

/-! ### Numbers -/

/-- Digits with single underscores between them, written without the underscores. -/
def moreDigits (p : Char → Bool) : List Char → List Char × List Char
  | '_' :: c :: rest =>
    if p c then
      let (ds, r) := moreDigits p rest
      (c :: ds, r)
    else ([], '_' :: c :: rest)
  | c :: rest =>
    if p c then
      let (ds, r) := moreDigits p rest
      (c :: ds, r)
    else ([], c :: rest)
  | [] => ([], [])

def digits? (p : Char → Bool) : List Char → Option (List Char × List Char)
  | c :: rest =>
    if p c then
      let (ds, r) := moreDigits p rest
      some (c :: ds, r)
    else none
  | [] => none

/-- The base of a number whose first digit is a zero, by the letter after it. -/
def base? (c : Char) : Option Nat :=
  match c with
  | 'x' => some 16
  | 'o' => some 8
  | 'b' => some 2
  | _ => none

def isDigitOf (base : Nat) (c : Char) : Bool := (hexValue? c).any (· < base)

def based? : List Char → Option (Datum × List Char)
  | '0' :: c :: rest => do
    let base ← base? c
    let (ds, rest) ← digits? (isDigitOf base) rest
    return (.int (Numeral.ofDigits base (ds.filterMap hexValue?)), rest)
  | _ => none

/-- The whole part of a decimal number: a zero, or digits that do not start with one. -/
def whole? : List Char → Option (List Char × List Char)
  | '0' :: rest => some (['0'], rest)
  | src => digits? isDigit src

def places (src : List Char) : List Char × List Char :=
  match src with
  | '.' :: rest =>
    match digits? isDigit rest with
    | some (ds, rest) => ('.' :: ds, rest)
    | none => ([], src)
  | _ => ([], src)

def power (src : List Char) : List Char × List Char :=
  match src with
  | c :: rest =>
    if c = 'e' ∨ c = 'E' then
      let (mark, rest') :=
        match rest with
        | '+' :: more => (['+'], more)
        | '-' :: more => (['-'], more)
        | _ => ([], rest)
      match digits? isDigit rest' with
      | some (ds, after) => ('e' :: mark ++ ds, after)
      | none => ([], src)
    else ([], src)
  | [] => ([], src)

def decimal? (src : List Char) : Option (Except Fault (Datum × List Char)) := do
  let (sign, rest) := Numeral.sign src
  let (ds, rest) ← whole? rest
  let (ps, rest) := places rest
  let (e, rest) := power rest
  if ps.isEmpty && e.isEmpty then
    if ds.length > Text.numeralLimit then return .error .numeralTooLong
    else return .ok (.int (sign.apply (Text.decimalValue ds)), rest)
  else do
    let d ← Numeral.decimal? (ds ++ ps ++ e)
    return .ok (.float (if sign = .minus then d.negate else d), rest)

def special? (src : List Char) : Option (Datum × List Char) :=
  let (sign, rest) := Numeral.sign src
  let word := String.ofList (rest.take 3)
  let value : Option Double :=
    if word = "inf" then some Double.infinity
    else if word = "nan" then some Double.notANumber
    else none
  value.map fun d => (.float (if sign = .minus then d.negate else d), rest.drop 3)

def scalar (src : List Char) : Except Fault (Datum × List Char) :=
  match string? src with
  | some result => result.map fun (text, rest) => (.str (String.ofList text), rest)
  | none =>
    if "true".toList.isPrefixOf src then .ok (.bool true, src.drop 4)
    else if "false".toList.isPrefixOf src then .ok (.bool false, src.drop 5)
    else match date? src with
      | some (real, rest) => if real then .ok (.moment, rest) else .error .malformed
      | none =>
        match timeRest? src with
        | some rest => .ok (.moment, rest)
        | none =>
          match based? src with
          | some result => .ok result
          | none =>
            match decimal? src with
            | some result => result
            | none =>
              match special? src with
              | some result => .ok result
              | none => .error .malformed

end VibeLens.Toml
