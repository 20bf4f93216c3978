import VibeLens.Shell.Format
import VibeLens.Shell.Lexer

set_option autoImplicit false

/-!
Formulas over integers of 64 bits. Operators are listed from the loosest to the tightest; those of
one level are taken from left to right.
-/

namespace VibeLens.Shell.Arithmetic

inductive Symbol where
  | number (n : Int)
  | name (text : Text)
  | operator (text : String)
  deriving DecidableEq, Repr

def operatorNames : List String :=
  ["||", "&&", "==", "!=", "<=", ">=", "<", ">", "+", "-", "*", "/", "%", "(", ")", "!"]

def symbols : (fuel : Nat) → Text → Option (List Symbol)
  | 0, _ => none
  | _ + 1, [] => some []
  | fuel + 1, c :: rest =>
    if c = ' ' ∨ c = '\t' ∨ c = '\n' then symbols fuel rest
    else if Text.isDigit c then
      let (n, count) := Formatting.leadingInt (c :: rest)
      (symbols fuel ((c :: rest).drop (max 1 count))).map (.number n :: ·)
    else if isNameStart c then
      (symbols fuel (rest.dropWhile isNameChar)).map (.name (c :: rest.takeWhile isNameChar) :: ·)
    else
      match operator? operatorNames (c :: rest) with
      | some (name, rest) => (symbols fuel rest).map (.operator name :: ·)
      | none => none

/-- Why a formula has no value. -/
inductive Fault where
  | divisionByZero
  | malformed
  deriving DecidableEq, Repr

def levels : List (List String) :=
  [["||"], ["&&"], ["==", "!="], ["<=", ">=", "<", ">"], ["+", "-"], ["*", "/", "%"]]

def ofBool (b : Bool) : Int := if b then 1 else 0

/-- The representative of a number among the integers of 64 bits. -/
def wrap (n : Int) : Int := n.bmod Word.size

def apply (operator : String) (a b : Int) : Except Fault Int :=
  match operator with
  | "||" => .ok (ofBool (a ≠ 0 || b ≠ 0))
  | "&&" => .ok (ofBool (a ≠ 0 && b ≠ 0))
  | "==" => .ok (ofBool (a = b))
  | "!=" => .ok (ofBool (a ≠ b))
  | "<=" => .ok (ofBool (a ≤ b))
  | ">=" => .ok (ofBool (b ≤ a))
  | "<" => .ok (ofBool (a < b))
  | ">" => .ok (ofBool (b < a))
  | "+" => .ok (wrap (a + b))
  | "-" => .ok (wrap (a - b))
  | "*" => .ok (wrap (a * b))
  | "/" => if b = 0 then .error .divisionByZero else .ok (wrap (a.tdiv b))
  | "%" => if b = 0 then .error .divisionByZero else .ok (a.tmod b)
  | _ => .error .malformed

mutual

/-- The value of the formula at the front whose operators are on the given levels, and the symbols
after it. -/
def value (valueOf : Text → Int) :
    (fuel : Nat) → List (List String) → List Symbol → Except Fault (Int × List Symbol)
  | 0, _, _ => .error .malformed
  | fuel + 1, [], symbols => primary valueOf fuel symbols
  | fuel + 1, level :: tighter, symbols =>
    match value valueOf fuel tighter symbols with
    | .error e => .error e
    | .ok (a, rest) => chain valueOf fuel level tighter a rest

def chain (valueOf : Text → Int) :
    (fuel : Nat) → List String → List (List String) → Int → List Symbol →
      Except Fault (Int × List Symbol)
  | 0, _, _, _, _ => .error .malformed
  | fuel + 1, level, tighter, a, .operator name :: rest =>
    if level.contains name then
      match value valueOf fuel tighter rest with
      | .error e => .error e
      | .ok (b, rest) =>
        match apply name a b with
        | .error e => .error e
        | .ok c => chain valueOf fuel level tighter c rest
    else .ok (a, .operator name :: rest)
  | _ + 1, _, _, a, rest => .ok (a, rest)

def primary (valueOf : Text → Int) :
    (fuel : Nat) → List Symbol → Except Fault (Int × List Symbol)
  | 0, _ => .error .malformed
  | _ + 1, .number n :: rest => .ok (wrap n, rest)
  | _ + 1, .name text :: rest => .ok (valueOf text, rest)
  | fuel + 1, .operator "-" :: rest =>
    (primary valueOf fuel rest).map fun (n, rest) => (wrap (-n), rest)
  | fuel + 1, .operator "+" :: rest => primary valueOf fuel rest
  | fuel + 1, .operator "!" :: rest =>
    (primary valueOf fuel rest).map fun (n, rest) => (ofBool (n = 0), rest)
  | fuel + 1, .operator "(" :: rest =>
    match value valueOf fuel levels rest with
    | .ok (n, .operator ")" :: rest) => .ok (n, rest)
    | .ok _ => .error .malformed
    | .error e => .error e
  | _ + 1, _ => .error .malformed

end

/-- The value of a formula; an empty one counts as zero. -/
def evaluate (valueOf : Text → Int) (formula : Text) : Except Fault Int :=
  match symbols (formula.length + 1) formula with
  | none => .error .malformed
  | some [] => .ok 0
  | some list =>
    match value valueOf (16 * list.length + 16) levels list with
    | .ok (n, []) => .ok n
    | .ok _ => .error .malformed
    | .error e => .error e

end VibeLens.Shell.Arithmetic
