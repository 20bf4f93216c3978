import VibeLens.Number.Word

set_option autoImplicit false

/-!
Double-precision numbers as their 64-bit words. A fraction is rounded to the nearest double, and to the
one with the even word when two are equally near.
-/

namespace VibeLens

structure Double where
  bits : UInt64
  deriving DecidableEq, Repr

namespace Double

def infinityBits : Nat := 0x7FF0000000000000

def signBit : Nat := Word.half

/-- The leading bit of a significand, which the word does not show. -/
def leadingBit : Nat := 0x10000000000000

def infinity : Double := ⟨UInt64.ofNat infinityBits⟩

def notANumber : Double := ⟨0x7FF8000000000000⟩

def isNegative (d : Double) : Bool := signBit ≤ d.bits.toNat

def magnitude (d : Double) : Nat := d.bits.toNat % signBit

def isFinite (d : Double) : Bool := d.magnitude < infinityBits

def isNaN (d : Double) : Bool := infinityBits < d.magnitude

def negate (d : Double) : Double := ⟨UInt64.ofNat ((d.bits.toNat + signBit) % Word.size)⟩

/-- Greater than zero; a value that is no number is not. -/
def isPositive (d : Double) : Bool := !d.isNegative && !d.isNaN && 0 < d.magnitude

/-- The exponent of the unit in which the significand of a finite double counts. -/
def exponent (d : Double) : Int := max 1 (d.magnitude / leadingBit : Nat) - 1075

def significand (d : Double) : Nat :=
  d.magnitude % leadingBit + if leadingBit ≤ d.magnitude then leadingBit else 0

def fraction (d : Double) : Nat × Nat :=
  match d.exponent with
  | .ofNat e => (d.significand * Nat.pow 2 e, 1)
  | .negSucc e => (d.significand, Nat.pow 2 (e + 1))

def toInt? (d : Double) : Option Int :=
  let (num, den) := d.fraction
  if num % den = 0 then
    let n : Int := (num / den : Nat)
    some (if d.isNegative then -n else n)
  else none

/-- Division rounded to the nearest natural number, a half to the even one. -/
def divideToEven (num den : Nat) : Nat :=
  let quotient := num / den
  let twice := 2 * (num % den)
  if den < twice ∨ (twice = den ∧ quotient % 2 = 1) then quotient + 1 else quotient

/-- `num / den` counted in units of two to the power `e`. -/
def inUnits (num den : Nat) : Int → Nat × Nat
  | .ofNat e => (num, den * Nat.pow 2 e)
  | .negSucc e => (num * Nat.pow 2 (e + 1), den)

/-- The double nearest to a positive fraction. The unit is the one in which the significand has 53
bits, or the least unit there is. -/
def ofPositive (num den : Nat) : Double :=
  let rough : Int := (num.log2 : Int) - den.log2 - 53
  let (n, d) := inUnits num den rough
  let unit := max (if n / d < 2 * leadingBit then rough else rough + 1) (-1074)
  let (n, d) := inUnits num den unit
  let word := (unit + 1074).toNat * leadingBit + divideToEven n d
  ⟨UInt64.ofNat (min word infinityBits)⟩

def ofNat (n : Nat) : Double := if n = 0 then ⟨0⟩ else ofPositive n 1

def ofInt (n : Int) : Double :=
  if n < 0 then (ofNat n.natAbs).negate else ofNat n.natAbs

/-- The double nearest to `digits` times ten to the power `power`. Exponents so far out that only
zero or infinity can result are not computed. -/
def ofDecimal (digits : Nat) (power : Int) : Double :=
  if digits = 0 then ⟨0⟩
  else
    let size : Int := (Nat.toDigits 10 digits).length + power
    if size > 400 then infinity
    else if size < -400 then ⟨0⟩
    else match power with
      | .ofNat e => ofPositive (digits * Nat.pow 10 e) 1
      | .negSucc e => ofPositive digits (Nat.pow 10 (e + 1))

def atMost (d : Double) (num den : Nat) : Bool :=
  d.isFinite && d.fraction.1 * den ≤ num * d.fraction.2

end Double
end VibeLens
