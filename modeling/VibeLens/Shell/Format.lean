import VibeLens.Shell.Syntax
import VibeLens.Number.Numeral
import VibeLens.Number.Word

set_option autoImplicit false

/-!
Formatted output. A format is cut into pieces, literal text and conversions, and written over its
arguments; it is used again as long as arguments are left. Widths and precisions count bytes.
-/

namespace VibeLens.Shell

namespace Escape

def isOctal (c : Char) : Bool := '0' ≤ c && c ≤ '7'

def octalByte (digits : Text) : Char :=
  Char.ofNat (Numeral.ofDigits 8 (digits.map Text.digitValue) % 256)

def letter? (c : Char) : Option Nat :=
  match c with
  | 'a' => some 7
  | 'b' => some 8
  | 'e' => some 27
  | 'f' => some 12
  | 'n' => some 10
  | 'r' => some 13
  | 't' => some 9
  | 'v' => some 11
  | '\\' => some 92
  | _ => none

/-- The byte that stands behind a backslash, and how many characters write it. -/
def byte? (text : Text) : Option (Char × Nat) :=
  let digits := (text.takeWhile isOctal).take 3
  if digits.isEmpty then text.head?.bind fun c => (letter? c).map fun n => (Char.ofNat n, 1)
  else some (octalByte digits, digits.length)

/-- Escapes in an argument: a zero may stand before the octal digits, and `\c` ends all output. The
second result says whether it did. -/
def expand : (fuel : Nat) → Text → Text × Bool
  | 0, _ => ([], false)
  | _ + 1, [] => ([], false)
  | _ + 1, '\\' :: 'c' :: _ => ([], true)
  | fuel + 1, '\\' :: rest =>
    let skipped := if rest.head? = some '0' then 1 else 0
    let digits := ((rest.drop skipped).takeWhile isOctal).take 3
    if skipped = 1 then
      let (more, ended) := expand fuel (rest.drop (1 + digits.length))
      (octalByte digits :: more, ended)
    else
      match byte? rest with
      | some (c, n) =>
        let (more, ended) := expand fuel (rest.drop n)
        (c :: more, ended)
      | none =>
        let (more, ended) := expand fuel rest
        ('\\' :: more, ended)
  | fuel + 1, c :: rest =>
    let (more, ended) := expand fuel rest
    (c :: more, ended)

end Escape

/-- A width or a precision: written in the format, or taken from the arguments. -/
inductive Amount where
  | fixed (n : Nat)
  | argument
  deriving DecidableEq, Repr

inductive FormatPiece where
  | literal (c : Char)
  | conversion (flags : Text) (width : Option Amount) (precision : Option Amount) (kind : Char)
  | faulty (reason : Text)
  deriving DecidableEq, Repr

namespace FormatPiece

def amount? (text : Text) : Option Amount × Text :=
  match text with
  | '*' :: rest => (some .argument, rest)
  | _ =>
    let digits := text.takeWhile Text.isDigit
    if digits.isEmpty then (none, text)
    else (some (.fixed (Text.decimalValue digits)), text.drop digits.length)

def kinds : Text := "diouxXcsb".toList

def isFlag (c : Char) : Bool := "#-+ 0".toList.contains c

def conversionOf (text : Text) : FormatPiece × Text :=
  let flags := text.takeWhile isFlag
  let (width, rest) := amount? (text.dropWhile isFlag)
  let (precision, rest) :=
    match rest with
    | '.' :: more =>
      let (p, rest) := amount? more
      (some (p.getD (.fixed 0)), rest)
    | _ => (none, rest)
  match rest with
  | [] => (.faulty "missing format character".toList, [])
  | kind :: after =>
    if kinds.contains kind then (.conversion flags width precision kind, after)
    else
      let written := text.take (text.length - after.length)
      (.faulty ('%' :: written ++ ": invalid directive".toList), after)

def cut : (fuel : Nat) → Text → List FormatPiece
  | 0, _ => []
  | _ + 1, [] => []
  | fuel + 1, '\\' :: rest =>
    match Escape.byte? rest with
    | some (c, n) => .literal c :: cut fuel (rest.drop n)
    | none => .literal '\\' :: cut fuel rest
  | fuel + 1, '%' :: '%' :: rest => .literal '%' :: cut fuel rest
  | fuel + 1, '%' :: rest =>
    let (piece, rest) := conversionOf rest
    piece :: cut fuel rest
  | fuel + 1, c :: rest => .literal c :: cut fuel rest

end FormatPiece

/-- What has been written so far, newest character first, and what is left to be used. -/
structure Formatting where
  written : Text
  args : List Text
  used : Bool
  complaints : List Text
  ended : Bool
  failed : Bool
  deriving Repr

namespace Formatting

def put (f : Formatting) (text : Text) : Formatting :=
  { f with written := text.reverse ++ f.written }

def complain (f : Formatting) (text : Text) : Formatting :=
  { f with complaints := f.complaints ++ [text] }

def next (f : Formatting) : Formatting × Option Text :=
  ({ f with args := f.args.tail, used := true }, f.args.head?)

def digitsIn (base : Nat) (text : Text) : Nat × Nat :=
  let value (c : Char) : Nat :=
    let c := Numeral.lower c
    if Text.isDigit c then c.toNat - 48
    else if 'a' ≤ c ∧ c ≤ 'f' then c.toNat - 87
    else 16
  let digits := text.takeWhile fun c => value c < base
  (digits.foldl (fun n c => base * n + value c) 0, digits.length)

/-- The integer at the start of a text and how much text writes it. It is octal after a zero and
hexadecimal after a zero and an x. -/
def leadingInt (text : Text) : Int × Nat :=
  let blank := (text.takeWhile fun c => c = ' ' ∨ ('\t' ≤ c ∧ c ≤ '\r')).length
  let (sign, rest) := Numeral.sign (text.drop blank)
  let signed := text.length - rest.length
  let (n, count) :=
    match rest with
    | '0' :: x :: more =>
      if (x = 'x' ∨ x = 'X') ∧ (digitsIn 16 more).2 ≠ 0 then
        ((digitsIn 16 more).1, (digitsIn 16 more).2 + 2)
      else digitsIn 8 rest
    | _ => digitsIn 10 rest
  if count = 0 then (0, 0) else (sign.apply n, signed + count)

def number (f : Formatting) (low high : Int) (arg : Option Text) : Formatting × Int :=
  match arg with
  | none => (f, 0)
  | some ('\'' :: rest) | some ('"' :: rest) => (f, (rest.head?.map Char.toNat).getD 0)
  | some text =>
    let (n, count) := leadingInt text
    let value := max low (min high n)
    if count < text.length then
      let reason := if count = 0 then ": expected numeric value" else ": not completely converted"
      (f.complain (text ++ reason.toList), value)
    else if value ≠ n then
      (f.complain (text ++ ": Numerical result out of range".toList), value)
    else (f, value)

def minSigned : Int := -(Word.half : Int)

def maxSigned : Int := Word.half - 1

def amount (f : Formatting) (a : Option Amount) : Formatting × Option Int :=
  match a with
  | none => (f, none)
  | some (.fixed n) => (f, some n)
  | some .argument =>
    let (f, arg) := f.next
    let (f, n) := f.number minSigned maxSigned arg
    (f, some n)

/-- Fills a text up to a width, on the right with the flag `-`. -/
def pad (flags : Text) (width : Int) (text : Text) : Text :=
  let blanks := List.replicate (width.natAbs - text.length) ' '
  if flags.contains '-' ∨ width < 0 then text ++ blanks else blanks ++ text

def upper (c : Char) : Char := if 'a' ≤ c ∧ c ≤ 'z' then Char.ofNat (c.toNat - 32) else c

def digitsFor (kind : Char) (n : Nat) : Text × Text :=
  if kind = 'o' then (Nat.toDigits 8 n, ['0'])
  else if kind = 'x' then (Nat.toDigits 16 n, ['0', 'x'])
  else if kind = 'X' then ((Nat.toDigits 16 n).map upper, ['0', 'X'])
  else (Nat.toDigits 10 n, [])

def integer (flags : Text) (width : Int) (precision : Option Int) (kind : Char) (n : Int) : Text :=
  let (digits, mark) := digitsFor kind n.natAbs
  let digits :=
    match precision with
    | some p =>
      if n = 0 ∧ p = 0 then []
      else List.replicate (p.toNat - digits.length) '0' ++ digits
    | none => digits
  let isSigned := kind = 'd' ∨ kind = 'i'
  let start :=
    (if n < 0 then ['-']
      else if isSigned && flags.contains '+' then ['+']
      else if isSigned && flags.contains ' ' then [' ']
      else []) ++
    (if flags.contains '#' ∧ n ≠ 0 then mark else [])
  if flags.contains '0' && !flags.contains '-' && precision.isNone then
    start ++ List.replicate (width.toNat - start.length - digits.length) '0' ++ digits
  else pad flags width (start ++ digits)

def cutTo (precision : Option Int) (text : Text) : Text :=
  match precision with
  | some (.ofNat n) => text.take n
  | _ => text

def convert (f : Formatting) (flags : Text) (width precision : Option Amount) (kind : Char) :
    Formatting :=
  let (f, width) := f.amount width
  let (f, precision) := f.amount precision
  let width := width.getD 0
  let (f, arg) := f.next
  if kind = 's' then f.put (pad flags width (cutTo precision (arg.getD [])))
  else if kind = 'b' then
    let text := arg.getD []
    let (text, ended) := Escape.expand (text.length + 1) text
    { f.put (pad flags width (cutTo precision text)) with ended := ended }
  else if kind = 'c' then f.put (pad flags width [(arg.getD []).headD (Char.ofNat 0)])
  else if kind = 'd' ∨ kind = 'i' then
    let (f, n) := f.number minSigned maxSigned arg
    f.put (integer flags width precision kind n)
  else
    let (f, n) := f.number minSigned (Word.size - 1) arg
    f.put (integer flags width precision kind (n % Word.size))

def piece (f : Formatting) (p : FormatPiece) : Formatting :=
  if f.ended then f
  else match p with
    | .literal c => f.put [c]
    | .conversion flags width precision kind => f.convert flags width precision kind
    | .faulty reason => { f.complain reason with ended := true, failed := true }

/-- Writes the pieces, again and again while arguments are left. -/
def run (pieces : List FormatPiece) : (fuel : Nat) → Formatting → Formatting
  | 0, f => f
  | fuel + 1, f =>
    let f := pieces.foldl piece { f with used := false }
    if f.ended || f.args.isEmpty || !f.used then f else run pieces fuel f

def ofFormat (format : Text) (args : List Text) : Formatting :=
  run (FormatPiece.cut (format.length + 1) format) (args.length + 1)
    ⟨[], args, false, [], false, false⟩

end Formatting
end VibeLens.Shell
