set_option autoImplicit false

/-!
UTF-8 as a machine that reads one byte at a time. A sequence that turns out ill-formed is given up at
the first byte that cannot continue it and becomes one U+FFFD; that byte is then read afresh.
-/

namespace VibeLens.Text.Utf8

abbrev Bytes := List UInt8

/-- A sequence begun and not finished: the bits read so far, how many bytes are missing, and the
range in which the next of them has to lie. -/
structure Pending where
  code : Nat
  missing : Nat
  low : Nat
  high : Nat
  deriving DecidableEq, Repr

/-- What is known after some bytes. The characters are kept newest first. -/
structure Decoder where
  produced : List Char
  wellFormed : Bool
  pending : Option Pending
  deriving DecidableEq, Repr

def replacement : Char := Char.ofNat 0xFFFD

namespace Decoder

def start : Decoder := ⟨[], true, none⟩

def emit (d : Decoder) (c : Char) : Decoder :=
  { d with produced := c :: d.produced, pending := none }

def replace (d : Decoder) : Decoder :=
  { d with produced := replacement :: d.produced, wellFormed := false, pending := none }

def await (d : Decoder) (code missing low high : Nat) : Decoder :=
  { d with pending := some ⟨code, missing, low, high⟩ }

/-- Reads the first byte of a sequence. Overlong forms and surrogates are excluded by the range of
the second byte. -/
def lead (d : Decoder) (byte : Nat) : Decoder :=
  if byte < 0x80 then d.emit (Char.ofNat byte)
  else if byte < 0xC2 then d.replace
  else if byte < 0xE0 then d.await (byte - 0xC0) 1 0x80 0xBF
  else if byte = 0xE0 then d.await 0 2 0xA0 0xBF
  else if byte = 0xED then d.await 0xD 2 0x80 0x9F
  else if byte < 0xF0 then d.await (byte - 0xE0) 2 0x80 0xBF
  else if byte = 0xF0 then d.await 0 3 0x90 0xBF
  else if byte < 0xF4 then d.await (byte - 0xF0) 3 0x80 0xBF
  else if byte = 0xF4 then d.await 4 3 0x80 0x8F
  else d.replace

def feed (d : Decoder) (byte : UInt8) : Decoder :=
  match d.pending with
  | none => d.lead byte.toNat
  | some p =>
    if p.low ≤ byte.toNat ∧ byte.toNat ≤ p.high then
      let code := 64 * p.code + (byte.toNat - 0x80)
      if p.missing = 1 then d.emit (Char.ofNat code)
      else d.await code (p.missing - 1) 0x80 0xBF
    else d.replace.lead byte.toNat

def finish (d : Decoder) : Decoder :=
  match d.pending with
  | none => d
  | some _ => d.replace

def run (bytes : Bytes) : Decoder := (bytes.foldl feed start).finish

end Decoder

/-- Decoding that never fails: what is ill-formed becomes U+FFFD. -/
def decode (bytes : Bytes) : List Char := (Decoder.run bytes).produced.reverse

def decode? (bytes : Bytes) : Option (List Char) :=
  let d := Decoder.run bytes
  if d.wellFormed then some d.produced.reverse else none

def encode (text : List Char) : Bytes := text.flatMap String.utf8EncodeChar

end VibeLens.Text.Utf8
