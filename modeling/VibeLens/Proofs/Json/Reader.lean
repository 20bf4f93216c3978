import Mathlib.Data.Option.Basic
import VibeLens.Json.Basic
import VibeLens.Number.Numeral
import VibeLens.Toml.Text

set_option autoImplicit false

/-!
JSON text read back. The text is cut into tokens, which do away with the gaps between them, and the
tokens are put together on a stack of the containers that are still open. Members keep the order in
which they are written. A number with a fraction or an exponent has no value here and is not read.
-/

namespace VibeLens.Json

open Text

inductive Token where
  | openArray
  | closeArray
  | openObject
  | closeObject
  | comma
  | colon
  | scalar (value : Json)

def isGap (c : Char) : Bool := c = ' ' || c = '\t' || c = '\n' || c = '\r'

def punctuation? (c : Char) : Option Token :=
  match c with
  | '[' => some .openArray
  | ']' => some .closeArray
  | '{' => some .openObject
  | '}' => some .closeObject
  | ',' => some .comma
  | ':' => some .colon
  | _ => none

/-! ### Strings -/

def hexCode? (digits : List Char) : Option Nat :=
  (digits.mapM Toml.hexValue?).map (Numeral.ofDigits 16)

/-- The second half of a character beyond the first 65536, whose first half was just read. -/
def lowHalf? (high : Nat) : List Char → Option (Char × List Char)
  | '\\' :: 'u' :: a :: b :: c :: d :: rest => do
    let low ← hexCode? [a, b, c, d]
    guard (0xDC00 ≤ low ∧ low < 0xE000)
    return (Char.ofNat (0x10000 + 0x400 * (high - 0xD800) + (low - 0xDC00)), rest)
  | _ => none

def escape? : List Char → Option (Char × List Char)
  | 'u' :: a :: b :: c :: d :: rest => do
    let code ← hexCode? [a, b, c, d]
    if 0xD800 ≤ code ∧ code < 0xDC00 then lowHalf? code rest
    else
      guard code.isValidChar
      return (Char.ofNat code, rest)
  | '/' :: rest => some ('/', rest)
  | c :: rest => (Toml.escaped? c).map (·, rest)
  | [] => none

theorem length_lowHalf?_lt {high : Nat} {text rest : List Char} {c : Char}
    (h : lowHalf? high text = some (c, rest)) : rest.length < text.length := by
  unfold lowHalf? at h
  split at h
  · simp only [bind, Option.bind_eq_some_iff, pure] at h
    obtain ⟨low, -, -, -, found⟩ := h
    obtain ⟨-, rfl⟩ := Prod.mk.inj (Option.some.inj found)
    simp only [List.length_cons]
    omega
  · cases h

theorem length_escape?_lt {text rest : List Char} {c : Char} (h : escape? text = some (c, rest)) :
    rest.length < text.length := by
  unfold escape? at h
  split at h
  · obtain ⟨code, -, h⟩ := Option.bind_eq_some_iff.mp h
    split at h
    · have := length_lowHalf?_lt h
      simp only [List.length_cons]
      omega
    · obtain ⟨-, -, found⟩ := Option.bind_eq_some_iff.mp h
      cases found
      simp only [List.length_cons]
      omega
  · cases h
    exact Nat.lt_succ_self _
  · obtain ⟨_, -, found⟩ := Option.map_eq_some_iff.mp h
    cases found
    exact Nat.lt_succ_self _
  · cases h

/-- The rest of a string whose opening quote was just read, and what follows it. -/
def stringRest? : List Char → Option (List Char × List Char)
  | [] => none
  | '"' :: rest => some ([], rest)
  | '\\' :: rest =>
    match _h : escape? rest with
    | some (c, after) => (stringRest? after).map fun (text, more) => (c :: text, more)
    | none => none
  | c :: rest =>
    if c.toNat < 0x20 then none
    else (stringRest? rest).map fun (text, more) => (c :: text, more)
termination_by text => text.length
decreasing_by
  all_goals simp_wf
  have := length_escape?_lt _h
  omega

theorem length_stringRest?_lt {text rest chars : List Char}
    (h : stringRest? text = some (chars, rest)) : rest.length < text.length := by
  fun_induction stringRest? text generalizing chars rest with
  | case1 => cases h
  | case2 =>
    cases h
    exact Nat.lt_succ_self _
  | case3 text c after found ih =>
    obtain ⟨⟨more, behind⟩, read, same⟩ := Option.map_eq_some_iff.mp h
    cases same
    have := length_escape?_lt found
    have := ih read
    simp only [List.length_cons]
    omega
  | case4 => cases h
  | case5 => cases h
  | case6 c text _ _ _ ih =>
    obtain ⟨⟨more, behind⟩, read, same⟩ := Option.map_eq_some_iff.mp h
    cases same
    have := ih read
    simp only [List.length_cons]
    omega

/-! ### Scalars -/

/-- A numeral without sign. One that starts with zero is zero. -/
def numeral? : List Char → Option (Nat × List Char)
  | '0' :: rest => some (0, rest)
  | text =>
    let digits := text.takeWhile isDigit
    if digits.isEmpty then none else some (decimalValue digits, text.dropWhile isDigit)

def literals : List (List Char × Json) :=
  [("null".toList, .null), ("true".toList, .bool true), ("false".toList, .bool false)]

def literal? (text : List Char) : Option (Json × List Char) :=
  (literals.find? fun l => l.1.isPrefixOf text).map fun l => (l.2, text.drop l.1.length)

def scalar? : List Char → Option (Json × List Char)
  | '"' :: rest => (stringRest? rest).map fun (chars, after) => (.str (String.ofList chars), after)
  | '-' :: rest => (numeral? rest).map fun (n, after) => (.int (-n), after)
  | text => ((numeral? text).map fun (n, after) => (.int n, after)).or (literal? text)

theorem length_numeral?_lt {text rest : List Char} {n : Nat} (h : numeral? text = some (n, rest)) :
    rest.length < text.length := by
  unfold numeral? at h
  split at h
  · cases h
    exact Nat.lt_succ_self _
  · simp only [Option.ite_none_left_eq_some] at h
    obtain ⟨nonempty, found⟩ := h
    cases found
    have split := congrArg List.length (List.takeWhile_append_dropWhile (p := isDigit) (l := text))
    have := List.length_pos_iff.mpr fun empty => nonempty (List.isEmpty_iff.mpr empty)
    rw [List.length_append] at split
    omega

theorem length_literal?_lt {text rest : List Char} {v : Json} (h : literal? text = some (v, rest)) :
    rest.length < text.length := by
  obtain ⟨⟨word, value⟩, found, same⟩ := Option.map_eq_some_iff.mp h
  cases same
  have starts := List.find?_some found
  have := (List.isPrefixOf_iff_prefix.mp starts).length_le
  have nonempty : 0 < word.length := by
    have mem := List.mem_of_find?_eq_some found
    simp only [literals, List.mem_cons, List.not_mem_nil, or_false, Prod.mk.injEq] at mem
    rcases mem with ⟨rfl, -⟩ | ⟨rfl, -⟩ | ⟨rfl, -⟩
    all_goals decide
  dsimp only at this ⊢
  rw [List.length_drop]
  omega

theorem length_scalar?_lt {text rest : List Char} {v : Json} (h : scalar? text = some (v, rest)) :
    rest.length < text.length := by
  unfold scalar? at h
  split at h
  · obtain ⟨⟨chars, after⟩, read, same⟩ := Option.map_eq_some_iff.mp h
    cases same
    exact Nat.lt_succ_of_lt (length_stringRest?_lt read)
  · obtain ⟨⟨n, after⟩, read, same⟩ := Option.map_eq_some_iff.mp h
    cases same
    exact Nat.lt_succ_of_lt (length_numeral?_lt read)
  · rcases Option.or_eq_some_iff.mp h with number | ⟨-, word⟩
    · obtain ⟨⟨n, after⟩, read, same⟩ := Option.map_eq_some_iff.mp number
      cases same
      exact length_numeral?_lt read
    · exact length_literal?_lt word

def tokens? : List Char → Option (List Token)
  | [] => some []
  | c :: rest =>
    if isGap c then tokens? rest
    else
      match punctuation? c with
      | some t => (tokens? rest).map (t :: ·)
      | none =>
        match _h : scalar? (c :: rest) with
        | some (v, after) => (tokens? after).map (.scalar v :: ·)
        | none => none
termination_by text => text.length
decreasing_by
  all_goals simp_wf
  have := length_scalar?_lt _h
  simp only [List.length_cons] at this
  omega

/-! ### Values -/

/-- A container that is still open, with what it holds so far, the newest first. -/
inductive Opened where
  | array (items : List Json)
  | object (members : List (String × Json)) (key : String)

mutual

def value? (stack : List Opened) : List Token → Option Json
  | .scalar v :: rest => proceed? v stack rest
  | .openArray :: .closeArray :: rest => proceed? (.arr []) stack rest
  | .openArray :: rest => value? (.array [] :: stack) rest
  | .openObject :: .closeObject :: rest => proceed? (.obj []) stack rest
  | .openObject :: rest => key? [] stack rest
  | _ => none

def proceed? (v : Json) (stack : List Opened) : List Token → Option Json
  | [] => if stack.isEmpty then some v else none
  | .comma :: rest =>
    match stack with
    | .array items :: stack => value? (.array (v :: items) :: stack) rest
    | .object members key :: stack => key? ((key, v) :: members) stack rest
    | [] => none
  | .closeArray :: rest =>
    match stack with
    | .array items :: stack => proceed? (.arr (v :: items).reverse) stack rest
    | _ => none
  | .closeObject :: rest =>
    match stack with
    | .object members key :: stack => proceed? (.obj ((key, v) :: members).reverse) stack rest
    | _ => none
  | _ => none

def key? (members : List (String × Json)) (stack : List Opened) : List Token → Option Json
  | .scalar (.str key) :: .colon :: rest => value? (.object members key :: stack) rest
  | _ => none

end

def read? (text : List Char) : Option Json := (tokens? text).bind (value? [])

end VibeLens.Json
