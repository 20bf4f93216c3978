import VibeLens.Text.Digit

set_option autoImplicit false

/-!
Lexical parts of TOML: blanks, comments, strings and keys. Each reader takes the rest of the document
and returns what is left. Line ends are single line feeds here.
-/

namespace VibeLens.Toml

/-- Why a document cannot be read. -/
inductive Fault where
  | malformed
  /-- A decimal integer has more digits than can be converted. -/
  | numeralTooLong
  deriving DecidableEq, Repr

abbrev Reader (α : Type) := List Char → Except Fault (α × List Char)

def isGap (c : Char) : Bool := c == ' ' || c == '\t'

def isGapOrBreak (c : Char) : Bool := isGap c || c == '\n'

def skipGap (src : List Char) : List Char := src.dropWhile isGap

def isControl (c : Char) : Bool := (c.toNat < 32 || c.toNat == 127) && c ≠ '\t'

def isControlInBlock (c : Char) : Bool := isControl c && c ≠ '\n'

def skipComment : List Char → Except Fault (List Char)
  | '#' :: rest =>
    let comment := rest.takeWhile (· ≠ '\n')
    if comment.any isControl then .error .malformed else .ok (rest.dropWhile (· ≠ '\n'))
  | src => .ok src

def skipFiller (src : List Char) : Except Fault (List Char) :=
  match _h : src.dropWhile isGapOrBreak with
  | '#' :: rest =>
    if (rest.takeWhile (· ≠ '\n')).any isControl then .error .malformed
    else skipFiller (rest.dropWhile (· ≠ '\n'))
  | rest => .ok rest
termination_by src.length
decreasing_by
  have h₁ := (List.dropWhile_suffix (l := src) isGapOrBreak).length_le
  have h₂ := (List.dropWhile_suffix (l := rest) (fun x => decide (x ≠ '\n'))).length_le
  rw [_h, List.length_cons] at h₁
  simp at h₂ ⊢
  omega

/-! ### Strings -/

def hexValue? (c : Char) : Option Nat :=
  if Text.isDigit c then some (c.toNat - '0'.toNat)
  else if 'a' ≤ c ∧ c ≤ 'f' then some (c.toNat - 'a'.toNat + 10)
  else if 'A' ≤ c ∧ c ≤ 'F' then some (c.toNat - 'A'.toNat + 10)
  else none

def hexChar? (digits : List Char) : Option Char := do
  let values ← digits.mapM hexValue?
  let code := values.foldl (fun n d => 16 * n + d) 0
  guard code.isValidChar
  return Char.ofNat code

def escaped? (c : Char) : Option Char :=
  match c with
  | 'b' => some (Char.ofNat 8)
  | 't' => some '\t'
  | 'n' => some '\n'
  | 'f' => some (Char.ofNat 12)
  | 'r' => some '\r'
  | '"' => some '"'
  | '\\' => some '\\'
  | _ => none

def escape? : List Char → Option (Char × List Char)
  | 'u' :: a :: b :: c :: d :: rest => (hexChar? [a, b, c, d]).map (·, rest)
  | 'U' :: a :: b :: c :: d :: e :: f :: g :: h :: rest =>
    (hexChar? [a, b, c, d, e, f, g, h]).map (·, rest)
  | c :: rest => (escaped? c).map (·, rest)
  | [] => none

theorem length_escape?_lt {src rest : List Char} {c : Char} (h : escape? src = some (c, rest)) :
    rest.length < src.length := by
  unfold escape? at h
  split at h
  · obtain ⟨_, _, he⟩ := Option.map_eq_some_iff.1 h
    cases he
    simp
    omega
  · obtain ⟨_, _, he⟩ := Option.map_eq_some_iff.1 h
    cases he
    simp
    omega
  · obtain ⟨_, _, he⟩ := Option.map_eq_some_iff.1 h
    cases he
    simp
  · cases h

/-- A string in double quotes on one line, after its opening quote. The characters read so far are
given backwards. -/
def basicFrom (taken : List Char) : Reader (List Char)
  | [] => .error .malformed
  | '"' :: rest => .ok (taken.reverse, rest)
  | '\\' :: rest =>
    match _h : escape? rest with
    | some (c, after) => basicFrom (c :: taken) after
    | none => .error .malformed
  | c :: rest => if isControl c then .error .malformed else basicFrom (c :: taken) rest
termination_by src => src.length
decreasing_by
  all_goals simp_wf
  all_goals (try have := length_escape?_lt _h)
  all_goals omega

/-- The rest after a backslash that joins lines: blanks, a line break, then blanks and breaks. A
backslash before blanks that end the document joins them to nothing. -/
def joinLines? (src : List Char) : Option (List Char) :=
  if src.head?.any isGapOrBreak then
    match skipGap src with
    | [] => some []
    | '\n' :: rest => some (rest.dropWhile isGapOrBreak)
    | _ => none
  else none

theorem length_joinLines?_le {src rest : List Char} (h : joinLines? src = some rest) :
    rest.length ≤ src.length := by
  unfold joinLines? at h
  split at h
  · have h₁ := (List.dropWhile_suffix (l := src) isGap).length_le
    split at h
    · cases h
      simp
    · rename_i more hs
      cases h
      have h₂ := (List.dropWhile_suffix (l := more) isGapOrBreak).length_le
      rw [skipGap] at hs
      rw [hs, List.length_cons] at h₁
      omega
    · cases h
  · cases h

def basicBlockFrom (taken : List Char) : Reader (List Char)
  | [] => .error .malformed
  | '"' :: '"' :: '"' :: rest => .ok (taken.reverse, rest)
  | '\\' :: rest =>
    match _h : joinLines? rest with
    | some after => basicBlockFrom taken after
    | none =>
      if rest.head?.any isGapOrBreak then .error .malformed
      else
        match _h' : escape? rest with
        | some (c, after) => basicBlockFrom (c :: taken) after
        | none => .error .malformed
  | c :: rest => if isControlInBlock c then .error .malformed else basicBlockFrom (c :: taken) rest
termination_by src => src.length
decreasing_by
  all_goals simp_wf
  · have := length_joinLines?_le _h
    omega
  · have := length_escape?_lt _h'
    omega

def literal (src : List Char) : Except Fault (List Char × List Char) :=
  let body := src.takeWhile (· ≠ '\'')
  match src.dropWhile (· ≠ '\'') with
  | _ :: rest => if body.any isControl then .error .malformed else .ok (body, rest)
  | [] => .error .malformed

def literalBlockFrom (taken : List Char) : Reader (List Char)
  | [] => .error .malformed
  | '\'' :: '\'' :: '\'' :: rest => .ok (taken.reverse, rest)
  | c :: rest => if isControlInBlock c then .error .malformed else literalBlockFrom (c :: taken) rest

/-- Up to two quotes right after the closing ones belong to the string. -/
def extraQuotes (quote : Char) (body : List Char) : List Char → List Char × List Char
  | c :: d :: rest =>
    if c = quote then
      if d = quote then (body ++ [quote, quote], rest) else (body ++ [quote], d :: rest)
    else (body, c :: d :: rest)
  | [c] => if c = quote then (body ++ [quote], []) else (body, [c])
  | [] => (body, [])

/-- A line break right after the opening quotes of a block does not count. -/
def dropFirstBreak : List Char → List Char
  | '\n' :: rest => rest
  | src => src

def string? : List Char → Option (Except Fault (List Char × List Char))
  | '"' :: '"' :: '"' :: rest => some do
    let (body, rest) ← basicBlockFrom [] (dropFirstBreak rest)
    return extraQuotes '"' body rest
  | '"' :: rest => some (basicFrom [] rest)
  | '\'' :: '\'' :: '\'' :: rest => some do
    let (body, rest) ← literalBlockFrom [] (dropFirstBreak rest)
    return extraQuotes '\'' body rest
  | '\'' :: rest => some (literal rest)
  | _ => none

/-! ### Keys -/

def isBareKey (c : Char) : Bool :=
  ('a' ≤ c && c ≤ 'z') || ('A' ≤ c && c ≤ 'Z') || Text.isDigit c || c == '-' || c == '_'

def startsKey (c : Char) : Bool := isBareKey c || c == '"' || c == '\''

def keyPart (src : List Char) : Except Fault (String × List Char) :=
  match src with
  | '\'' :: rest => do
    let (name, rest) ← literal rest
    return (String.ofList name, rest)
  | '"' :: rest => do
    let (name, rest) ← basicFrom [] rest
    return (String.ofList name, rest)
  | _ =>
    let name := src.takeWhile isBareKey
    if name.isEmpty then .error .malformed
    else .ok (String.ofList name, src.dropWhile isBareKey)

/-- A key of one or more parts with dots between them. Each part takes a character, so the length of
the source bounds their number. -/
def keyFrom : (fuel : Nat) → Reader (List String)
  | 0, _ => .error .malformed
  | fuel + 1, src => do
    let (part, rest) ← keyPart src
    match skipGap rest with
    | '.' :: rest => do
      let (parts, rest) ← keyFrom fuel (skipGap rest)
      return (part :: parts, rest)
    | rest => return ([part], rest)

def key (src : List Char) : Except Fault (List String × List Char) := keyFrom (src.length + 1) src

end VibeLens.Toml
