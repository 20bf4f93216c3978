import VibeLens.Json.Basic

set_option autoImplicit false

/-!
The canonical text of a JSON value, with members in increasing order of their keys. A value is written
only if its integers fit 64-bit words and its containers are nested at most `depthLimit` deep.
-/

namespace VibeLens.Json

def depthLimit : Nat := 254

def hexDigit (n : Nat) : Char := Char.ofNat (if n < 10 then 48 + n else 87 + n)

def escape (c : Char) : List Char :=
  if c = '"' then ['\\', '"']
  else if c = '\\' then ['\\', '\\']
  else if c = '\n' then ['\\', 'n']
  else if c = '\r' then ['\\', 'r']
  else if c = '\t' then ['\\', 't']
  else if c.toNat = 8 then ['\\', 'b']
  else if c.toNat = 12 then ['\\', 'f']
  else if c.toNat < 32 then
    ['\\', 'u', '0', '0', hexDigit (c.toNat / 16), hexDigit (c.toNat % 16)]
  else [c]

def quoted (s : String) : List Char := '"' :: s.toList.flatMap escape ++ ['"']

def decimal (n : Int) : List Char :=
  match n with
  | .ofNat k => Nat.toDigits 10 k
  | .negSucc k => '-' :: Nat.toDigits 10 (k + 1)

def sortMembers {α : Type} (members : List (String × α)) : List (String × α) :=
  members.mergeSort fun a b => a.1 ≤ b.1

def commaSeparated (between : List Char) : List (List Char) → List Char
  | [] => []
  | [item] => item
  | item :: rest => item ++ between ++ commaSeparated between rest

mutual

def compact : Json → List Char
  | null => "null".toList
  | bool b => (if b then "true" else "false").toList
  | int n => decimal n
  | str s => quoted s
  | arr items => '[' :: commaSeparated [','] (compactItems items) ++ [']']
  | obj members =>
    '{' :: commaSeparated [',']
      ((sortMembers (compactMembers members)).map fun (key, text) => quoted key ++ ':' :: text)
      ++ ['}']

def compactItems : List Json → List (List Char)
  | [] => []
  | v :: vs => v.compact :: compactItems vs

def compactMembers : List (String × Json) → List (String × List Char)
  | [] => []
  | (key, v) :: ms => (key, v.compact) :: compactMembers ms

end

def newline (level : Nat) : List Char := '\n' :: List.replicate (2 * level) ' '

def block (level : Nat) (opening closing : Char) (items : List (List Char)) : List Char :=
  if items.isEmpty then [opening, closing]
  else opening :: newline (level + 1) ++ commaSeparated (',' :: newline (level + 1)) items
    ++ newline level ++ [closing]

mutual

def indentedAt (level : Nat) : Json → List Char
  | null => "null".toList
  | bool b => (if b then "true" else "false").toList
  | int n => decimal n
  | str s => quoted s
  | arr items => block level '[' ']' (indentedItems (level + 1) items)
  | obj members =>
    block level '{' '}'
      ((sortMembers (indentedMembers (level + 1) members)).map
        fun (key, text) => quoted key ++ ':' :: ' ' :: text)

def indentedItems (level : Nat) : List Json → List (List Char)
  | [] => []
  | v :: vs => v.indentedAt level :: indentedItems level vs

def indentedMembers (level : Nat) : List (String × Json) → List (String × List Char)
  | [] => []
  | (key, v) :: ms => (key, v.indentedAt level) :: indentedMembers level ms

end

def indented (v : Json) : List Char := v.indentedAt 0

/-- The values that have a text. -/
def writable (v : Json) : Bool := v.integersFit && v.depth ≤ depthLimit

def text? (v : Json) (indent : Bool) : Option (List Char) :=
  if v.writable then some (if indent then v.indented else v.compact) else none

end VibeLens.Json
