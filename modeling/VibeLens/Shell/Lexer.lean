import VibeLens.Shell.Syntax
import VibeLens.Text.Digit

set_option autoImplicit false

/-!
Cuts a script into tokens. A word is a row of parts, quoted and unquoted. The texts of command
substitutions and of formulas are kept raw and read when they are needed.
-/

namespace VibeLens.Shell

inductive Token where
  | word (w : Word)
  | operator (name : String)
  | redirect (descriptor : Option Nat) (name : String)
  /-- Text of the lines below, for a redirection of this line. -/
  | here (text : Word)
  | newline
  | broken (reason : String)
  deriving DecidableEq, Repr

structure Placed where
  token : Token
  line : Nat
  deriving DecidableEq, Repr

def isNameStart (c : Char) : Bool := ('a' ≤ c && c ≤ 'z') || ('A' ≤ c && c ≤ 'Z') || c == '_'

def isNameChar (c : Char) : Bool := isNameStart c || Text.isDigit c

def isSpecial (c : Char) : Bool := "@*#?-$!0123456789".toList.contains c

def breaks (text : Text) : Nat := text.count '\n'

/-- The text up to the closing bracket of a group that is open, quotes and nested groups included,
and what follows the bracket. -/
def balanced (opening closing : Char) :
    (fuel : Nat) → (depth : Nat) → (taken : Text) → Text → Option (Text × Text)
  | 0, _, _, _ => none
  | _ + 1, _, _, [] => none
  | fuel + 1, depth, taken, '\\' :: c :: rest =>
    balanced opening closing fuel depth (c :: '\\' :: taken) rest
  | fuel + 1, depth, taken, '\'' :: rest =>
    let body := rest.takeWhile (· ≠ '\'')
    match rest.dropWhile (· ≠ '\'') with
    | [] => none
    | _ :: after =>
      balanced opening closing fuel depth ('\'' :: (body.reverse ++ '\'' :: taken)) after
  | fuel + 1, depth, taken, c :: rest =>
    if c = closing then
      match depth with
      | 0 => some (taken.reverse, rest)
      | depth + 1 => balanced opening closing fuel depth (c :: taken) rest
    else if c = opening then balanced opening closing fuel (depth + 1) (c :: taken) rest
    else balanced opening closing fuel depth (c :: taken) rest

def substitute? (c : Char) : Option Substitute :=
  match c with
  | '-' => some .default
  | '=' => some .assign
  | '+' => some .alternative
  | '?' => some .demand
  | _ => none

def modifier : Text → Modifier
  | [] => .value
  | '%' :: '%' :: pattern => .trim true true pattern
  | '%' :: pattern => .trim true false pattern
  | '#' :: '#' :: pattern => .trim false true pattern
  | '#' :: pattern => .trim false false pattern
  | ':' :: c :: word => ((substitute? c).map fun k => .substitute k word true).getD .unknown
  | c :: word => ((substitute? c).map fun k => .substitute k word false).getD .unknown

def braced (body : Text) (quoted : Bool) : Part :=
  match body with
  | '#' :: c :: rest =>
    .parameter (c :: rest) (if (c :: rest).all isNameChar then .length else .unknown) quoted
  | _ =>
    let named := body.takeWhile isNameChar
    let name := if named.isEmpty then body.take 1 else named
    let m := modifier (body.drop name.length)
    .parameter name (if name.isEmpty then .unknown else m) quoted

def dollar (quoted : Bool) (src : Text) : Option (Part × Text) :=
  match src with
  | '(' :: '(' :: rest =>
    match balanced '(' ')' (rest.length + 1) 1 [] rest with
    | some (body, after) =>
      if body.getLast? = some ')' then some (.arithmetic body.dropLast quoted, after)
      else some (.output ('(' :: body) quoted, after)
    | none => none
  | '(' :: rest => (balanced '(' ')' (rest.length + 1) 0 [] rest).map fun (body, after) =>
    (.output body quoted, after)
  | '{' :: rest =>
    match balanced '{' '}' (rest.length + 1) 0 [] rest with
    | some (body, after) => some (braced body quoted, after)
    | none => none
  | c :: rest =>
    if isNameStart c then
      some (.parameter (c :: rest.takeWhile isNameChar) .value quoted, rest.dropWhile isNameChar)
    else if isSpecial c then some (.parameter [c] .value quoted, rest)
    else some (.plain ['$'], src)
  | [] => some (.plain ['$'], [])

def doubleQuoted : (fuel : Nat) → Text → Option (Word × Text)
  | 0, _ => none
  | _ + 1, [] => none
  | _ + 1, '"' :: rest => some ([], rest)
  | fuel + 1, '\\' :: c :: rest => do
    let (parts, after) ← doubleQuoted fuel rest
    if c = '\n' then return (parts, after)
    let escaped := "$`\"\\".toList.contains c
    return (.quoted (if escaped then [c] else ['\\', c]) :: parts, after)
  | fuel + 1, '$' :: rest => do
    let (part, rest) ← dollar true rest
    let (parts, after) ← doubleQuoted fuel rest
    let part := match part with
      | .plain text => .quoted text
      | p => p
    return (part :: parts, after)
  | fuel + 1, '`' :: rest =>
    match rest.dropWhile (· ≠ '`') with
    | [] => none
    | _ :: more => do
      let (parts, after) ← doubleQuoted fuel more
      return (.output (rest.takeWhile (· ≠ '`')) true :: parts, after)
  | fuel + 1, c :: rest => do
    let (parts, after) ← doubleQuoted fuel rest
    return (.quoted [c] :: parts, after)

def endsWord (c : Char) : Bool := " \t\n;&|<>()".toList.contains c

/-- The parts of a word, and what follows it. With `whole` nothing ends the word. -/
def wordParts (whole : Bool) : (fuel : Nat) → Text → Option (Word × Text)
  | 0, _ => none
  | _ + 1, [] => some ([], [])
  | fuel + 1, '\'' :: rest =>
    match rest.dropWhile (· ≠ '\'') with
    | [] => none
    | _ :: more => do
      let (parts, after) ← wordParts whole fuel more
      return (.quoted (rest.takeWhile (· ≠ '\'')) :: parts, after)
  | fuel + 1, '"' :: rest => do
    let (inner, rest) ← doubleQuoted (rest.length + 1) rest
    let (parts, after) ← wordParts whole fuel rest
    return ((if inner.isEmpty then [.quoted []] else inner) ++ parts, after)
  | fuel + 1, '\\' :: c :: rest => do
    let (parts, after) ← wordParts whole fuel rest
    return (if c = '\n' then parts else .quoted [c] :: parts, after)
  | fuel + 1, '$' :: rest => do
    let (part, rest) ← dollar false rest
    let (parts, after) ← wordParts whole fuel rest
    return (part :: parts, after)
  | fuel + 1, '`' :: rest =>
    match rest.dropWhile (· ≠ '`') with
    | [] => none
    | _ :: more => do
      let (parts, after) ← wordParts whole fuel more
      return (.output (rest.takeWhile (· ≠ '`')) false :: parts, after)
  | fuel + 1, c :: rest =>
    if !whole && endsWord c then some ([], c :: rest)
    else do
      let (parts, after) ← wordParts whole fuel rest
      return match parts with
        | .plain text :: more => (.plain (c :: text) :: more, after)
        | parts => (.plain [c] :: parts, after)

/-- The redirection operators, longer ones first. -/
def redirects : List String := ["<<-", "<<", ">>", ">&", ">|", "<&", ">", "<"]

def operators : List String := ["&&", "||", ";;", ";", "&", "|", "(", ")"]

def operator? (names : List String) (src : Text) : Option (String × Text) :=
  (names.find? fun n => n.toList.isPrefixOf src).map fun n => (n, src.drop n.length)

def descriptor? (src : Text) : Option (Nat × Text) :=
  let digits := src.takeWhile Text.isDigit
  let rest := src.dropWhile Text.isDigit
  if digits.isEmpty || (operator? redirects rest).isNone then none
  else some (Text.decimalValue digits, rest)

/-- Text that is awaited from the lines below: the line that ends it, whether tabs in front of its
lines go, and whether it is taken as it stands. -/
structure Awaited where
  closing : Text
  stripTabs : Bool
  verbatim : Bool
  deriving DecidableEq, Repr

namespace Awaited

def lines (a : Awaited) : (fuel : Nat) → Text → Text × Text
  | 0, src => ([], src)
  | _ + 1, [] => ([], [])
  | fuel + 1, src =>
    let raw := src.takeWhile (· ≠ '\n')
    let line := if a.stripTabs then raw.dropWhile (· = '\t') else raw
    let rest := src.drop (raw.length + 1)
    if line = a.closing then ([], rest)
    else
      let (more, after) := lines a fuel rest
      (line ++ '\n' :: more, after)

def word (a : Awaited) (text : Text) : Word :=
  if a.verbatim then [.quoted text]
  else
    let src := text.flatMap (fun c => if c = '"' then ['\\', '"'] else [c]) ++ ['"']
    match doubleQuoted (src.length + 1) src with
    | some (parts, _) => parts
    | none => [.quoted text]

def takeAll : List Awaited → Text → List Word × Text
  | [], src => ([], src)
  | a :: rest, src =>
    let (text, src) := a.lines (src.length + 1) src
    let (words, src) := takeAll rest src
    (a.word text :: words, src)

end Awaited

def plainText (w : Word) : Text :=
  w.flatMap fun
    | .plain text | .quoted text => text
    | _ => []

def isQuoted (w : Word) : Bool :=
  w.any fun
    | .quoted _ => true
    | _ => false

/-- The tokens of a script from the given line on. What cannot be read becomes a broken token.
`opened` is the operator just read, if it awaits text from the lines below. -/
def tokens : (fuel : Nat) → (line : Nat) → (opened : Option String) → List Awaited → Text →
    List Placed
  | 0, _, _, _, _ => []
  | _ + 1, _, _, _, [] => []
  | fuel + 1, line, _, awaited, '\n' :: rest =>
    let (texts, after) := Awaited.takeAll awaited rest
    let passed := 1 + breaks rest - breaks after
    texts.map (fun text => ⟨.here text, line⟩) ++
      ⟨.newline, line⟩ :: tokens fuel (line + passed) none [] after
  | fuel + 1, line, opened, awaited, '\\' :: '\n' :: rest =>
    tokens fuel (line + 1) opened awaited rest
  | fuel + 1, line, opened, awaited, c :: rest =>
    if c = ' ' ∨ c = '\t' then tokens fuel line opened awaited rest
    else if c = '#' then tokens fuel line none awaited (rest.dropWhile (· ≠ '\n'))
    else
      let (number, src) :=
        match descriptor? (c :: rest) with
        | some (n, after) => (some n, after)
        | none => (none, c :: rest)
      match operator? redirects src with
      | some (name, rest) =>
        let opened := if name = "<<" ∨ name = "<<-" then some name else none
        ⟨.redirect number name, line⟩ :: tokens fuel line opened awaited rest
      | none =>
        match operator? operators src with
        | some (name, rest) => ⟨.operator name, line⟩ :: tokens fuel line none awaited rest
        | none =>
          match wordParts false (src.length + 1) src with
          | some (w, after) =>
            let passed := breaks src - breaks after
            let awaited := match opened with
              | some name => awaited ++ [⟨plainText w, name = "<<-", isQuoted w⟩]
              | none => awaited
            ⟨.word w, line⟩ :: tokens fuel (line + passed) none awaited after
          | none => [⟨.broken "Unterminated quoted string", line + breaks src⟩]

def tokenize (src : Text) : List Placed := tokens (src.length + 1) 1 none [] src

end VibeLens.Shell
