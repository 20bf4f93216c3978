import VibeLens.Shell.Lexer

set_option autoImplicit false

/-!
Reads commands off tokens. A script is read and run line by line, so a fault in a later line shows
only when that line is reached.
-/

namespace VibeLens.Shell

/-- A syntax fault: what stands where it should not, and on which line. -/
structure SyntaxFault where
  line : Nat
  reason : String
  deriving DecidableEq, Repr

/-- A reader of commands works on the tokens that are left and the number of the last line. -/
structure Remaining where
  tokens : List Placed
  lastLine : Nat

abbrev Parser := StateT Remaining (Except SyntaxFault)

namespace Token

def reservedWords : List String :=
  ["!", "case", "do", "done", "elif", "else", "esac", "fi", "for", "if", "then", "until", "while",
   "\x7b", "\x7d"]

def reserved? : Token → Option String
  | word w =>
    match literal? w with
    | some text =>
      let name := String.ofList text
      if reservedWords.contains name then some name else none
    | none => none
  | _ => none

def describe : Token → String
  | newline => "newline"
  | operator name => "\"" ++ name ++ "\""
  | redirect _ _ => "redirection"
  | broken reason => reason
  | here _ => "redirection"
  | word w =>
    match reserved? (word w) with
    | some name => "\"" ++ name ++ "\""
    | none => "word"

end Token

def redirectKind (name : String) : RedirectKind :=
  if name = ">>" then .append
  else if name = "<<" ∨ name = "<<-" then .here
  else if name = ">&" ∨ name = "<&" then .duplicate
  else if name = "<" then .read
  else .write

def defaultDescriptor (name : String) : Nat := if name.startsWith "<" then 0 else 1

namespace Parser

def peek : Parser (Option Token) := do return (← get).tokens.head?.map Placed.token

def line : Parser Nat := do
  let r ← get
  return (r.tokens.head?.map Placed.line).getD r.lastLine

def advance : Parser Unit := modify fun r => { r with tokens := r.tokens.tail }

def unexpected {α : Type} (expecting : String) : Parser α := do
  let hint := if expecting = "" then "" else " (expecting \"" ++ expecting ++ "\")"
  match ← peek with
  | none => throw ⟨← line, "end of file unexpected" ++ hint⟩
  | some (.broken reason) => throw ⟨← line, reason⟩
  | some t => throw ⟨← line, t.describe ++ " unexpected" ++ hint⟩

def skipNewlines : Parser Unit :=
  modify fun r => { r with tokens := r.tokens.dropWhile fun p => p.token = .newline }

def reserved? : Parser (Option String) := do return (← peek).bind Token.reserved?

def accept (name : String) : Parser Bool := do
  if (← peek) = some (.operator name) then
    advance
    return true
  else return false

def expect (name : String) : Parser Unit := do
  if (← reserved?) = some name then advance else unexpected name

def isHere (p : Placed) : Bool :=
  match p.token with
  | .here _ => true
  | _ => false

def takeHere : Parser Word := do
  let r ← get
  match r.tokens.find? isHere with
  | some ⟨.here text, _⟩ =>
    set { r with tokens := r.tokens.takeWhile (!isHere ·) ++ (r.tokens.dropWhile (!isHere ·)).tail }
    return text
  | _ => return []

def redirect (descriptor : Option Nat) (name : String) : Parser Redirect := do
  advance
  match ← peek with
  | some (.word w) =>
    advance
    let target ← if redirectKind name = .here then takeHere else pure w
    return ⟨descriptor.getD (defaultDescriptor name), redirectKind name, target⟩
  | _ => unexpected ""

def redirects : (fuel : Nat) → Parser (List Redirect)
  | 0 => return []
  | fuel + 1 => do
    match ← peek with
    | some (.redirect n name) => return (← redirect n name) :: (← redirects fuel)
    | _ => return []

def simpleParts : (fuel : Nat) → Parser (List Word × List Redirect)
  | 0 => return ([], [])
  | fuel + 1 => do
    match ← peek with
    | some (.word w) =>
      advance
      let (words, more) ← simpleParts fuel
      return (w :: words, more)
    | some (.redirect n name) =>
      let r ← redirect n name
      let (words, more) ← simpleParts fuel
      return (words, r :: more)
    | some (.broken _) => unexpected ""
    | _ => return ([], [])

def wordList : (fuel : Nat) → Parser (List Word)
  | 0 => return []
  | fuel + 1 => do
    match ← peek with
    | some (.word w) =>
      advance
      return w :: (← wordList fuel)
    | _ => return []

def closers : List String := ["then", "else", "elif", "esac", "fi", "do", "done", "\x7d"]

def patterns : (fuel : Nat) → Parser (List Word)
  | 0 => unexpected ""
  | fuel + 1 => do
    match ← peek with
    | some (.word w) =>
      advance
      if ← accept "|" then return w :: (← patterns fuel)
      else if ← accept ")" then return [w]
      else unexpected ")"
    | _ => unexpected ""

mutual

/-- Commands joined by semicolons, ampersands and, inside a compound command, line ends. -/
def commandList (inside : Bool) : (fuel : Nat) → Parser Command
  | 0 => unexpected ""
  | fuel + 1 => do
    if inside then skipNewlines
    let next ← peek
    if next = none ∨ next = some .newline ∨ next = some (.operator ")")
        ∨ next = some (.operator ";;") then return .skip
    else if inside && (← reserved?).any closers.contains then return .skip
    else
      let first ← andOr fuel
      if ← accept ";" then return .seq first (← commandList inside fuel)
      else if ← accept "&" then return .seq (.background first) (← commandList inside fuel)
      else if inside && (← peek) = some .newline then
        return .seq first (← commandList inside fuel)
      else return first

def andOr : (fuel : Nat) → Parser Command
  | 0 => unexpected ""
  | fuel + 1 => do andOrRest fuel (← pipeline fuel)

def andOrRest : (fuel : Nat) → Command → Parser Command
  | 0, _ => unexpected ""
  | fuel + 1, first => do
    if ← accept "&&" then
      skipNewlines
      andOrRest fuel (.both first (← pipeline fuel))
    else if ← accept "||" then
      skipNewlines
      andOrRest fuel (.either first (← pipeline fuel))
    else return first

def pipeline : (fuel : Nat) → Parser Command
  | 0 => unexpected ""
  | fuel + 1 => do
    if (← reserved?) = some "!" then
      advance
      return .negate (← pipeline fuel)
    else
      let first ← command fuel
      if ← accept "|" then
        skipNewlines
        return .pipe first (← pipeline fuel)
      else return first

def command : (fuel : Nat) → Parser Command
  | 0 => unexpected ""
  | fuel + 1 => do
    if ← accept "(" then
      let body ← commandList true fuel
      if ← accept ")" then return .redirected (.nested body) (← redirects fuel)
      else unexpected ")"
    else
      match ← reserved? with
      | some "\x7b" =>
        advance
        let body ← commandList true fuel
        expect "\x7d"
        return .redirected body (← redirects fuel)
      | some "if" =>
        advance
        let body ← branches fuel
        return .redirected body (← redirects fuel)
      | some "while" =>
        advance
        let c ← commandList true fuel
        let body ← loopBody fuel
        return .redirected (.loop false c body) (← redirects fuel)
      | some "until" =>
        advance
        let c ← commandList true fuel
        let body ← loopBody fuel
        return .redirected (.loop true c body) (← redirects fuel)
      | some "case" =>
        advance
        let c ← choice fuel
        return .redirected c (← redirects fuel)
      | some "for" =>
        advance
        let c ← forLoop fuel
        return .redirected c (← redirects fuel)
      | some _ => unexpected ""
      | none => simple fuel

def simple : (fuel : Nat) → Parser Command
  | 0 => unexpected ""
  | fuel + 1 => do
    let start ← line
    let (words, more) ← simpleParts fuel
    match words, more with
    | [], [] => unexpected ""
    | [w], [] =>
      if ← accept "(" then
        if ← accept ")" then
          skipNewlines
          return .define ((literal? w).getD []) (← command fuel)
        else unexpected ")"
      else return .simple start words more
    | _, _ => return .simple start words more

def branches : (fuel : Nat) → Parser Command
  | 0 => unexpected ""
  | fuel + 1 => do
    let c ← commandList true fuel
    expect "then"
    let yes ← commandList true fuel
    match ← reserved? with
    | some "elif" =>
      advance
      return .branch c yes (← branches fuel)
    | some "else" =>
      advance
      let no ← commandList true fuel
      expect "fi"
      return .branch c yes no
    | _ =>
      expect "fi"
      return .branch c yes .skip

def choice : (fuel : Nat) → Parser Command
  | 0 => unexpected ""
  | fuel + 1 => do
    match ← peek with
    | some (.word w) =>
      advance
      skipNewlines
      if (← peek) = some (.word [.plain ['i', 'n']]) then
        advance
        return .choose w (← arms fuel)
      else unexpected "in"
    | _ => unexpected ""

def arms : (fuel : Nat) → Parser (List (List Word × Command))
  | 0 => unexpected ""
  | fuel + 1 => do
    skipNewlines
    if (← reserved?) = some "esac" then
      advance
      return []
    else
      let _ ← accept "("
      let list ← patterns fuel
      let body ← commandList true fuel
      if ← accept ";;" then return (list, body) :: (← arms fuel)
      else
        expect "esac"
        return [(list, body)]

def loopBody : (fuel : Nat) → Parser Command
  | 0 => unexpected ""
  | fuel + 1 => do
    expect "do"
    let body ← commandList true fuel
    expect "done"
    return body

def forLoop : (fuel : Nat) → Parser Command
  | 0 => unexpected ""
  | fuel + 1 => do
    match ← peek with
    | some (.word w) =>
      advance
      skipNewlines
      let words ←
        if (← peek) = some (.word [.plain ['i', 'n']]) then
          advance
          pure (some (← wordList fuel))
        else pure none
      let _ ← accept ";"
      skipNewlines
      return .each ((literal? w).getD []) words (← loopBody fuel)
    | _ => throw ⟨← line, "Bad for loop variable"⟩

end

def nextLine : Parser Command := do
  let c ← commandList false (6 * (← get).tokens.length + 16)
  match ← peek with
  | none => return c
  | some .newline =>
    advance
    return c
  | some _ => unexpected ""

end Parser
end VibeLens.Shell
