import VibeLens.Symbol
import VibeLens.Text.Blank
import VibeLens.Text.Digit
import VibeLens.Text.Word

set_option autoImplicit false

/-!
What a single line says about the outline. A definition is read off the line as it stands; blocks are
read off its code portion, in which string literals are emptied and a comment is dropped. No choice is
ever taken back, because at each point the next character decides.
-/

namespace VibeLens.Outline

open Text

def word? (word : List Char) (line : List Char) : Option (List Char) :=
  if word.isPrefixOf line then some (line.drop word.length) else none

def blanks? : List Char → Option (List Char)
  | c :: rest => if isBlank c then some (skipBlanks rest) else none
  | [] => none

def wordEnds : List Char → Bool
  | c :: _ => !isWord c
  | [] => true

/-! ### Definitions -/

def isLower (c : Char) : Bool := 'a' ≤ c && c ≤ 'z'

def isUpper (c : Char) : Bool := 'A' ≤ c && c ≤ 'Z'

/-- The keyword that introduces a definition, and the alphabet of its names. -/
structure Form where
  keyword : List Char
  kind : Kind
  initial : Char → Bool
  inner : Char → Bool
  /-- Whether the name has to be followed by an equality sign. -/
  assigned : Bool

def forms : List Form :=
  [⟨"def".toList, .function, fun c => isLower c || c == '_', isWord, false⟩,
   ⟨"class".toList, .classType, isUpper, isWord, false⟩,
   ⟨"struct".toList, .structType, isUpper, isWord, false⟩,
   ⟨"enum".toList, .enumType, isUpper, isWord, false⟩,
   ⟨"const".toList, .constant, fun c => isUpper c || c == '_',
    fun c => isUpper c || isDigit c || c == '_', true⟩]

structure Definition where
  name : List Char
  kind : Kind
  column : Nat
  deriving DecidableEq, Repr

def equalsAhead (line : List Char) : Bool := (skipBlanks line).head? == some '='

def Form.match? (form : Form) (line : List Char) : Option Definition := do
  let rest ← blanks? (← word? form.keyword (skipBlanks line))
  let initial ← rest.head?
  guard (form.initial initial)
  let tail := rest.tail.takeWhile form.inner
  guard (!form.assigned || equalsAhead (rest.tail.dropWhile form.inner))
  return ⟨initial :: tail, form.kind, line.length - rest.length⟩

def definition? (line : List Char) : Option Definition := forms.findSome? (·.match? line)

/-! ### The code portion -/

/-- The rest of the line after a string literal whose opening quote was just read. A backslash takes
the next character with it, unless that is a line feed. -/
def literalRest? (quote : Char) : List Char → Option (List Char)
  | [] => none
  | '\\' :: c :: rest => if c = '\n' then none else literalRest? quote rest
  | c :: rest =>
    if c = quote then some rest else if c = '\\' then none else literalRest? quote rest

theorem length_literalRest?_le {quote : Char} {line rest : List Char}
    (h : literalRest? quote line = some rest) : rest.length ≤ line.length := by
  fun_induction literalRest? quote line with
  | case1 => simp at h
  | case2 => simp at h
  | case3 _ _ _ ih => have := ih h; simp; omega
  | case4 => simp_all
  | case5 => simp at h
  | case6 _ _ _ _ _ ih => have := ih h; simp; omega

/-- Replaces every string literal by an empty one. A quote that is never closed stays. -/
def emptyLiterals : List Char → List Char
  | [] => []
  | c :: rest =>
    if c = '"' ∨ c = '\'' then
      match _h : literalRest? c rest with
      | some after => '"' :: '"' :: emptyLiterals after
      | none => c :: emptyLiterals rest
    else c :: emptyLiterals rest
termination_by line => line.length
decreasing_by
  all_goals simp_wf
  · have := length_literalRest?_le _h
    omega

/-- The line without what its literals hold and without its comment. -/
def codePortion (line : List Char) : List Char := (emptyLiterals line).takeWhile (· ≠ '#')

/-! ### Blocks -/

def openers : List (List Char) :=
  ["def", "class", "struct", "enum", "if", "unless", "while", "until", "for", "case", "try"].map
    String.toList

def openerAhead (code : List Char) : Bool :=
  openers.any fun word => (word? word code).any wordEnds

def assignment? (code : List Char) : Option (List Char) := do
  let initial ← code.head?
  guard (isLower initial || isUpper initial || initial == '_')
  let rest := skipBlanks (code.tail.dropWhile fun c => isWord c || c == '.')
  return skipBlanks (← word? ['='] rest)

def declared? (word : String) (code : List Char) : Option (List Char) := do
  blanks? (← word? word.toList code)

/-- A block keyword opens a block as the first word of a line or right after an assignment. -/
def opensByKeyword (code : List Char) : Bool :=
  let code := skipBlanks code
  openerAhead code
    || (assignment? code).any openerAhead
    || ((declared? "let" code).bind assignment?).any openerAhead
    || ((declared? "const" code).bind assignment?).any openerAhead

def bindsToNext (c : Char) : Bool := isWord c || c == '.' || c == ':'

/-- Whether a word occurs on its own, `free` saying whether it may start right here. -/
def occursFrom (word : List Char) (free : Bool) : List Char → Bool
  | [] => false
  | c :: rest =>
    (free && (word? word (c :: rest)).any wordEnds) || occursFrom word (!bindsToNext c) rest

def occurs (word : String) (code : List Char) : Bool := occursFrom word.toList true code

/-- A function literal opens a block wherever it stands. -/
def opensByLiteral (code : List Char) : Bool := occurs "fn" code

def opens (code : List Char) : Bool := opensByKeyword code || opensByLiteral code

def closes (code : List Char) : Bool := occurs "end" code

end VibeLens.Outline
