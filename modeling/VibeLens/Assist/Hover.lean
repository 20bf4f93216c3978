import VibeLens.Assist.Catalog
import VibeLens.Text.Lines
import VibeLens.Text.Word

set_option autoImplicit false

/-!
The word under a cursor, and the documentation shown for it if it names a builtin.
-/

namespace VibeLens.Assist

open Text

structure Word where
  text : List Char
  start : Nat
  deriving DecidableEq, Repr

namespace Word

def stop (w : Word) : Nat := w.start + w.text.length

/-- A cursor right behind the last character still touches a word. -/
def touches (w : Word) (column : Int) : Bool := w.start ≤ column && column ≤ w.stop

end Word

def wordsFrom (column : Nat) : List Char → List Word
  | [] => []
  | c :: rest =>
    if isWord c then
      let tail := rest.takeWhile isWord
      ⟨c :: tail, column⟩ :: wordsFrom (column + 1 + tail.length) (rest.dropWhile isWord)
    else wordsFrom (column + 1) rest
termination_by line => line.length
decreasing_by
  · have := (List.dropWhile_suffix (l := rest) isWord).length_le
    simp_wf
    omega
  · simp_wf

def words (line : List Char) : List Word := wordsFrom 0 line

/-- The first of some words that a column touches. They stand from left to right, so that the search
is over at a word that starts behind the column. -/
def firstTouched? (column : Int) : List Word → Option Word
  | [] => none
  | w :: rest =>
    if w.touches column then some w
    else if column < w.start then none
    else firstTouched? column rest

def wordAt? (line : List Char) (column : Int) : Option Word := firstTouched? column (words line)

def Builtin.markdown (doc : Builtin) : String :=
  "```vibe\n" ++ doc.signature ++ "\n```\n"
    ++ (match doc.methodStyle with
        | some style => if style.isEmpty then "" else "*Also:* `" ++ style ++ "`\n\n"
        | none => "")
    ++ doc.description

def markdown? (name : String) : Option String := (builtin? name).map Builtin.markdown

structure Hover where
  contents : String
  line : Nat
  startColumn : Nat
  endColumn : Nat
  deriving DecidableEq, Repr

def hover? (content : Content) (line column : Int) : Option Hover := do
  guard (0 ≤ line ∧ 0 ≤ column)
  let text ← content.lines[line.toNat]?
  let word ← wordAt? text column
  let contents ← markdown? (String.ofList word.text)
  return ⟨contents, line.toNat, word.start, word.stop⟩

end VibeLens.Assist
