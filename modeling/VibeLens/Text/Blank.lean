import VibeLens.Text.Ranges

set_option autoImplicit false

/-!
Blank characters and trimming. Text is a list of characters, so that a column is an index.
-/

namespace VibeLens.Text

def blankRanges : List (Nat × Nat) :=
  [(0x09, 0x0D), (0x1C, 0x20), (0x85, 0x85), (0xA0, 0xA0), (0x1680, 0x1680), (0x2000, 0x200A),
   (0x2028, 0x2029), (0x202F, 0x202F), (0x205F, 0x205F), (0x3000, 0x3000)]

/-- White space in the wide sense, the four separators U+001C to U+001F included. -/
def isBlank (c : Char) : Bool := inRanges blankRanges c.toNat

/-- White space in the strict sense: the four separators U+001C to U+001F are not in it. -/
def isSpace (c : Char) : Bool := isBlank c && !(0x1C ≤ c.toNat && c.toNat ≤ 0x1F)

def trimStartBy (blank : Char → Bool) (text : List Char) : List Char := text.dropWhile blank

def trimEndBy (blank : Char → Bool) (text : List Char) : List Char :=
  (text.reverse.dropWhile blank).reverse

def trimBy (blank : Char → Bool) (text : List Char) : List Char :=
  trimEndBy blank (trimStartBy blank text)

def skipBlanks (text : List Char) : List Char := trimStartBy isBlank text

def trim (text : List Char) : List Char := trimBy isBlank text

end VibeLens.Text
