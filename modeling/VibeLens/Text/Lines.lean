import VibeLens.Text.Utf8

set_option autoImplicit false

/-!
Lines of a document. A line ends at a carriage return followed by a line feed, at a lone carriage
return and at a lone line feed, and nowhere else. A document of n line breaks has n + 1 lines.
-/

namespace VibeLens.Text

/-- The lines of what stands to the right of the reading point, and whether it starts with a line
feed. The lines are the first one and the others, since there is always a first. -/
structure LinesAhead where
  first : List Char
  others : List (List Char)
  feedNext : Bool
  deriving DecidableEq, Repr

namespace LinesAhead

def none : LinesAhead := ⟨[], [], false⟩

def breakLine (ahead : LinesAhead) (feed : Bool) : LinesAhead :=
  ⟨[], ahead.first :: ahead.others, feed⟩

/-- One character to the left. A carriage return before a line feed belongs to the break already
counted. -/
def before (c : Char) (ahead : LinesAhead) : LinesAhead :=
  if c = '\n' then ahead.breakLine true
  else if c = '\r' then
    if ahead.feedNext then { ahead with feedNext := false } else ahead.breakLine false
  else ⟨c :: ahead.first, ahead.others, false⟩

def toList (ahead : LinesAhead) : List (List Char) := ahead.first :: ahead.others

end LinesAhead

def lines (text : List Char) : List (List Char) :=
  (text.foldr LinesAhead.before LinesAhead.none).toList

end VibeLens.Text

namespace VibeLens

/-- The content of a document: text that an editor holds, or bytes that are not known to be valid
UTF-8. -/
inductive Content where
  | text (chars : List Char)
  | bytes (raw : Text.Utf8.Bytes)
  deriving DecidableEq, Repr

namespace Content

def chars : Content → List Char
  | text chars => chars
  | bytes raw => Text.Utf8.decode raw

def lines (content : Content) : List (List Char) := Text.lines content.chars

@[simp] theorem chars_text (cs : List Char) : (text cs).chars = cs := rfl

@[simp] theorem chars_bytes (raw : Text.Utf8.Bytes) : (bytes raw).chars = Text.Utf8.decode raw := rfl

end Content
end VibeLens
