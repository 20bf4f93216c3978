import VibeLens.Datum.Verdict

set_option autoImplicit false

/-!
What is said of a file of settings that is refused. The readers of its text choose the words, which may
fill several lines.
-/

namespace VibeLens

structure Wording where
  malformed (text : List Char) : String
  invalid (text : List Char) (faults : List Fault) : String

def Wording.plain : Wording where
  malformed _ := "not a document"
  invalid _ faults := "\n".intercalate (faults.map fun f =>
    ".".intercalate f.labels ++ ": " ++ f.cause.message)

end VibeLens
