import VibeLens.Json.Basic

set_option autoImplicit false

/-!
A diagnostic: one problem reported by an interpreter. It has no end of its own, so its range runs to
the end of its line.
-/

namespace VibeLens

structure Diagnostic where
  line : Nat
  column : Nat
  message : String
  deriving DecidableEq, Repr

namespace Diagnostic

/-- The largest column that an editor knows; it stands for the end of a line. -/
def endOfLine : Nat := 2147483647

def severity : String := "error"

def toEditor (d : Diagnostic) : Json :=
  .obj
    [("range", .obj
       [("start", .obj [("line", .nat d.line), ("character", .nat d.column)]),
        ("end", .obj [("line", .nat d.line), ("character", .nat endOfLine)])]),
     ("message", .str d.message),
     ("severity", .nat 1),
     ("source", .str "vibe")]

end Diagnostic
end VibeLens
