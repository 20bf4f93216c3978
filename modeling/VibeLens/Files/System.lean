import VibeLens.Files.Host

set_option autoImplicit false

/-!
The part of a file tree that every system has: its own programs and the device that holds nothing.
-/

namespace VibeLens

namespace Utility

/-- The names of the system's programs. The shell has a second name, which is a link. -/
def names : List (String × Utility) :=
  [("dash", .shell), ("cat", .cat), ("echo", .echo), ("env", .env), ("false", .fail),
   ("pwd", .pwd), ("sleep", .sleep), ("true", .succeed), ("yes", .yes)]

def directory : Location := ["usr", "bin"]

def table : Table Location Utility := names.map fun (name, u) => (directory ++ [name], u)

def searchPath : List String :=
  ["/usr/local/sbin", "/usr/local/bin", "/usr/sbin", "/usr/bin", "/sbin", "/bin"]

end Utility

def FileTree.withSystem (t : FileTree) : FileTree :=
  let t := (t.makeDirs Utility.directory).makeDirs ["dev"]
  let t := Utility.table.foldl (fun t m => t.put m.1 (.file [] true)) t
  let t := t.put (Utility.directory ++ ["sh"]) (.link "dash")
  let t := t.put ["bin"] (.link "usr/bin")
  t.put ["dev", "null"] (.file [] false)

end VibeLens
