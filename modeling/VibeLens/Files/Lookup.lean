import VibeLens.Files.Tree

set_option autoImplicit false

/-!
How the operating system finds an object: name by name, following every link it meets. It follows at
most forty links in one look-up.
-/

namespace VibeLens.FileTree

def linkLimit : Nat := 40

/-- The names of a path as the system reads it. A slash at the end asks for a directory, which is
what a last name `.` says. -/
def systemNames (text : String) : List String :=
  let names := (Path.pieces text).filter (· ≠ "")
  if text.toList.getLast? = some '/' then names ++ ["."] else names

def isAbsoluteText (text : String) : Bool := text.toList.head? == some '/'

/-- Finds the location that a list of names leads to. With `followLast` a link at the very end is
followed too. The last name may lead to nothing; what is found is then the location it would have. -/
def walk (t : FileTree) (followLast : Bool) :
    (links : Nat) → (here : Location) → (names : List String) → Except Refusal Location
  | _, here, [] => .ok here
  | links, here, name :: rest =>
    match t.get? here with
    | none => .error .noEntry
    | some (.file _ _) | some (.link _) => .error .notDirectory
    | some .dir =>
      if name = "." then walk t followLast links here rest
      else if name = ".." then walk t followLast links here.dropLast rest
      else
        match t.get? (here ++ [name]) with
        | some (.link target) =>
          if rest = [] ∧ !followLast then .ok (here ++ [name])
          else
            match links with
            | 0 => .error .tooManyLinks
            | links + 1 =>
              let start := if isAbsoluteText target then [] else here
              walk t followLast links start (systemNames target ++ rest)
        | _ => walk t followLast links (here ++ [name]) rest
termination_by links _ names => (links, names.length)

/-- The location that a path text leads to from a working directory. -/
def locate (t : FileTree) (cwd : Location) (followLast : Bool) (text : String) :
    Except Refusal Location :=
  if text = "" then .error .noEntry
  else walk t followLast linkLimit (if isAbsoluteText text then [] else cwd) (systemNames text)

/-- The object that a path text leads to, together with its location. -/
def find (t : FileTree) (cwd : Location) (text : String) : Except Refusal (Location × Node) :=
  match t.locate cwd true text with
  | .error e => .error e
  | .ok l =>
    match t.get? l with
    | some node => .ok (l, node)
    | none => .error .noEntry

/-- A zero character cannot stand in a path that is handed to the system. -/
def hasZero (text : String) : Bool := text.toList.contains (Char.ofNat 0)

def isFile (t : FileTree) (cwd : Location) (text : String) : Bool :=
  !hasZero text && match t.find cwd text with
    | .ok (_, .file _ _) => true
    | _ => false

def isDir (t : FileTree) (cwd : Location) (text : String) : Bool :=
  !hasZero text && match t.find cwd text with
    | .ok (_, .dir) => true
    | _ => false

def isExecutable (t : FileTree) (cwd : Location) (text : String) : Bool :=
  !hasZero text && match t.find cwd text with
    | .ok (_, .file _ executable) => executable
    | _ => false

def isLink (t : FileTree) (cwd : Location) (text : String) : Bool :=
  !hasZero text && match t.locate cwd false text with
    | .ok l => match t.get? l with
      | some (.link _) => true
      | _ => false
    | .error _ => false

def read (t : FileTree) (cwd : Location) (text : String) :
    Except Refusal Text.Utf8.Bytes :=
  match t.find cwd text with
  | .error e => .error e
  | .ok (_, .file content _) => .ok content
  | .ok (_, _) => .error .isDirectory

/-- Writes a file, which is made if its directory is there. -/
def write (t : FileTree) (cwd : Location) (text : String) (content : Text.Utf8.Bytes) :
    Except Refusal FileTree :=
  match t.locate cwd true text with
  | .error e => .error e
  | .ok l =>
    match t.get? l with
    | some (.file _ executable) => .ok (t.put l (.file content executable))
    | some _ => .error .isDirectory
    | none =>
      match t.get? l.dropLast with
      | some .dir => .ok (t.put l (.file content false))
      | some _ => .error .notDirectory
      | none => .error .noEntry

end VibeLens.FileTree
