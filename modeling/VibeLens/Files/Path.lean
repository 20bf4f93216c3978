set_option autoImplicit false

/-!
Paths as text and as lists of names. Repeated and trailing slashes and the names `.` go, while `..`
stays, since what it means depends on links.
-/

namespace VibeLens

/-- Where a path starts: at the place it is used from, or at the top. -/
inductive Anchor where
  | here
  | top
  | doubleTop
  deriving DecidableEq, Repr

structure Path where
  anchor : Anchor
  names : List String
  deriving DecidableEq, Repr

/-- A place in a file tree: the names that lead to it from the top. -/
abbrev Location := List String

namespace Path

def pieces (text : String) : List String := (text.toList.splitOn '/').map String.ofList

def isPlain (name : String) : Bool := name ≠ "" && name ≠ "."

def anchorOf (text : String) : Anchor :=
  match (text.toList.takeWhile (· == '/')).length with
  | 0 => .here
  | 2 => .doubleTop
  | _ => .top

def ofString (text : String) : Path := ⟨anchorOf text, (pieces text).filter isPlain⟩

def Anchor.text : Anchor → String
  | .here => ""
  | .top => "/"
  | .doubleTop => "//"

def toString (p : Path) : String :=
  if p.anchor = .here ∧ p.names = [] then "."
  else Anchor.text p.anchor ++ "/".intercalate p.names

def ofLocation (l : Location) : Path := ⟨.top, l⟩

def isAbsolute (p : Path) : Bool := p.anchor ≠ .here

/-- What a path means below another; an absolute path means the same everywhere. -/
def join (base p : Path) : Path :=
  if p.isAbsolute then p else ⟨base.anchor, base.names ++ p.names⟩

def child (base : Path) (name : String) : Path := { base with names := base.names ++ [name] }

def name (p : Path) : String := p.names.getLast?.getD ""

/-- The end of a name from its last dot on, unless that dot is the first or the last character. -/
def suffixOf (name : List Char) : List Char :=
  let tail := name.reverse.takeWhile (· ≠ '.')
  if tail.isEmpty ∨ name.length ≤ tail.length + 1 then [] else '.' :: tail.reverse

def suffix (p : Path) : String := String.ofList (suffixOf p.name.toList)

/-- Takes `..` away together with the name before it, by the text alone. -/
def collapse (names : List String) : Location :=
  ((names.filter isPlain).foldl
    (fun back name => if name = ".." then back.tail else name :: back) []).reverse

end Path

def Location.text (l : Location) : String := (Path.ofLocation l).toString

end VibeLens
