import VibeLens.Files.Lookup

set_option autoImplicit false

/-!
The canonical location of a path. A link that is met again while it is being resolved ends the
resolution; what is left is then taken by its text alone. A link is known by the text of the path to it,
which is relative as long as no absolute path was met.
-/

namespace VibeLens

/-- Why a path has no canonical location. -/
inductive PathFault where
  | linkLoop
  | zeroCharacter
  /-- The path starts with the home directory of a user who is not known. -/
  | unknownUser
  deriving DecidableEq, Repr

namespace FileTree

/-- How far a resolution has come: some names below the top or, if `ups` is given, below the
directory that lies so many levels above the working directory. -/
structure Reached where
  ups : Option Nat
  names : List String
  deriving DecidableEq, Repr

namespace Reached

def top : Reached := ⟨none, []⟩

def here : Reached := ⟨some 0, []⟩

def location (cwd : Location) (r : Reached) : Location :=
  match r.ups with
  | none => r.names
  | some n => cwd.take (cwd.length - n) ++ r.names

def down (r : Reached) (name : String) : Reached := { r with names := r.names ++ [name] }

def up (r : Reached) : Reached :=
  if r.names = [] then { r with ups := r.ups.map (· + 1) } else { r with names := r.names.dropLast }

end Reached

/-- The outcome of following names: a place, or names from the top that a circle left unresolved. -/
inductive Followed where
  | reached (r : Reached)
  | circular (names : List String)
  deriving DecidableEq, Repr

/-- Names left over behind others. An empty name in front stands for a slash, and then they are
counted from the top. -/
def leaveOver (names rest : List String) : List String :=
  match rest with
  | "" :: more@(_ :: _) => more
  | _ => names ++ rest

/-- Follows names from a place. `busy` holds the links being resolved, and `fuel` bounds how many
more can be. -/
def follow (t : FileTree) (cwd : Location) :
    (fuel : Nat) → (busy : List Reached) → (place : Reached) → (names : List String) → Followed
  | _, _, place, [] => .reached place
  | fuel, busy, place, name :: rest =>
    if name = "" ∨ name = "." then follow t cwd fuel busy place rest
    else if name = ".." then follow t cwd fuel busy place.up rest
    else
      let next := place.down name
      match t.get? (next.location cwd) with
      | some (.link target) =>
        let broken := Followed.circular (leaveOver (next.location cwd) rest)
        if next ∈ busy then broken
        else
          match fuel with
          | 0 => broken
          | fuel + 1 =>
            let start := if isAbsoluteText target then .top else place
            match follow t cwd fuel (next :: busy) start (Path.pieces target) with
            | .reached r => follow t cwd (fuel + 1) busy r rest
            | .circular names => .circular (leaveOver names rest)
      | _ => follow t cwd fuel busy next rest
termination_by fuel _ _ names => (fuel, names.length)

/-- The locations of links. -/
def links (t : FileTree) : List Location :=
  t.nodes.filterMap fun
    | (l, .link _) => some l
    | _ => none

/-- How many links can be resolved inside one another: each is known by one absolute path and by
one relative path for each level of the working directory. -/
def linkNesting (t : FileTree) (cwd : Location) : Nat := t.links.length * (cwd.length + 2)

/-- Resolves a path text from a working directory. Whether a circle matters is found by looking the
result up. -/
def resolve (t : FileTree) (cwd : Location) (p : Path) : Except PathFault Location :=
  if hasZero p.toString then .error .zeroCharacter
  else
    let start := if p.isAbsolute then Reached.top else Reached.here
    let l := match t.follow cwd (t.linkNesting cwd) [] start p.names with
      | .reached r => r.location cwd
      | .circular names => Path.collapse names
    match t.find cwd (Location.text l) with
    | .error .tooManyLinks => .error .linkLoop
    | _ => .ok l

end FileTree
end VibeLens
