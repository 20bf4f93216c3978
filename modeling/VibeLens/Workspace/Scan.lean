import VibeLens.Failure
import VibeLens.Glob

set_option autoImplicit false

/-!
The source files of a workspace. The walk goes down from the root and never through a link, and leaves
out a directory as soon as one of the rules says so.
-/

namespace VibeLens

def skippedNames : List String := [".git", ".hg", ".svn", ".vibe"]

def sourceSuffix : String := ".vb"

def relativeText (base l : Location) : String := "/".intercalate (l.drop base.length)

/-- Whether a path is a source file: by its suffix, and no link. -/
def Host.isSource (h : Host) (p : Path) : Bool :=
  p.suffix = sourceSuffix && h.tree.isFile h.cwd p.toString && !h.tree.isLink h.cwd p.toString

structure LocalRules where
  base : Location
  file : IgnoreFile
  deriving Repr

/-- Whether one of the rules in force ignores a location; they are asked in the given order. -/
def isIgnored (l : Location) : List LocalRules → Except IgnoreFault Bool
  | [] => .ok false
  | r :: rest => do
    if ← r.file.ignores (relativeText r.base l).toList then return true else isIgnored l rest

/-- What a walk through a workspace works on. Its locations are relative to the root. -/
structure Walk where
  tree : FileTree
  root : Location
  /-- The directory that the system finds at the root. -/
  place : Location
  skip : List Location

namespace Walk

def get? (w : Walk) (l : Location) : Option Node := w.tree.get? (w.place ++ l)

/-- The rules of a directory, if it has an ignore file that is no link. -/
def localRules (w : Walk) (base : Location) : Except IgnoreFault (List LocalRules) :=
  match w.get? (base ++ [".gitignore"]) with
  | some (.file content _) => do return [⟨base, ← IgnoreFile.ofBytes content⟩]
  | _ => .ok []

def enters (w : Walk) (active : List LocalRules) (l : Location) : Except IgnoreFault Bool :=
  if w.get? l = some .dir && !skippedNames.contains (l.getLast?.getD "") &&
      !w.skip.contains (w.root ++ l) then do
    return !(← isIgnored l active)
  else .ok false

def takes (w : Walk) (active : List LocalRules) (l : Location) : Except IgnoreFault Bool :=
  match w.get? l with
  | some (.file _ _) =>
    if (Path.ofLocation l).suffix = sourceSuffix then do return !(← isIgnored l active)
    else .ok false
  | _ => .ok false

/-- Goes through a directory and those below it, for so many levels. The system lists the names in a
directory in some order. The rules of all directories met so far are known; in force are those of
the directory itself and of the ones above it. -/
def scan (w : Walk) (list : Location → List String) :
    (levels : Nat) → (known : List LocalRules) → Location →
      Except IgnoreFault (List LocalRules × List Location)
  | 0, known, _ => .ok (known, [])
  | levels + 1, known, base => do
    let known := known ++ (← w.localRules base)
    let active := known.filter fun r => r.base.isPrefixOf base
    let names := list (w.place ++ base)
    let dirs ← names.filterM fun name => w.enters active (base ++ [name])
    let files ← names.filterM fun name => w.takes active (base ++ [name])
    (dirs.mergeSort (· ≤ ·)).foldlM
      (fun (known, found) name => do
        let (known, more) ← scan w list levels known (base ++ [name])
        return (known, found ++ more))
      (known, files.map fun name => base ++ [name])

def sources (w : Walk) (list : Location → List String) (includes excludes : List String) :
    Except IgnoreFault (List Location) := do
  let (_, found) ← w.scan list w.tree.height [] []
  let selected := found.filter fun l => Glob.selects includes excludes (relativeText [] l)
  return (selected.mergeSort fun a b => relativeText [] a ≤ relativeText [] b).map (w.root ++ ·)

end Walk

namespace Host

/-- The walk through the workspace at a canonical root. The root can be a link only if links lead in
a circle; the walk goes on behind it. -/
def walk (h : Host) (root : Location) (skip : List Location) : Walk where
  tree := h.tree
  root := root
  place :=
    match h.tree.locate h.cwd true (Location.text root) with
    | .ok l => l
    | .error _ => root
  skip := skip

/-- The source files of the workspace at a root, with directories listed in some order. -/
def sourcesListed (h : Host) (list : Location → List String) (root : Path) (skip : List Path)
    (includes excludes : List String) : Except Failure (List Location) := do
  let top ← Failure.ofPath (h.resolve root)
  let skip ← skip.mapM fun p => Failure.ofPath (h.resolve p)
  Failure.ofIgnore ((h.walk top skip).sources list includes excludes)

def sources (h : Host) (root : Path) (skip : List Path) (includes excludes : List String) :
    Except Failure (List Location) :=
  h.sourcesListed h.tree.children root skip includes excludes

end Host
end VibeLens
