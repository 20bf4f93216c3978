import VibeLens.Files.Host

set_option autoImplicit false

/-!
How the system starts a program. A file can be started if it is a program of the system or a script
whose first line names the program that reads it.
-/

namespace VibeLens

/-- What is started: a program of the system, with the arguments that a script puts before those of
the caller. -/
structure Image where
  utility : Utility
  calledAs : Option String
  lead : List String
  deriving DecidableEq, Repr

namespace Image

def isGap (c : Char) : Bool := c = ' ' || c = '\t'

def reader? (content : Text.Utf8.Bytes) : Option (String × List String) :=
  match Text.Utf8.decode (content.take 255) with
  | '#' :: '!' :: rest =>
    let line := (rest.takeWhile (· ≠ '\n')).dropWhile isGap
    let line := (line.reverse.dropWhile isGap).reverse
    let name := line.takeWhile fun c => !isGap c
    let argument := (line.drop name.length).dropWhile isGap
    if name.isEmpty then none
    else some (String.ofList name, if argument.isEmpty then [] else [String.ofList argument])
  | _ => none

end Image

namespace Host

/-- How deep readers of scripts may be scripts themselves. -/
def readerLimit : Nat := 5

def image (h : Host) : (levels : Nat) → String → Except Refusal Image
  | 0, _ => .error .tooManyLinks
  | levels + 1, text =>
    match h.tree.find h.cwd text with
    | .error e => .error e
    | .ok (l, .file content true) =>
      match h.utilities.get? l with
      | some u => .ok ⟨u, none, []⟩
      | none =>
        match Image.reader? content with
        | none => .error .noExecFormat
        | some (reader, argument) => do
          let i ← image h levels reader
          return ⟨i.utility, some (i.calledAs.getD reader), i.lead ++ argument ++ [text]⟩
    | .ok (_, _) => .error .permissionDenied

/-- The places at which a program to be started is looked for. An empty entry of the search path
means the working directory. -/
def startPlaces (h : Host) (name : String) : List String :=
  if name.toList.contains '/' then [name]
  else (h.searchPath.splitOn ":").map (inDirectory · name)

def saysMissing (e : Refusal) : Bool := e = .noEntry || e = .notDirectory

/-- The first place that can be started. If there is none, the first refusal other than that nothing
is there is reported, and else the last one. -/
def firstImage (h : Host) : (worst : Option Refusal) → List String → Except Refusal Image
  | worst, [] => .error (worst.getD .noEntry)
  | worst, place :: rest =>
    match h.image readerLimit place with
    | .ok i => .ok i
    | .error e =>
      let keep := worst.any fun w => !saysMissing w
      firstImage h (if keep then worst else some e) rest

def program (h : Host) (name : String) : Except Refusal Image :=
  h.firstImage none (h.startPlaces name)

end Host
end VibeLens
