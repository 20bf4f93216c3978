import VibeLens.Command.Perform
import VibeLens.Files.System

set_option autoImplicit false

/-!
The program. It works on a copy of the part of the file system that the command line names: scripts
run inside that copy, and what the command made there is written back at the end.
-/

namespace VibeLens.Program

open Command

def kindOf (place : String) : IO (Option IO.FS.FileType) := do
  try return some (← ((← IO.currentDir) / place).symlinkMetadata).type
  catch _ => return none

def entries (place : String) : IO (List String) := do
  try return (← ((← IO.currentDir) / place).readDir).toList.map (·.fileName)
  catch _ => return []

/-- The text of a link: what it leads to in the end, or the link itself if that is nothing. -/
def target (place : String) : IO String := do
  try return (← IO.FS.realPath place).toString
  catch _ => return place

def content (place : String) : IO (List UInt8) := do
  try return (← IO.FS.readBinFile place).toList
  catch _ => return []

/-- Copies an object into the tree, and with `deep` all that is below it. A script that names its
reader counts as executable; the system's own programs are there already. -/
partial def copy (deep : Bool) (t : FileTree) (l : Location) : IO FileTree := do
  let place := Location.text l
  match ← kindOf place with
  | some .dir =>
    let t := if l = [] then t else t.put l .dir
    if deep then (← entries place).foldlM (fun t name => copy true t (l ++ [name])) t else return t
  | some .file =>
    if (Utility.table.get? l).isSome then return t
    let bytes ← content place
    return t.put l (.file bytes (Image.reader? bytes).isSome)
  | some .symlink => return t.put l (.link (← target place))
  | _ => return t

partial def copyAlong (deep : Bool) (t : FileTree) (done : Location) :
    (names : List String) → IO FileTree
  | [] => copy deep t done
  | ".." :: rest => copyAlong deep t done.dropLast rest
  | name :: rest => do
    let here := done ++ [name]
    let t ← copy false t here
    match t.get? here with
    | some (.link text) =>
      if text = Location.text here then return t
      else copyAlong deep t [] (Path.collapse (Path.pieces text) ++ rest)
    | _ => copyAlong deep t here rest

def gather (deep : Bool) (h : Host) (text : String) : IO Host := do
  let p := (h.expandUser (Path.ofString text)).toOption.getD (Path.ofString text)
  let whole := (Path.ofLocation h.cwd).join p
  return { h with tree := ← copyAlong deep h.tree [] whole.names }

/-- Adds what a request looks at: its files, its workspace, and the places at which the programs
that the settings name may be. -/
def gatherAll (h : Host) (r : Request) : IO Host := do
  let h ← r.files.foldlM (gather false) h
  match r.root? with
  | none => return h
  | some root =>
    let deep := match r with
      | .index _ _ => true
      | _ => false
    let h ← gather deep h root
    let h ← gather false h (root ++ "/" ++ Settings.fileName)
    match h.settings (Path.ofString root) with
    | .error _ => return h
    | .ok s =>
      let places := h.startPlaces s.executable ++ h.startPlaces s.server
      (places ++ ["~/.vibe/bin/vibe-lsp"]).foldlM (gather false) h

def writeBack (before after : FileTree) : IO Unit := do
  for (l, node) in after.nodes do
    if before.get? l ≠ some node then
      match node with
      | .dir => IO.FS.createDirAll (Location.text l)
      | .file bytes _ => IO.FS.writeBinFile (Location.text l) (ByteArray.mk bytes.toArray)
      | .link _ => pure ()

partial def readAll (stream : IO.FS.Stream) (taken : List UInt8) : IO (List UInt8) := do
  let chunk ← stream.read 65536
  if chunk.isEmpty then return taken else readAll stream (taken ++ chunk.toList)

def surroundings : IO Host := do
  let cwd := Path.collapse (Path.pieces (← IO.currentDir).toString)
  return ⟨FileTree.empty.withSystem.makeDirs cwd, cwd, (← IO.getEnv "HOME").getD "/", [],
    (← IO.getEnv "PATH").getD "", Utility.table, .plain⟩

def exitCode (n : Int) : UInt32 := UInt32.ofNat (n % 256).toNat

def run (line : List String) : IO UInt32 := do
  match Request.ofLine line with
  | .error usage =>
    IO.eprintln "usage: vibe-lens [-h] [-v] command ..."
    return exitCode usage.exit
  | .ok request =>
    let h ← gatherAll (← surroundings) request
    let input ← if request = .locate none then readAll (← IO.getStdin) [] else pure []
    match carryOut h input line with
    | .usage code => return exitCode code
    | .reported r =>
      IO.print (String.ofList r.output)
      IO.eprint (String.ofList r.errors)
      writeBack h.tree r.host.tree
      return exitCode r.exit
    | .failed _ =>
      IO.eprintln "error: the command failed"
      return 1

end VibeLens.Program

def main (line : List String) : IO UInt32 := VibeLens.Program.run line
