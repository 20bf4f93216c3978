import VibeLens.Datum.Record
import VibeLens.Json.Printer
import VibeLens.Outline.Scan
import VibeLens.Workspace.Scan

set_option autoImplicit false

/-!
The index of a workspace: one line of JSON for each source file, with the outline of that file.
-/

namespace VibeLens

structure OutlineRecord where
  path : String
  symbols : List Symbol
  deriving Repr

namespace OutlineRecord

def toJson (r : OutlineRecord) : Json :=
  .obj [("path", .str r.path), ("symbols", .arr (Symbol.forestToJson r.symbols))]

def ofDatum : Datum → Verdict OutlineRecord :=
  Datum.record "OutlineRecord" fun ms =>
    ((Verdict.valid OutlineRecord.mk).app (Datum.required ms "path" Datum.string)).app
      (Datum.optional ms "symbols" [] (Datum.listOf Symbol.ofDatum))

def line? (r : OutlineRecord) : Option (List Char) := r.toJson.text? false

def symbolCount (r : OutlineRecord) : Nat := (Symbol.forestListing 0 r.symbols).length

/-- The text of an index. It ends before the first record that cannot be written. -/
def text : List OutlineRecord → List Char
  | [] => []
  | r :: rest =>
    match r.line? with
    | some line => line ++ '\n' :: text rest
    | none => []

end OutlineRecord

namespace FileTree

def makeDir (t : FileTree) (cwd : Location) (text : String) : Except Refusal FileTree :=
  match t.locate cwd false text with
  | .error e => .error e
  | .ok l => if (t.get? l).isSome then .error .exists else .ok (t.put l .dir)

/-- Makes a directory; one that is there already will do. -/
def ensureDir (t : FileTree) (cwd : Location) (text : String) : Except Refusal FileTree :=
  match t.makeDir cwd text with
  | .ok t => .ok t
  | .error e => if e ≠ .noEntry ∧ t.isDir cwd text then .ok t else .error e

/-- Makes a directory and, if they are missing, those above it; `names` are its names backwards. -/
def ensureDirs (t : FileTree) (cwd : Location) (anchor : Anchor) :
    (names : List String) → Except Failure FileTree
  | [] =>
    let text := (Path.mk anchor []).toString
    Failure.ofSystem text (t.ensureDir cwd text)
  | name :: above =>
    let text := (Path.mk anchor (name :: above).reverse).toString
    match t.ensureDir cwd text with
    | .error .noEntry => do
      let t ← ensureDirs t cwd anchor above
      Failure.ofSystem text (t.ensureDir cwd text)
    | result => Failure.ofSystem text result

/-- The tree that is left behind when making a directory fails: those above it may have been made. -/
def dirsLeft (t : FileTree) (cwd : Location) (anchor : Anchor) : (names : List String) → FileTree
  | [] => t
  | name :: above =>
    match t.ensureDir cwd (Path.mk anchor (name :: above).reverse).toString with
    | .error .noEntry =>
      match t.ensureDirs cwd anchor above with
      | .ok made => made
      | .error _ => dirsLeft t cwd anchor above
    | _ => t

end FileTree

structure IndexSummary where
  fileCount : Nat
  symbolCount : Nat
  artifact : String
  deriving DecidableEq, Repr

namespace IndexSummary

def toJson (s : IndexSummary) : Json :=
  .obj
    [("file_count", .nat s.fileCount), ("symbol_count", .nat s.symbolCount),
     ("artifacts", .arr [.str s.artifact])]

end IndexSummary

def indexName : String := "outline.jsonl"

def Host.outlineRecord? (h : Host) (root l : Location) : Option OutlineRecord :=
  match h.tree.read h.cwd (Location.text l) with
  | .ok bytes => some ⟨relativeText root l, Outline.ofContent (.bytes bytes)⟩
  | .error _ => none

/-- What an index is made of: the canonical root, the settings in force and the directory for it. -/
structure IndexPlan where
  root : Location
  settings : Settings
  dir : Path
  deriving Repr

namespace Host

def indexSettings (h : Host) (top : Location) : Option Settings → Except Failure Settings
  | some settings => .ok settings
  | none => Failure.ofSettings (h.settings (Path.ofLocation top))

def indexDir (h : Host) (top : Location) (settings : Settings) : Option Path → Except Failure Path
  | some dir => .ok dir
  | none => (h.outputDir (Path.ofLocation top) settings.outputDir).map Path.ofLocation

def indexPlan (h : Host) (root : Path) (outDir : Option Path) (settings : Option Settings) :
    Except Failure IndexPlan := do
  let top ← Failure.ofPath (h.resolve root)
  let settings ← h.indexSettings top settings
  let dir ← h.indexDir top settings outDir
  if FileTree.hasZero dir.toString then .error (.path .zeroCharacter) else return ⟨top, settings, dir⟩

/-- The records of the source files, in the order of their paths. The scan resolves the root once
more, so what it finds can lie elsewhere if links lead in a circle. -/
def outlineRecords (h : Host) (plan : IndexPlan) : Except Failure (List OutlineRecord) := do
  let files ← h.sources (Path.ofLocation plan.root) [plan.dir] plan.settings.includes
    plan.settings.excludes
  if files.all (plan.root.isPrefixOf ·) then return files.filterMap (h.outlineRecord? plan.root)
  else .error .strayFile

/-- Writes the index once its directory is there. The file is opened before the first record is
written, so a record that has no text leaves the lines before it. -/
def writeIndex (h : Host) (plan : IndexPlan) : Host × Except Failure IndexSummary :=
  match h.outlineRecords plan with
  | .error e => (h, .error e)
  | .ok records =>
    let artifact := (plan.dir.child indexName).toString
    match h.tree.write h.cwd artifact (Text.Utf8.encode (OutlineRecord.text records)) with
    | .error e => (h, .error (.system e artifact))
    | .ok tree =>
      (h.withTree tree,
        if records.all (·.line?.isSome) then
          .ok ⟨records.length, records.foldl (fun n r => n + r.symbolCount) 0, artifact⟩
        else .error .unwritable)

/-- Makes the index of a workspace. What was done before a failure stays. -/
def indexing (h : Host) (root : Path) (outDir : Option Path) (settings : Option Settings) :
    Host × Except Failure IndexSummary :=
  match h.indexPlan root outDir settings with
  | .error e => (h, .error e)
  | .ok plan =>
    match h.tree.ensureDirs h.cwd plan.dir.anchor plan.dir.names.reverse with
    | .error e =>
      (h.withTree (h.tree.dirsLeft h.cwd plan.dir.anchor plan.dir.names.reverse), .error e)
    | .ok made => (h.withTree made).writeIndex plan

def index (h : Host) (root : Path) (outDir : Option Path) (settings : Option Settings) :
    Except Failure (Host × IndexSummary) :=
  match h.indexing root outDir settings with
  | (after, .ok summary) => .ok (after, summary)
  | (_, .error e) => .error e

end Host
end VibeLens
