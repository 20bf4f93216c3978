import VibeLens.Command.Request
import VibeLens.Session
import VibeLens.Text.Quoted
import VibeLens.Workspace.Index

set_option autoImplicit false

/-!
Carries out commands. A fault in the settings and a refusal of the system are reported on the
standard error with exit code 2; any other failure ends the command without an answer.
-/

namespace VibeLens.Command

structure Report where
  exit : Int
  output : List Char
  errors : List Char
  host : Host

inductive Outcome where
  | usage (exit : Nat)
  | reported (r : Report)
  | failed (f : Failure)

def Usage.exit : Usage → Nat
  | help => 0
  | wrong => 2

def refusalText (e : Refusal) (path : String) : List Char :=
  ("[Errno " ++ toString e.code ++ "] " ++ e.message ++ ": ").toList ++ Text.quoted path.toList

def reported? : Failure → Option (List Char)
  | .settings (.unreadable e path) | .system e path => some (refusalText e path)
  | .settings fault => fault.message?.map String.toList
  | _ => none

def natText (n : Nat) : List Char := (toString n).toList

/-- One line of an outline. Lines and columns are counted from one here. -/
def outlineLine (depth : Nat) (s : Symbol) : List Char :=
  let place (p : Position) : List Char := natText (p.line + 1) ++ ':' :: natText (p.column + 1)
  List.replicate (2 * depth) ' ' ++ (s.kind.label ++ " " ++ s.name ++ " [").toList ++
    place s.start ++ '-' :: place s.stop ++ [']', '\n']

def diagnosticLine (file : String) (d : Diagnostic) : List Char :=
  (file ++ ":").toList ++ natText (d.line + 1) ++ ':' :: natText (d.column + 1) ++
    (": " ++ Diagnostic.severity ++ ": " ++ d.message ++ "\n").toList

def completionLine (c : Assist.Completion) : List Char :=
  (c.label ++ "\t" ++ c.kind.label ++ "\t" ++ c.detail ++ "\n").toList

def jsonText (j : Json) : Except Failure (List Char) :=
  match j.text? true with
  | some text => .ok (text ++ ['\n'])
  | none => .error .unwritable

def readFile (h : Host) (file : String) : Except Failure Text.Utf8.Bytes :=
  let place := (Path.ofString file).toString
  if FileTree.hasZero place then .error (.path .zeroCharacter)
  else Failure.ofSystem place (h.tree.read h.cwd place)

def canonical (h : Host) (root : String) : Except Failure Path := do
  return Path.ofLocation (← Failure.ofPath (h.resolveUser root))

def outline (h : Host) (file : String) (json : Bool) : Except Failure Report := do
  let forest := Session.default.symbols (.bytes (← readFile h file))
  if json then return ⟨0, ← jsonText (.arr (Symbol.forestToEditor forest)), [], h⟩
  else
    return ⟨0, (Symbol.forestListing 0 forest).flatMap fun (depth, s) => outlineLine depth s, [], h⟩

def locate (h : Host) (input : Text.Utf8.Bytes) (file : Option String) :
    Except Failure Report := do
  let data ←
    match file with
    | some file => readFile h file
    | none => pure input
  let found := Diagnostic.locate (.bytes data)
  return ⟨0, ← jsonText (.arr (found.map Diagnostic.toEditor)), [], h⟩

def run (h : Host) (file root : String) : Except Failure Report := do
  let root ← canonical h root
  let settings ← Failure.ofSettings (h.settings root)
  let (h, child) ← h.startInterpreter settings (Path.ofString file)
  return ⟨child.code, Text.Utf8.decode child.output, Text.Utf8.decode child.errors, h⟩

def check (h : Host) (file root : String) : Except Failure Report := do
  let root ← canonical h root
  let settings ← Failure.ofSettings (h.settings root)
  let document := Path.ofString file
  let (h, _, found) ← h.save { Session.default with settings := settings } document
  return ⟨if found.isEmpty then 0 else 1, [],
    found.flatMap (diagnosticLine document.toString), h⟩

def index (h : Host) (root : String) (outDir : Option String) : Except Failure Report := do
  let root ← canonical h root
  let dir ←
    match outDir with
    | some dir => pure (some (← canonical h dir))
    | none => pure none
  let (h, summary) ← h.index root dir none
  return ⟨0, ← jsonText summary.toJson, [], h⟩

def complete (h : Host) (start : String) : Report :=
  ⟨0, (Session.default.completions start).flatMap completionLine, [], h⟩

/-- Documentation at a place. A number that is missing is noticed when it is needed: the column only
if the line is there. -/
def hover (h : Host) (file : String) (line column : Option Int) : Except Failure Report := do
  let content := Content.bytes (← readFile h file)
  match line with
  | none => .error .numberMissing
  | some line =>
    let hasLine : Bool := 0 ≤ line && line < content.lines.length
    match column with
    | none => if hasLine then .error .numberMissing else return ⟨1, [], [], h⟩
    | some column =>
      match Session.default.hover? content line column with
      | some found => return ⟨0, (found.contents ++ "\n").toList, [], h⟩
      | none => return ⟨1, [], [], h⟩

def status (h : Host) (root : String) : Except Failure Report := do
  let session ← h.openSession (← canonical h root) (Path.ofString h.home)
  let text :=
    match session.server with
    | some server => "lsp: " ++ server.toString ++ "\n"
    | none => "basic: language server not found\n"
  return ⟨0, text.toList, [], h⟩

/-- Carries out a request; `input` is what the standard input holds. -/
def perform (h : Host) (input : Text.Utf8.Bytes) : Request → Except Failure Report
  | .outline file json => outline h file json
  | .locate file => locate h input file
  | .run file root => run h file root
  | .check file root => check h file root
  | .index root outDir => index h root outDir
  | .complete start => .ok (complete h start)
  | .hover file line column => hover h file line column
  | .status root => status h root

def carryOut (h : Host) (input : Text.Utf8.Bytes) (line : List String) : Outcome :=
  match Request.ofLine line with
  | .error usage => .usage usage.exit
  | .ok request =>
    match perform h input request with
    | .ok report => .reported report
    | .error failure =>
      match reported? failure with
      | some message => .reported ⟨2, [], "error: ".toList ++ message ++ ['\n'], h⟩
      | none => .failed failure

end VibeLens.Command
