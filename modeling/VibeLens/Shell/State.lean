import VibeLens.Files.Program
import VibeLens.Shell.Parser

set_option autoImplicit false

/-!
The state of a running script. Output goes to numbered streams; a pipe is a stream that is written
by one command and read by the next. Time is counted in microseconds since the start, and only
sleeping takes any.
-/

namespace VibeLens.Shell

inductive Channel where
  | stream (n : Nat)
  | file (l : Location)
  | nothing
  deriving DecidableEq, Repr

/-- Why a run stops before its end. -/
inductive Halt where
  | exit (status : Nat)
  | killed (signal : Nat)
  | endless
  | leave (loops : Nat)
  | again (loops : Nat)
  | back (status : Nat)
  deriving DecidableEq, Repr

structure Variable where
  value : Text
  exported : Bool
  deriving DecidableEq, Repr

structure State where
  host : Host
  name : Text
  args : List Text
  bindings : Table Text Variable
  functions : Table Text Command
  channels : Table Nat Channel
  /-- What the streams hold, newest character first. -/
  streams : Table Nat Text
  status : Nat
  /-- The status of a command whose output was taken while a command was being expanded. -/
  captured : Option Nat
  line : Nat
  loops : Nat
  atExit : Text
  clock : Nat
  /-- The time until which some command keeps the standard error open. -/
  held : Nat

abbrev Eval := EStateM Halt State

def ofBytes (bytes : Text.Utf8.Bytes) : Text := bytes.map fun b => Char.ofNat b.toNat

def toBytes (text : Text) : Text.Utf8.Bytes := text.map fun c => UInt8.ofNat c.toNat

def ofString (s : String) : Text := ofBytes (Text.Utf8.encode s.toList)

def toString (text : Text) : String := String.ofList (Text.Utf8.decode (toBytes text))

def outputStream : Nat := 0

def errorStream : Nat := 1

namespace Eval

def write (descriptor : Nat) (text : Text) : Eval Bool := do
  let s ← get
  match s.channels.get? descriptor with
  | none => return false
  | some .nothing => return true
  | some (.stream n) =>
    set { s with streams := s.streams.put n (text.reverse ++ (s.streams.get? n).getD []) }
    return true
  | some (.file l) =>
    match s.host.tree.get? l with
    | some (.file content executable) =>
      let tree := s.host.tree.put l (.file (content ++ toBytes text) executable)
      set { s with host := { s.host with tree := tree } }
      return true
    | _ => return false

def complain (text : Text) : Eval Unit := do
  let s ← get
  let _ ← write 2 (s.name ++ ": ".toList ++ Nat.toDigits 10 s.line ++ ": ".toList ++ text ++ ['\n'])

def setStatus (n : Nat) : Eval Unit := modify fun s => { s with status := n }

def openStream (text : Text) : Eval Nat := do
  let s ← get
  let n := s.streams.length
  set { s with streams := s.streams.put n text.reverse }
  return n

def readAll (descriptor : Nat) : Eval Text := do
  let s ← get
  match s.channels.get? descriptor with
  | some (.stream n) =>
    set { s with streams := s.streams.put n [] }
    return ((s.streams.get? n).getD []).reverse
  | _ => return []

def readLine (descriptor : Nat) : Eval (Text × Bool) := do
  let text ← readAll descriptor
  let line := text.takeWhile (· ≠ '\n')
  match (← get).channels.get? descriptor with
  | some (.stream n) =>
    let rest := (text.drop (line.length + 1)).reverse
    modify fun s => { s with streams := s.streams.put n rest }
  | _ => pure ()
  return (line, line.length < text.length)

def assign (name value : Text) : Eval Unit := modify fun s =>
  let exported := (s.bindings.get? name).any Variable.exported
  { s with bindings := s.bindings.put name ⟨value, exported⟩ }

/-- Lets time pass. A command that has the standard error open holds it that long. -/
def wait (microseconds : Nat) : Eval Unit := modify fun s =>
  let clock := s.clock + microseconds
  let holds := s.channels.any fun c => c.2 = .stream errorStream
  { s with clock := clock, held := if holds then max s.held clock else s.held }

/-- Runs a command in a process of its own: what it changes in the script is forgotten, while files,
streams and time go on. -/
def apart (body : Eval Unit) : Eval Unit := do
  let before ← get
  let rejoin : Eval Unit := modify fun s =>
    { before with
      host := { before.host with tree := s.host.tree }
      streams := s.streams
      clock := s.clock
      held := s.held
      status := s.status }
  try body
  catch
    | .exit n | .back n => setStatus n
    | .leave _ | .again _ => pure ()
    | h => do
      rejoin
      throw h
  rejoin

def processNumber : Text := "4711".toList

def parameter (name : Text) : Eval (Option Text) := do
  let s ← get
  match name with
  | ['?'] => return some (Nat.toDigits 10 s.status)
  | ['#'] => return some (Nat.toDigits 10 s.args.length)
  | ['$'] => return some processNumber
  | ['0'] => return some s.name
  | ['@'] | ['*'] =>
    if s.args.isEmpty then return none else return some ([' '].intercalate s.args)
  | ['-'] => return some []
  | ['!'] => return none
  | _ =>
    if name.all Text.isDigit then
      return s.args[Text.decimalValue name - 1]?
    else return (s.bindings.get? name).map Variable.value

/-- The host as commands see it: programs are looked for on the search path that the script set. -/
def searchHost : Eval Host := do
  let s ← get
  let path := (s.bindings.get? "PATH".toList).map Variable.value
  return { s.host with searchPath := toString (path.getD []) }

def refusalText (creating : Bool) (e : Refusal) : String :=
  if Host.saysMissing e then (if creating then "Directory nonexistent" else "No such file")
  else e.message

def standardPlaces : Table String Nat := [("/dev/stdout", 1), ("/dev/stderr", 2)]

def openWrite (append : Bool) (path : Text) : Eval (Except Text Channel) := do
  let s ← get
  let place := toString path
  let refuse (e : Refusal) : Except Text Channel :=
    .error ("cannot create ".toList ++ path ++ ": ".toList ++ (refusalText true e).toList)
  if place = "/dev/null" then return .ok .nothing
  if let some c := (standardPlaces.get? place).bind s.channels.get? then return .ok c
  match s.host.tree.locate s.host.cwd true place with
  | .error e => return refuse e
  | .ok l =>
    let content :=
      match s.host.tree.get? l with
      | some (.file content _) => if append then content else []
      | _ => []
    match s.host.tree.write s.host.cwd place content with
    | .error e => return refuse e
    | .ok tree =>
      set { s with host := { s.host with tree := tree } }
      return .ok (.file l)

def openRead (path : Text) : Eval (Except Text Channel) := do
  let s ← get
  let place := toString path
  if place = "/dev/null" then return .ok .nothing
  match s.host.tree.find s.host.cwd place with
  | .error e =>
    return .error ("cannot open ".toList ++ path ++ ": ".toList ++ (refusalText false e).toList)
  | .ok (_, .file content _) => return .ok (.stream (← openStream (ofBytes content)))
  | .ok (_, _) => return .ok .nothing

/-- Points a descriptor at its target; what prevents that is returned. -/
def redirect (descriptor : Nat) (kind : RedirectKind) (target : Text) : Eval (Option Text) := do
  let point (c : Channel) : Eval (Option Text) := do
    modify fun s => { s with channels := s.channels.put descriptor c }
    return none
  let opened (r : Except Text Channel) : Eval (Option Text) :=
    match r with
    | .ok c => point c
    | .error reason => return some reason
  match kind with
  | .read => opened (← openRead target)
  | .write => opened (← openWrite false target)
  | .append => opened (← openWrite true target)
  | .here => point (.stream (← openStream target))
  | .duplicate =>
    if target = ['-'] then
      modify fun s => { s with channels := s.channels.erase descriptor }
      return none
    else
      let channels := (← get).channels
      let source :=
        if target.all Text.isDigit then channels.get? (Text.decimalValue target)
        else none
      match source with
      | some c => point c
      | none => return some (target ++ ": Bad file descriptor".toList)

end Eval
end VibeLens.Shell
