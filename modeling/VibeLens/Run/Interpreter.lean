import VibeLens.Failure
import VibeLens.Json.Printer
import VibeLens.Run.Child

set_option autoImplicit false

/-!
Runs of the interpreter. For diagnostics its standard error is read up to a limit and a run that
takes too long, or writes too much, counts as no run at all.
-/

namespace VibeLens

open Text.Utf8 (Bytes)

structure RunResult where
  code : Int
  errors : List Char
  deriving DecidableEq, Repr

namespace RunResult

def failed (r : RunResult) : Bool := r.code ≠ 0

/-- A run has errors if it failed and left something that is not blank. -/
def hasErrors (r : RunResult) : Bool := r.failed && !(Text.trim r.errors).isEmpty

def toJson (r : RunResult) : Json :=
  .obj [("returncode", .int r.code), ("stderr", .str (String.ofList r.errors))]

end RunResult

def runCommand (executable : String) (document : Path) (subcommand : Bool) : List String :=
  if subcommand then [executable, "run", document.toString] else [executable, document.toString]

def chunkSize : Nat := 65536

/-- Adds what is read to a buffer until nothing more is read or the buffer is longer than the limit.
Behind the last of the reads the output is over. -/
def drain (limit : Nat) : (buffer : Bytes) → (reads : List Bytes) → Bytes
  | buffer, [] => buffer
  | buffer, chunk :: rest =>
    if buffer.length ≤ limit ∧ chunk ≠ [] then drain limit (buffer ++ chunk) rest else buffer

def chunks (written : Bytes) : List Bytes :=
  if written.isEmpty then []
  else written.take chunkSize :: chunks (written.drop chunkSize)
termination_by written.length
decreasing_by
  have : written.length ≠ 0 := by simp_all
  simp [chunkSize]
  omega

namespace Checking

/-- The longest time that can be waited for, in microseconds. -/
def longestTimeout : Nat := 9223372036854775

def inTime (c : Checking) (microseconds : Nat) : Bool := !c.timeout.atMost microseconds 1000000

/-- The result of a run that can be used, where reading its error text gives these chunks. -/
def resultRead? (c : Checking) (child : Child) (reads : List Bytes) : Option RunResult :=
  match child.duration with
  | none => none
  | some time =>
    let errors := drain c.outputLimit [] reads
    if c.inTime time && errors.length ≤ c.outputLimit then
      some ⟨child.code, Text.Utf8.decode errors⟩
    else none

def result? (c : Checking) (child : Child) : Option RunResult :=
  c.resultRead? child (chunks child.errors)

end Checking

namespace Host

def startInterpreter (h : Host) (s : Settings) (document : Path) :
    Except Failure (Host × Child) := do
  let command := runCommand s.executable document s.checking.runSubcommand
  if command.any FileTree.hasZero then .error (.path .zeroCharacter)
  else Failure.ofSystem s.executable (h.start s.executable command.tail)

/-- Runs the interpreter on a document for its error text. An interpreter that cannot be started
gives no result. -/
def check (h : Host) (s : Settings) (document : Path) :
    Except Failure (Host × Option RunResult) :=
  match h.startInterpreter s document with
  | .error (.system _ _) => .ok (h, none)
  | .error e => .error e
  | .ok (h, child) =>
    if s.checking.timeout.atMost Checking.longestTimeout 1000000 then
      .ok (h, s.checking.result? child)
    else .error .timeoutTooLong

end Host
end VibeLens
