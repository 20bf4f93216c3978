import VibeLens.Shell.Eval

set_option autoImplicit false

/-!
A program that was started, as it is seen from outside: what it wrote, how it ended and how long it
took.
-/

namespace VibeLens

open Text.Utf8 (Bytes)

structure Child where
  output : Bytes
  errors : Bytes
  /-- The exit status, or the negative of the signal that ended it. -/
  code : Int
  /-- The microseconds until it has ended and nobody keeps its standard error open; a program that
  never ends has none. -/
  duration : Option Nat
  deriving DecidableEq, Repr

namespace Child

/-- How many commands deep, and how many rounds of a loop, a program is followed. -/
def fuel : Nat := 20000

def startTime : Nat := 2000

def initial (h : Host) : Shell.State where
  host := h
  name := []
  args := []
  bindings :=
    [("HOME".toList, ⟨Shell.ofString h.home, true⟩),
     ("PATH".toList, ⟨Shell.ofString h.searchPath, true⟩)]
  functions := []
  channels :=
    [(0, .nothing), (1, .stream Shell.outputStream), (2, .stream Shell.errorStream)]
  streams := [(Shell.outputStream, []), (Shell.errorStream, [])]
  status := 0
  captured := none
  line := 0
  loops := 0
  atExit := []
  clock := 0
  held := 0

/-- The status, or the reason for an early end, as a code; without one the program never ends. -/
def code? : Except Shell.Halt Nat → Option Int
  | .ok status => some status
  | .error (.exit status) | .error (.back status) => some status
  | .error (.killed signal) => some (-(signal : Int))
  | .error (.leave _) | .error (.again _) => some 0
  | .error .endless => none

def run (h : Host) (i : Image) (name : String) (args : List String) : Host × Child :=
  let calledAs := i.calledAs.getD name
  let action := Shell.Eval.start fuel i.utility (Shell.ofString calledAs)
    ((i.lead ++ args).map Shell.ofString)
  let (outcome, s) :=
    match EStateM.run action (initial h) with
    | .ok status s => (Except.ok status, s)
    | .error halt s => (Except.error halt, s)
  let written (stream : Nat) : Bytes :=
    Shell.toBytes ((s.streams.get? stream).getD []).reverse
  let code := code? outcome
  ({ h with tree := s.host.tree },
   ⟨written Shell.outputStream, written Shell.errorStream, code.getD 0,
    code.map fun _ => startTime + max s.clock s.held⟩)

end Child

def Host.start (h : Host) (name : String) (args : List String) :
    Except Refusal (Host × Child) := do
  return Child.run h (← h.program name) name args

end VibeLens
