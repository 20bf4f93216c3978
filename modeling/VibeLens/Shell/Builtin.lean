import VibeLens.Shell.Condition
import VibeLens.Shell.State

set_option autoImplicit false

/-!
The commands that the shell itself knows, apart from those that run other commands, and the small
programs of the system. Each gives its status.
-/

namespace VibeLens.Shell.Builtin

open Eval

def fail (name : String) (reason : Text) (status : Nat) : Eval Nat := do
  complain (name.toList ++ ": ".toList ++ reason)
  return status

def abort (name : String) (reason : Text) : Eval Nat := do
  let status ← fail name reason 2
  throw (.exit status)

def emit (name : String) (text : Text) : Eval Nat := do
  if text.isEmpty then return 0
  else if ← write 1 text then return 0
  else fail name (name.toList ++ ": I/O error".toList) 1

def words (args : List Text) : Text := [' '].intercalate args

def echo (args : List Text) : Eval Nat := do
  let (ended, args) :=
    match args with
    | ['-', 'n'] :: rest => ([], rest)
    | _ => (['\n'], args)
  let text := words args
  let (text, stopped) := Escape.expand (text.length + 1) text
  emit "echo" (if stopped then text else text ++ ended)

def printf (args : List Text) : Eval Nat := do
  let args := if args.head? = some ['-', '-'] then args.tail else args
  match args with
  | [] => fail "printf" "usage: printf format [arg ...]".toList 2
  | format :: args =>
    let f := Formatting.ofFormat format args
    let status ← emit "printf" f.written.reverse
    for c in f.complaints do
      complain ("printf: ".toList ++ c)
    return if f.failed then 2 else if !f.complaints.isEmpty then 1 else status

def natural? (text : Text) : Option Nat :=
  if text.isEmpty || !text.all Text.isDigit then none
  else
    let n := Text.decimalValue text
    if n < 0x80000000 then some n else none

def argument (name : String) (args : List Text) (default : Nat) : Eval Nat :=
  match args with
  | [] => return default
  | text :: _ =>
    match natural? text with
    | some n => return n
    | none => abort name ("Illegal number: ".toList ++ text)

def readVariables : List Text → Text → List (Text × Text)
  | [], _ => []
  | [name], text =>
    let isGap (c : Char) : Bool := c = ' ' || c = '\t'
    [(name, ((text.dropWhile isGap).reverse.dropWhile isGap).reverse)]
  | name :: rest, text =>
    let isGap (c : Char) : Bool := c = ' ' || c = '\t'
    let text := text.dropWhile isGap
    (name, text.takeWhile fun c => !isGap c) ::
      readVariables rest (text.dropWhile fun c => !isGap c)

def read (args : List Text) : Eval Nat := do
  let names := if args.head? = some ['-', 'r'] then args.tail else args
  let (line, complete) ← readLine 0
  for (name, value) in readVariables names line do
    assign name value
  return if complete then 0 else 1

def changeDirectory (args : List Text) : Eval Nat := do
  let s ← get
  let home := ((s.bindings.get? "HOME".toList).map Variable.value).getD []
  let target := args.headD home
  match s.host.tree.find s.host.cwd (toString target) with
  | .ok (l, .dir) =>
    set { s with host := { s.host with cwd := l } }
    return 0
  | _ => fail "cd" ("can't cd to ".toList ++ target) 2

def signals : Table String Nat :=
  [("HUP", 1), ("INT", 2), ("QUIT", 3), ("ILL", 4), ("TRAP", 5), ("ABRT", 6), ("BUS", 7),
   ("FPE", 8), ("KILL", 9), ("USR1", 10), ("SEGV", 11), ("USR2", 12), ("PIPE", 13), ("ALRM", 14),
   ("TERM", 15)]

def signal? (text : Text) : Option Nat :=
  match natural? text with
  | some n => some n
  | none =>
    let name := String.ofList text
    signals.get? (if name.startsWith "SIG" then String.ofList (text.drop 3) else name)

/-- Sends a signal. Only the script itself can be met. -/
def kill (args : List Text) : Eval Nat := do
  let (signal, targets) :=
    match args with
    | ['-', 's'] :: name :: rest => (signal? name, rest)
    | ['-', '-'] :: rest => (some 15, rest)
    | ('-' :: name) :: rest => (signal? name, rest)
    | _ => (some 15, args)
  let unknown := fail "kill" "No such process\n".toList 1
  match signal, targets with
  | none, _ => fail "kill" "invalid signal number or name".toList 2
  | some n, [target] =>
    if target ≠ processNumber then unknown
    else if n = 0 then return 0
    else throw (.killed n)
  | some _, _ => unknown

def test (name : String) (args : List Text) : Eval Nat := do
  match Condition.holds (← get).host toString (args.length + 1) args with
  | .ok b => return if b then 0 else 1
  | .error reason => fail name reason 2

def shift (args : List Text) : Eval Nat := do
  let n ← argument "shift" args 1
  let s ← get
  if s.args.length < n then abort "shift" "can't shift that many".toList
  else
    set { s with args := s.args.drop n }
    return 0

def exportNames (args : List Text) : Eval Nat := do
  for arg in args do
    let name := arg.takeWhile (· ≠ '=')
    if name.length < arg.length then assign name (arg.drop (name.length + 1))
    modify fun s =>
      let value := ((s.bindings.get? name).map Variable.value).getD []
      { s with bindings := s.bindings.put name ⟨value, true⟩ }
  return 0

def unset (args : List Text) : Eval Nat := do
  for name in args do
    modify fun s => { s with bindings := s.bindings.erase name }
  return 0

/-- Leaves, or goes on with, some of the loops around. Outside of loops nothing happens. -/
def jump (name : String) (args : List Text) (halt : Nat → Halt) : Eval Nat := do
  let n ← argument name args 1
  if (← get).loops = 0 then return 0 else throw (halt n)

/-- Remembers what is to be run at the end; signals are not caught. -/
def trap (args : List Text) : Eval Nat := do
  match args with
  | action :: conditions =>
    if conditions.any fun c => c = "EXIT".toList ∨ c = ['0'] then
      modify fun s => { s with atExit := if action = ['-'] then [] else action }
    return 0
  | [] => return 0

/-- Faults in these end a script. -/
def special : List String :=
  [".", ":", "break", "continue", "eval", "exec", "exit", "export", "readonly", "return", "set",
   "shift", "trap", "unset"]

def run? (name : String) (args : List Text) : Option (Eval Nat) :=
  match name with
  | ":" | "true" | "wait" => some (return 0)
  | "false" => some (return 1)
  | "echo" => some (echo args)
  | "printf" => some (printf args)
  | "exit" => some do throw (.exit ((← argument name args (← get).status) % 256))
  | "return" => some do throw (.back ((← argument name args (← get).status) % 256))
  | "break" => some (jump name args .leave)
  | "continue" => some (jump name args .again)
  | "read" => some (read args)
  | "pwd" => some do emit name ((ofString (Location.text (← get).host.cwd)) ++ ['\n'])
  | "cd" => some (changeDirectory args)
  | "kill" => some (kill args)
  | "test" => some (test name args)
  | "[" =>
    if args.getLast? = some [']'] then some (test name args.dropLast)
    else some (fail name "missing ]".toList 2)
  | "shift" => some (shift args)
  | "export" => some (exportNames args)
  | "unset" => some (unset args)
  | "readonly" => some (exportNames args)
  | "trap" => some (trap args)
  | "set" => some do
    if args.head? = some ['-', '-'] then modify fun s => { s with args := args.tail }
    return 0
  | _ => none

end VibeLens.Shell.Builtin

namespace VibeLens.Shell.Utility

open Eval

def microseconds? (text : Text) : Option Nat := do
  let (number, unit) :=
    match text.reverse with
    | 's' :: rest => (rest.reverse, 1)
    | 'm' :: rest => (rest.reverse, 60)
    | 'h' :: rest => (rest.reverse, 3600)
    | 'd' :: rest => (rest.reverse, 86400)
    | _ => (text, 1)
  let d ← Numeral.decimal? number
  guard d.isFinite
  let (num, den) := d.fraction
  return num * unit * 1000000 / den

def sleep (args : List Text) : Eval Nat := do
  match args.mapM microseconds? with
  | some [] =>
    let _ ← write 2 "sleep: missing operand\nTry 'sleep --help' for more information.\n".toList
    return 1
  | some times =>
    wait (times.foldl (· + ·) 0)
    return 0
  | none =>
    let bad := (args.find? fun a => (microseconds? a).isNone).getD []
    let _ ← write 2 ("sleep: invalid time interval '".toList ++ bad ++
      "'\nTry 'sleep --help' for more information.\n".toList)
    return 1

def cat : List Text → Eval Nat
  | [] => return 0
  | arg :: rest => do
    let s ← get
    let status ← if arg = ['-'] then
        let _ ← write 1 (← readAll 0)
        pure 0
      else
        match s.host.tree.read s.host.cwd (toString arg) with
        | .ok content =>
          let _ ← write 1 (ofBytes content)
          pure 0
        | .error e =>
          let _ ← write 2 ("cat: ".toList ++ arg ++ (": " ++ e.message ++ "\n").toList)
          pure 1
    return max status (← cat rest)

def echo (args : List Text) : Eval Nat := do
  let (ended, args) :=
    match args with
    | ['-', 'n'] :: rest => ([], rest)
    | _ => (['\n'], args)
  let _ ← write 1 (Builtin.words args ++ ended)
  return 0

def run? (u : VibeLens.Utility) (args : List Text) : Option (Eval Nat) :=
  match u with
  | .shell | .env => none
  | .cat => some (cat (if args.isEmpty then [['-']] else args))
  | .echo => some (echo args)
  | .fail => some (return 1)
  | .succeed => some (return 0)
  | .sleep => some (sleep args)
  | .yes => some (throw .endless)
  | .pwd => some do
    let _ ← write 1 (ofString (Location.text (← get).host.cwd) ++ ['\n'])
    return 0

end VibeLens.Shell.Utility
