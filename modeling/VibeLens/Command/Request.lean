import VibeLens.Command.Arguments

set_option autoImplicit false

/-!
The commands and what their command lines ask for.
-/

namespace VibeLens.Command

/-- What is asked for on the command line. Files and roots are kept as they were written. -/
inductive Request where
  | outline (file : String) (json : Bool)
  | locate (file : Option String)
  | run (file root : String)
  | check (file root : String)
  | index (root : String) (outDir : Option String)
  | complete (start : String)
  /-- Shows documentation; a number is missing if its operand was only the dividing word. -/
  | hover (file : String) (line column : Option Int)
  | status (root : String)
  deriving DecidableEq, Repr

namespace Request

def files : Request → List String
  | outline file _ | run file _ | check file _ | hover file _ _ => [file]
  | locate file => file.toList
  | index _ _ | complete _ | status _ => []

def root? : Request → Option String
  | run _ root | check _ root | index root _ | status root => some root
  | _ => none

end Request

def helpOptions : Table String Meaning := [("-h", .help), ("--help", .help)]

def required (name : String) : Slot := ⟨name, .required, false⟩

def optional (name : String) : Slot := ⟨name, .optional, false⟩

def number (name : String) : Slot := ⟨name, .required, true⟩

/-- What stands before the name of a command, and that name with the rest of the line. -/
def outerGrammar : Grammar :=
  ⟨helpOptions ++ [("-v", .flag "verbose"), ("--verbose", .flag "verbose")],
   [⟨"command", .rest, false⟩]⟩

def grammars : Table String Grammar :=
  [("outline", ⟨helpOptions ++ [("--json", .flag "json")], [required "file"]⟩),
   ("locate", ⟨helpOptions, [optional "file"]⟩),
   ("run", ⟨helpOptions ++ [("--root", .valued "root")], [required "file"]⟩),
   ("check", ⟨helpOptions ++ [("--root", .valued "root")], [required "file"]⟩),
   ("index", ⟨helpOptions ++ [("--out-dir", .valued "out-dir")], [optional "root"]⟩),
   ("complete", ⟨helpOptions, [optional "start"]⟩),
   ("hover", ⟨helpOptions, [required "file", number "line", number "column"]⟩),
   ("status", ⟨helpOptions, [optional "root"]⟩)]

namespace Parsed

def operand? (p : Parsed) (name : String) : Option String := (p.operands.get? name).join

def operand (p : Parsed) (name default : String) : String := (p.operand? name).getD default

def integer? (p : Parsed) (name : String) : Option Int :=
  (p.operand? name).bind fun word => Numeral.integer? word.toList

/-- The workspace is the working directory unless another one is named. -/
def root (p : Parsed) : String := ((p.values.get? "root").or (p.operand? "root")).getD "."

def request? (p : Parsed) (command : String) : Option Request :=
  let file := p.operand "file" ""
  match command with
  | "outline" => some (.outline file (p.flags.contains "json"))
  | "locate" => some (.locate (p.operand? "file"))
  | "run" => some (.run file p.root)
  | "check" => some (.check file p.root)
  | "index" => some (.index p.root (p.values.get? "out-dir"))
  | "complete" => some (.complete (p.operand "start" ""))
  | "hover" => some (.hover file (p.integer? "line") (p.integer? "column"))
  | "status" => some (.status p.root)
  | _ => none

end Parsed

/-- Reads a whole command line. Words that fit nowhere are found only after all others were read. -/
def Request.ofLine (line : List String) : Except Usage Request := do
  let outer ← outerGrammar.parse line
  match outer.rest with
  | [] => .error .wrong
  | command :: rest =>
    match grammars.get? command with
    | none => .error .wrong
    | some g =>
      let inner ← g.parse rest
      if outer.hasExtras || inner.hasExtras then .error .wrong
      else
        match inner.request? command with
        | some r => return r
        | none => .error .wrong

end VibeLens.Command
