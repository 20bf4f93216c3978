import VibeLens.Glob
import VibeLens.Shell.Arithmetic
import VibeLens.Shell.Builtin
import VibeLens.Shell.Fields

set_option autoImplicit false

/-!
Runs scripts. Fuel bounds how deep commands, and how often loops, go on; a script that uses it up is
taken to run for ever.
-/

namespace VibeLens.Shell

def assignment? : Word → Option (Text × Word)
  | .plain text :: rest =>
    let name := text.takeWhile isNameChar
    match text.drop name.length with
    | '=' :: value =>
      if (name.head?.map isNameStart).getD false then some (name, .plain value :: rest) else none
    | _ => none
  | _ => none

def splitAssignments : List Word → List (Text × Word) × List Word
  | [] => ([], [])
  | w :: rest =>
    match assignment? w with
    | some a =>
      let (more, words) := splitAssignments rest
      (a :: more, words)
    | none => ([], w :: rest)

def startFault (e : Refusal) : String × Nat :=
  if Host.saysMissing e || e = .tooManyLinks then ("not found", 127) else (e.message, 126)

/-- The letters of the options that have no effect on a script. -/
def optionLetters : Text := "abefimnpsuvxCEIVq".toList

def trimNewlines (text : Text) : Text := (text.reverse.dropWhile (· = '\n')).reverse

def formulaValue (bindings : Table Text Variable) (name : Text) : Int :=
  match bindings.get? name with
  | some v => (Formatting.leadingInt v.value).1
  | none => 0

/-- What is left of a text when the part at one end that fits a pattern is taken off. -/
def trimmed (atEnd longest : Bool) (pattern text : Text) : Text :=
  let pieces := Glob.parse pattern
  let places := List.range (text.length + 1)
  let places := if atEnd = longest then places else places.reverse
  let cut := places.find? fun n =>
    Glob.fits pieces (if atEnd then text.drop n else text.take n)
  match cut with
  | some n => if atEnd then text.take n else text.drop n
  | none => text

namespace Eval

mutual

def expand : (fuel : Nat) → Part → Eval Piece
  | 0, _ => throw .endless
  | fuel + 1, part => do
    let piece (quoted : Bool) (text : Text) : Piece := if quoted then .solid text else .loose text
    match part with
    | .plain text => return .solid text
    | .quoted text => return .solid text
    | .parameter ['@'] .value quoted => return .arguments (← get).args quoted
    | .parameter ['*'] .value false => return .arguments (← get).args false
    | .parameter name modifier quoted =>
      let value ← parameter name
      match modifier with
      | .value => return piece quoted (value.getD [])
      | .length => return piece quoted (Nat.toDigits 10 (value.getD []).length)
      | .trim atEnd longest pattern =>
        return piece quoted (trimmed atEnd longest (← expandRaw fuel pattern) (value.getD []))
      | .substitute kind word emptyToo =>
        let missing := value.isNone || (emptyToo && value = some [])
        match kind, missing with
        | .alternative, true => return piece quoted []
        | .alternative, false => return piece quoted (← expandRaw fuel word)
        | _, false => return piece quoted (value.getD [])
        | .default, true => return piece quoted (← expandRaw fuel word)
        | .assign, true =>
          let text ← expandRaw fuel word
          assign name text
          return piece quoted text
        | .demand, true =>
          let text ← expandRaw fuel word
          let reason := if text.isEmpty then "parameter not set".toList else text
          complain (name ++ ": ".toList ++ reason)
          throw (.exit 2)
      | .unknown =>
        complain "Bad substitution".toList
        throw (.exit 2)
    | .output script quoted => return piece quoted (← capture fuel script)
    | .arithmetic formula quoted =>
      let text ← expandRaw fuel formula
      match Arithmetic.evaluate (formulaValue (← get).bindings) text with
      | .ok n =>
        let digits := Nat.toDigits 10 n.natAbs
        return piece quoted (if n < 0 then '-' :: digits else digits)
      | .error e =>
        let reason := match e with
          | .divisionByZero => "division by zero"
          | .malformed => "expecting primary"
        complain (("arithmetic expression: " ++ reason ++ ": \"").toList ++ text ++ ['"'])
        throw (.exit 2)

/-- The pieces of a pattern. What is quoted stands for itself. -/
def patternPieces : (fuel : Nat) → Word → Eval (List Glob.Piece)
  | 0, _ => throw .endless
  | fuel + 1, word => do
    let pieces ← word.mapM fun part => do
      let text := Piece.joined [← expand fuel part]
      match part with
      | .quoted _ | .parameter _ _ true | .output _ true | .arithmetic _ true =>
        pure (text.map Glob.Piece.char)
      | _ => pure (Glob.parse text)
    return pieces.flatten

def anyFits : (fuel : Nat) → Text → List Word → Eval Bool
  | 0, _, _ => throw .endless
  | _ + 1, _, [] => return false
  | fuel + 1, text, pattern :: rest => do
    if Glob.fits (← patternPieces fuel pattern) text then return true
    else anyFits fuel text rest

def chooseArm : (fuel : Nat) → Text → List (List Word × Command) → Eval Unit
  | 0, _, _ => throw .endless
  | _ + 1, _, [] => return
  | fuel + 1, text, (patterns, command) :: rest => do
    if ← anyFits fuel text patterns then run fuel command else chooseArm fuel text rest

def expandRaw : (fuel : Nat) → Text → Eval Text
  | 0, _ => throw .endless
  | fuel + 1, raw =>
    match wordParts true (raw.length + 1) raw with
    | some (parts, _) => joined fuel parts
    | none => return raw

def joined : (fuel : Nat) → Word → Eval Text
  | 0, _ => throw .endless
  | fuel + 1, word => do return Piece.joined (← word.mapM (expand fuel))

def fields : (fuel : Nat) → Word → Eval (List Text)
  | 0, _ => throw .endless
  | fuel + 1, word => do return Piece.fields (← word.mapM (expand fuel))

/-- The output of a script, without the line feeds at its end. -/
def capture : (fuel : Nat) → Text → Eval Text
  | 0, _ => throw .endless
  | fuel + 1, script => do
    let stream ← openStream []
    let before := (← get).status
    apart do
      modify fun s => { s with channels := s.channels.put 1 (.stream stream) }
      runText fuel script
    modify fun s => { s with captured := some s.status, status := before }
    return trimNewlines (((← get).streams.get? stream).getD []).reverse

def runText : (fuel : Nat) → Text → Eval Unit
  | 0, _ => throw .endless
  | fuel + 1, script => runLines fuel ⟨tokenize script, 1 + script.count '\n'⟩

def runLines : (fuel : Nat) → Remaining → Eval Unit
  | 0, _ => throw .endless
  | fuel + 1, remaining => do
    if remaining.tokens.isEmpty then return
    match Parser.nextLine remaining with
    | .error fault =>
      modify fun s => { s with line := fault.line }
      complain ("Syntax error: " ++ fault.reason).toList
      throw (.exit 2)
    | .ok (command, remaining) =>
      run fuel command
      runLines fuel remaining

/-- Runs a script and then what it left to be run at its end, which keeps the status. -/
def runWhole : (fuel : Nat) → Text → Eval Unit
  | 0, _ => throw .endless
  | fuel + 1, script => do
    try runText fuel script
    catch
      | .exit n | .back n => setStatus n
      | h => throw h
    let s ← get
    if !s.atExit.isEmpty then
      set { s with atExit := [] }
      runText fuel s.atExit
      setStatus s.status

def source : (fuel : Nat) → Text → Eval Nat
  | 0, _ => throw .endless
  | fuel + 1, file => do
    let s ← get
    match s.host.tree.find s.host.cwd (toString file) with
    | .ok (_, .file content _) =>
      try runText fuel (ofBytes content)
      catch
        | .back n => setStatus n
        | h => throw h
      return (← get).status
    | .ok (_, _) => return 0
    | .error e =>
      Builtin.abort "." ("cannot open ".toList ++ file ++ ": ".toList ++ (refusalText false e).toList)

def redirectAll : (fuel : Nat) → List Redirect → Eval Bool
  | 0, _ => throw .endless
  | _ + 1, [] => return true
  | fuel + 1, r :: rest => do
    match ← redirect r.descriptor r.kind (← joined fuel r.target) with
    | none => redirectAll fuel rest
    | some reason =>
      complain reason
      return false

def start : (fuel : Nat) → VibeLens.Utility → (calledAs : Text) → List Text → Eval Nat
  | 0, _, _, _ => throw .endless
  | fuel + 1, u, calledAs, args => do
    match Utility.run? u args with
    | some action => action
    | none =>
      match u with
      | .env =>
        match args with
        | [] => return 0
        | name :: rest => external fuel true name rest
      | _ => shell fuel calledAs args

def shell : (fuel : Nat) → (calledAs : Text) → List Text → Eval Nat
  | 0, _, _ => throw .endless
  | fuel + 1, calledAs, args => do
    modify fun s =>
      { s with
        name := calledAs
        bindings := s.bindings.filter fun v => v.2.exported
        functions := []
        args := []
        status := 0
        line := 0
        loops := 0
        atExit := [] }
    match args with
    | ['-', 'c'] :: script :: rest =>
      modify fun s => { s with name := rest.headD calledAs, args := rest.tail }
      runWhole fuel script
    | ('-' :: letter :: letters) :: rest =>
      match (letter :: letters).find? fun c => !optionLetters.contains c with
      | some c =>
        complain ("Illegal option -".toList ++ [c])
        throw (.exit 2)
      | none => let _ ← shell fuel calledAs rest
    | file :: rest =>
      let s ← get
      match s.host.tree.find s.host.cwd (toString file) with
      | .error e =>
        complain ("cannot open ".toList ++ file ++ ": ".toList ++ (refusalText false e).toList)
        throw (.exit 2)
      | .ok (_, .file content _) =>
        modify fun s => { s with name := file, args := rest }
        runWhole fuel (ofBytes content)
      | .ok (_, _) => pure ()
    | [] => runWhole fuel (← readAll 0)
    return (← get).status

/-- Runs a program that is found by its name, in a process of its own or, with `replace`, in place
of the script. -/
def external : (fuel : Nat) → (replace : Bool) → Text → List Text → Eval Nat
  | 0, _, _, _ => throw .endless
  | fuel + 1, replace, name, args => do
    let go (u : VibeLens.Utility) (calledAs : Text) (args : List Text) : Eval Nat := do
      if replace then throw (.exit (← start fuel u calledAs args))
      try
        apart do setStatus (← start fuel u calledAs args)
        return (← get).status
      catch
        | .killed signal =>
          let _ ← write 2 (if signal = 9 then "Killed\n" else "Terminated\n").toList
          return 128 + signal
        | h => throw h
    match (← searchHost).program (toString name) with
    | .ok i =>
      go i.utility ((i.calledAs.map ofString).getD name) (i.lead.map ofString ++ args)
    | .error .noExecFormat => go .shell name (name :: args)
    | .error e =>
      let (reason, status) := startFault e
      let who := if replace then "exec: ".toList ++ name else name
      complain (who ++ ": ".toList ++ reason.toList)
      if replace then throw (.exit status) else return status

/-- Runs a command by its name: a function, a command of the shell, or a program. -/
def invoke : (fuel : Nat) → Text → List Text → Eval Nat
  | 0, _, _ => throw .endless
  | fuel + 1, name, args => do
    match (← get).functions.get? name with
    | some body =>
      let before := (← get).args
      modify fun s => { s with args := args }
      try run fuel body
      catch
        | .back n => setStatus n
        | h => throw h
      modify fun s => { s with args := before }
      return (← get).status
    | none =>
      match String.ofList name with
      | "eval" =>
        runText fuel (Builtin.words args)
        return (← get).status
      | "." =>
        match args with
        | [] => return 0
        | file :: _ => source fuel file
      | "exec" =>
        match args with
        | [] => return 0
        | program :: rest => external fuel true program rest
      | word =>
        match Builtin.run? word args with
        | some action => action
        | none => external fuel false name args

def simple : (fuel : Nat) → List Word → List Redirect → Eval Unit
  | 0, _, _ => throw .endless
  | fuel + 1, words, redirects => do
    let (assignments, words) := splitAssignments words
    modify fun s => { s with captured := none }
    let all := (← words.mapM (fields fuel)).flatten
    let channels := (← get).channels
    let restore : Eval Unit := modify fun s => { s with channels := channels }
    let assignAll : Eval Unit := assignments.forM fun (name, value) => do
      assign name (← joined fuel value)
    match all with
    | [] =>
      if ← redirectAll fuel redirects then
        assignAll
        modify fun s => { s with status := s.captured.getD 0 }
      else setStatus 2
      restore
    | name :: args =>
      let isSpecial := Builtin.special.contains (String.ofList name)
      let bindings := (← get).bindings
      if ← redirectAll fuel redirects then
        assignAll
        setStatus (← invoke fuel name args)
        if name ≠ "exec".toList then restore
        if !isSpecial && !assignments.isEmpty then
          modify fun s => { s with bindings := bindings }
      else
        restore
        if isSpecial then throw (.exit 2) else setStatus 2

/-- Runs the body of a loop; says whether the loop goes on. -/
def body : (fuel : Nat) → Command → Eval Bool
  | 0, _ => throw .endless
  | fuel + 1, command => do
    modify fun s => { s with loops := s.loops + 1 }
    let finish : Eval Unit := modify fun s => { s with loops := s.loops - 1 }
    try
      run fuel command
      finish
      return true
    catch
      | .leave n => do
        finish
        if n ≤ 1 then return false else throw (.leave (n - 1))
      | .again n => do
        finish
        if n ≤ 1 then return true else throw (.again (n - 1))
      | h => throw h

def repeatWhile : (fuel : Nat) → (negated : Bool) → (condition command : Command) →
    (last : Nat) → Eval Unit
  | 0, _, _, _, _ => throw .endless
  | fuel + 1, negated, condition, command, last => do
    run fuel condition
    let succeeded := (← get).status == 0
    if succeeded == negated then setStatus last
    else if ← body fuel command then
      repeatWhile fuel negated condition command (← get).status
    else setStatus 0

def forEach : (fuel : Nat) → (name : Text) → (values : List Text) → Command → Eval Unit
  | 0, _, _, _ => throw .endless
  | _ + 1, _, [], _ => return
  | fuel + 1, name, value :: rest, command => do
    assign name value
    if ← body fuel command then forEach fuel name rest command

def run : (fuel : Nat) → Command → Eval Unit
  | 0, _ => throw .endless
  | fuel + 1, command => do
    match command with
    | .skip => return
    | .simple line words redirects =>
      modify fun s => { s with line := line }
      simple fuel words redirects
    | .seq first second =>
      run fuel first
      run fuel second
    | .background command =>
      let clock := (← get).clock
      apart (run fuel command)
      modify fun s => { s with clock := clock, status := 0 }
    | .both first second =>
      run fuel first
      if (← get).status = 0 then run fuel second
    | .either first second =>
      run fuel first
      if (← get).status ≠ 0 then run fuel second
    | .negate command =>
      run fuel command
      setStatus (if (← get).status = 0 then 1 else 0)
    | .pipe first second =>
      let stream ← openStream []
      apart do
        modify fun s => { s with channels := s.channels.put 1 (.stream stream) }
        run fuel first
      apart do
        modify fun s => { s with channels := s.channels.put 0 (.stream stream) }
        run fuel second
    | .branch condition yes no =>
      run fuel condition
      if (← get).status = 0 then run fuel yes
      else
        setStatus 0
        run fuel no
    | .loop negated condition command => repeatWhile fuel negated condition command 0
    | .each name words command =>
      let values ← match words with
        | some words => do pure (← words.mapM (fields fuel)).flatten
        | none => pure (← get).args
      setStatus 0
      forEach fuel name values command
    | .choose word arms =>
      let text ← joined fuel word
      setStatus 0
      chooseArm fuel text arms
    | .define name command =>
      modify fun s => { s with functions := s.functions.put name command, status := 0 }
    | .nested command => apart (run fuel command)
    | .redirected command redirects =>
      let channels := (← get).channels
      if ← redirectAll fuel redirects then run fuel command else setStatus 2
      modify fun s => { s with channels := channels }

end

end Eval
end VibeLens.Shell
