import VibeLens.Toml.Scalar

set_option autoImplicit false

/-!
TOML documents. What was written as a value is frozen: no later statement adds to it. A table is declared
at most once, and a table that dotted keys made cannot be declared in a later section.
-/

namespace VibeLens.Toml

abbrev Members := List (String × Datum)

/-! ### Tables as they grow -/

/-- Replaces the value of a key. -/
def setMember (members : Members) (key : String) (value : Datum) : Members :=
  members.map fun m => if m.1 = key then (key, value) else m

/-- Changes the table that a path leads to, making those that are missing. In an array of tables the
last one is meant, if `lists` says so. -/
def changeAt (lists : Bool) (change : Members → Option Members) :
    List String → Members → Option Members
  | [], members => change members
  | k :: ks, members =>
    match members.lookup k with
    | none => (changeAt lists change ks []).map fun inner => members ++ [(k, .table inner)]
    | some (.table inner) =>
      (changeAt lists change ks inner).map fun inner => setMember members k (.table inner)
    | some (.list items) =>
      match lists, items.getLast? with
      | true, some (.table inner) =>
        (changeAt lists change ks inner).map fun inner =>
          setMember members k (.list (items.dropLast ++ [.table inner]))
      | _, _ => none
    | some _ => none

def addMember (key : String) (value : Datum) (members : Members) : Option Members :=
  if (members.lookup key).isSome then none else some (members ++ [(key, value)])

def addTable (key : String) (members : Members) : Option Members :=
  match members.lookup key with
  | none => some (members ++ [(key, .list [.table []])])
  | some (.list items) => some (setMember members key (.list (items ++ [.table []])))
  | some _ => none

/-! ### What may still be changed -/

inductive Mark where
  /-- Nothing at this path or below it may be changed. -/
  | frozen
  /-- The table at this path was declared. -/
  | declared
  deriving DecidableEq, Repr

abbrev Marks := List (List String × Mark)

def isFrozen (marks : Marks) (path : List String) : Bool :=
  marks.any fun c => c.2 = .frozen && c.1.isPrefixOf path

def isDeclared (marks : Marks) (path : List String) : Bool := marks.contains (path, .declared)

def release (marks : Marks) (path : List String) : Marks :=
  marks.filter fun c => !path.isPrefixOf c.1

def isContainer : Datum → Bool
  | .table _ | .list _ => true
  | _ => false

/-! ### Values -/

mutual

/-- A value. Every step of the recursion takes a character, so the length of the source bounds it. -/
def value : (fuel : Nat) → Reader Datum
  | 0, _ => .error .malformed
  | fuel + 1, '[' :: rest => do
    match ← skipFiller rest with
    | ']' :: rest => return (.list [], rest)
    | rest => do
      let (items, rest) ← arrayItems fuel rest
      return (.list items, rest)
  | fuel + 1, '{' :: rest =>
    match skipGap rest with
    | '}' :: rest => .ok (.table [], rest)
    | rest => do
      let (members, rest) ← inlineMembers fuel [] [] rest
      return (.table members, rest)
  | _ + 1, src => scalar src

/-- The items of an array from the next one on. A comma may stand after the last. -/
def arrayItems : (fuel : Nat) → Reader (List Datum)
  | 0, _ => .error .malformed
  | fuel + 1, src => do
    let (item, rest) ← value fuel src
    match ← skipFiller rest with
    | ']' :: rest => return ([item], rest)
    | ',' :: rest => do
      match ← skipFiller rest with
      | ']' :: rest => return ([item], rest)
      | rest => do
        let (items, rest) ← arrayItems fuel rest
        return (item :: items, rest)
    | _ => .error .malformed

/-- The members of an inline table from the next one on. No comma stands after the last. -/
def inlineMembers : (fuel : Nat) → (marks : Marks) → (members : Members) → Reader Members
  | 0, _, _, _ => .error .malformed
  | fuel + 1, marks, members, src => do
    let (path, rest) ← key src
    match rest with
    | '=' :: rest => do
      let (item, rest) ← value fuel (skipGap rest)
      if isFrozen marks path then .error .malformed
      else
        match changeAt false (addMember (path.getLast?.getD "") item) path.dropLast members with
        | none => .error .malformed
        | some members =>
          match skipGap rest with
          | '}' :: rest => return (members, rest)
          | ',' :: rest =>
            let marks := if isContainer item then (path, .frozen) :: marks else marks
            inlineMembers fuel marks members (skipGap rest)
          | _ => .error .malformed
    | _ => .error .malformed

end

/-! ### Statements -/

structure State where
  members : Members
  marks : Marks
  /-- Declarations that count from the next section on. -/
  pending : Marks
  header : List String
  deriving Repr

namespace State

def start : State := ⟨[], [], [], []⟩

def settle (s : State) : State := { s with marks := s.pending ++ s.marks, pending := [] }

def keyValue (s : State) (path : List String) (item : Datum) : Except Fault State := do
  let parents := (List.range (path.length - 1)).map fun i => s.header ++ path.take (i + 1)
  if parents.any (isDeclared s.marks) then .error .malformed
  let parent := s.header ++ path.dropLast
  if isFrozen s.marks parent then .error .malformed
  match changeAt true (addMember (path.getLast?.getD "") item) parent s.members with
  | none => .error .malformed
  | some members =>
    return { s with
      members := members
      pending := parents.map (·, .declared) ++ s.pending
      marks := if isContainer item then (s.header ++ path, .frozen) :: s.marks else s.marks }

def openTable (s : State) (path : List String) : Except Fault State := do
  if isDeclared s.marks path || isFrozen s.marks path then .error .malformed
  match changeAt true some path s.members with
  | none => .error .malformed
  | some members =>
    return { s with members := members, marks := (path, .declared) :: s.marks, header := path }

def openItem (s : State) (path : List String) : Except Fault State := do
  if isFrozen s.marks path then .error .malformed
  match changeAt true (addTable (path.getLast?.getD "")) path.dropLast s.members with
  | none => .error .malformed
  | some members =>
    return { s with
      members := members
      marks := (path, .declared) :: release s.marks path
      header := path }

end State

def statement (s : State) (src : List Char) : Except Fault (State × List Char) :=
  match src with
  | '[' :: '[' :: rest => do
    let (path, rest) ← key (skipGap rest)
    let s ← s.settle.openItem path
    match rest with
    | ']' :: ']' :: rest => return (s, rest)
    | _ => .error .malformed
  | '[' :: rest => do
    let (path, rest) ← key (skipGap rest)
    let s ← s.settle.openTable path
    match rest with
    | ']' :: rest => return (s, rest)
    | _ => .error .malformed
  | c :: _ =>
    if startsKey c then do
      let (path, rest) ← key src
      match rest with
      | '=' :: rest => do
        let (item, rest) ← value (2 * src.length) (skipGap rest)
        return (← s.keyValue path item, rest)
      | _ => .error .malformed
    else if c = '#' then .ok (s, src)
    else .error .malformed
  | [] => .ok (s, src)

/-- Reads the statements from the next line on, one a line. -/
def statements : (fuel : Nat) → State → List Char → Except Fault State
  | 0, _, _ => .error .malformed
  | fuel + 1, s, src =>
    match skipGap src with
    | [] => .ok s
    | '\n' :: rest => statements fuel s rest
    | src => do
      let (s, rest) ← statement s src
      match ← skipComment (skipGap rest) with
      | [] => return s
      | '\n' :: rest => statements fuel s rest
      | _ => .error .malformed

def joinBreaks : List Char → List Char
  | '\r' :: '\n' :: rest => '\n' :: joinBreaks rest
  | c :: rest => c :: joinBreaks rest
  | [] => []

def parse (text : List Char) : Except Fault Datum := do
  let src := joinBreaks text
  return .table (← statements (src.length + 1) .start src).members

end VibeLens.Toml
