import VibeLens.Number.Numeral
import VibeLens.Table

set_option autoImplicit false

/-!
Command lines: options, which start with a dash, and operands, which fill slots in order. A dash before
a number, or in a word with a space, makes no option.
-/

namespace VibeLens.Command

/-- What an option asks for. -/
inductive Meaning where
  | help
  | flag (name : String)
  /-- Takes a value, after an equals sign or as the next word. -/
  | valued (name : String)
  deriving DecidableEq, Repr

inductive SlotKind where
  | required
  | optional
  | rest
  deriving DecidableEq, Repr

structure Slot where
  name : String
  kind : SlotKind
  numeric : Bool
  deriving DecidableEq, Repr

structure Grammar where
  options : Table String Meaning
  slots : List Slot
  deriving Repr

/-- Why a command line is not carried out. -/
inductive Usage where
  | help
  | wrong
  deriving DecidableEq, Repr

/-- What is joined to an option in one word. -/
inductive Joined where
  | nothing
  | value (text : List Char)
  /-- More short options behind the same dash. -/
  | cluster (letters : List Char)
  deriving DecidableEq, Repr

inductive Reading where
  | operand
  /-- The word after which there are no options. -/
  | divider
  | option (meaning : Meaning) (joined : Joined)
  | unknown
  deriving DecidableEq, Repr

def dividerWord : String := "--"

/-- Whether a word that starts with a dash is a negative number. A line feed may end it. -/
def isNegativeNumber : List Char → Bool
  | '-' :: rest =>
    let rest := if rest.getLast? = some '\n' then rest.dropLast else rest
    let isDigit (c : Char) : Bool := (Text.scriptDigit? c).isSome
    match rest.dropWhile isDigit with
    | [] => !rest.isEmpty
    | '.' :: places => !places.isEmpty && places.all isDigit
    | _ => false
  | _ => false

namespace Grammar

variable (g : Grammar)

/-- The options that a word may stand for, with what is joined to them. -/
def candidates (word : List Char) : List Reading :=
  let name := word.takeWhile (· ≠ '=')
  let joined := if name.length < word.length then .value (word.drop (name.length + 1)) else .nothing
  match word with
  | '-' :: '-' :: _ =>
    (g.options.filter fun o => name.isPrefixOf o.1.toList).map fun o => .option o.2 joined
  | _ =>
    (g.options.filter fun o => o.1.toList = word.take 2).map fun o =>
      .option o.2 (.cluster (word.drop 2))

/-- Reads one word. A short form that fits several options is a fault. -/
def read (word : String) : Except Usage Reading :=
  let text := word.toList
  let name := text.takeWhile (· ≠ '=')
  if text.head? ≠ some '-' then .ok .operand
  else if let some m := g.options.get? word then .ok (.option m .nothing)
  else if text.length = 1 then .ok .operand
  else
    match g.options.get? (String.ofList name), text.drop name.length with
    | some m, _ :: value => .ok (.option m (.value value))
    | _, _ =>
      match g.candidates text with
      | [r] => .ok r
      | _ :: _ => .error .wrong
      | [] => .ok (if isNegativeNumber text ∨ text.contains ' ' then .operand else .unknown)

def readAll : List String → Except Usage (List (Reading × String))
  | [] => .ok []
  | word :: rest =>
    if word = dividerWord then .ok ((.divider, word) :: rest.map fun w => (.operand, w))
    else do return (← g.read word, word) :: (← readAll rest)

end Grammar

structure Parsed where
  flags : List String
  values : Table String String
  /-- What was put into the slots that have been filled. The slot of an operand that was only the
  dividing word stays without a text. -/
  operands : Table String (Option String)
  rest : List String
  hasExtras : Bool
  deriving Repr

namespace Parsed

def empty : Parsed := ⟨[], [], [], [], false⟩

def act (p : Parsed) : Meaning → Except Usage Parsed
  | .help => .error .help
  | .flag name => .ok { p with flags := name :: p.flags }
  | .valued _ => .error .wrong

def actAll (p : Parsed) : List Meaning → Except Usage Parsed
  | [] => .ok p
  | m :: rest => do actAll (← p.act m) rest

/-- Fills a slot with a group of words, from which the dividing word is taken out once. -/
def fill (p : Parsed) (slot : Slot) (group : List String) : Except Usage Parsed :=
  if slot.kind = .rest then .ok { p with rest := group }
  else
    match group.erase dividerWord with
    | [word] =>
      if slot.numeric && (Numeral.integer? word.toList).isNone then .error .wrong
      else .ok { p with operands := p.operands.put slot.name (some word) }
    | _ => .ok { p with operands := p.operands.put slot.name none }

end Parsed

abbrev Words := List (Reading × String)

def isDivider (w : Reading × String) : Bool := w.1 = .divider

/-- The words at the front that go into a slot, and what is left. -/
def Slot.take? (slot : Slot) (words : Words) : Option (List String × Words) :=
  let dividers := words.takeWhile isDivider
  match slot.kind, words.dropWhile isDivider with
  | .rest, (.operand, _) :: _ => some (words.map Prod.snd, [])
  | .rest, _ => none
  | _, (.operand, word) :: after =>
    let trailing := after.takeWhile isDivider
    some (dividers.map Prod.snd ++ word :: trailing.map Prod.snd, after.dropWhile isDivider)
  | .optional, after => some (dividers.map Prod.snd, after)
  | .required, _ => none

def fillSlots : List Slot → Parsed → Words → Except Usage (List Slot × Parsed × Words)
  | [], p, words => .ok ([], p, words)
  | slot :: rest, p, words =>
    match slot.take? words with
    | none => .ok (slot :: rest, p, words)
    | some (group, after) => do fillSlots rest (← p.fill slot group) after

/-- The options that share a dash, up to a letter that is none, and whether there was one. -/
def clusterMeanings (g : Grammar) : List Char → Except Usage (List Meaning × Bool)
  | [] => .ok ([], false)
  | c :: rest =>
    if c = '-' then .error .wrong
    else
      match g.options.get? (String.ofList ['-', c]) with
      | none => .ok ([], true)
      | some m =>
        if rest.head? = some '=' then .error .wrong
        else do
          let (more, extra) ← clusterMeanings g rest
          return (m :: more, extra)

def consumeOption (g : Grammar) (p : Parsed) (m : Meaning) (joined : Joined) (after : Words) :
    Except Usage (Parsed × Words) :=
  match m, joined, after with
  | .valued name, .value text, _ =>
    .ok ({ p with values := p.values.put name (String.ofList text) }, after)
  | .valued name, .nothing, (.operand, word) :: after =>
    .ok ({ p with values := p.values.put name word }, after)
  | .valued _, _, _ => .error .wrong
  | _, .nothing, _ => do return (← p.act m, after)
  | _, .value _, _ => .error .wrong
  | _, .cluster letters, _ => do
    let (more, extra) ← clusterMeanings g letters
    let p ← p.actAll (m :: more)
    return ({ p with hasExtras := p.hasExtras || extra }, after)

def isOption (w : Reading × String) : Bool :=
  match w.1 with
  | .option _ _ | .unknown => true
  | _ => false

/-- Works through the words: operands fill slots as far as they can, those left over before an
option fit nowhere. -/
def consume (g : Grammar) : (fuel : Nat) → List Slot → Parsed → Words →
    Except Usage (List Slot × Parsed)
  | 0, slots, p, _ => .ok (slots, p)
  | fuel + 1, slots, p, words =>
    match words with
    | (.option m joined, _) :: after => do
      let (p, after) ← consumeOption g p m joined after
      consume g fuel slots p after
    | (.unknown, _) :: after => consume g fuel slots { p with hasExtras := true } after
    | _ => do
      let (slots, p, after) ← fillSlots slots p words
      if !after.any isOption then return (slots, { p with hasExtras := p.hasExtras || !after.isEmpty })
      else if after.length < words.length then consume g fuel slots p after
      else consume g fuel slots { p with hasExtras := true } (after.dropWhile fun w => !isOption w)

def Grammar.parse (g : Grammar) (line : List String) : Except Usage Parsed := do
  let words ← g.readAll line
  let (slots, p) ← consume g (2 * words.length + 1) g.slots .empty words
  if slots.any fun s => s.kind ≠ .optional then .error .wrong else return p

end VibeLens.Command
