import VibeLens.Outline.Line
import VibeLens.Text.Lines

set_option autoImplicit false

/-!
The outline of a document, found in one pass over its lines. A definition is recorded together with the
line of the definition that owns it; when its block closes, its end moves to the closing line. The
forest is assembled from these entries at the end.
-/

namespace VibeLens.Outline

/-- A definition recorded by the scan. Its line identifies it. -/
structure Entry where
  name : String
  kind : Kind
  start : Position
  stop : Position
  /-- The line of the definition that owns this one; a root has none. -/
  owner : Option Nat
  deriving DecidableEq, Repr

/-- An open definition: its line, and how many blocks were open before it. -/
structure Frame where
  line : Nat
  depth : Nat
  deriving DecidableEq, Repr

/-- The state before a line. The innermost frame comes first, and so does the newest entry. -/
structure Scan where
  line : Nat
  depth : Nat
  frames : List Frame
  entries : List Entry
  deriving DecidableEq, Repr

namespace Scan

def start : Scan := ⟨0, 0, [], []⟩

/-- Records a definition, which provisionally ends with its own line. -/
def define (s : Scan) (d : Definition) (length : Nat) : Scan :=
  let owner := if d.kind.isNestable then s.frames.head?.map Frame.line else none
  { s with entries :=
      ⟨String.ofList d.name, d.kind, ⟨s.line, d.column⟩, ⟨s.line, length⟩, owner⟩ :: s.entries }

/-- Opens a block, owned by the definition of this line if there is one that can own it. -/
def openBlock (s : Scan) (owned : Bool) : Scan :=
  { s with
    frames := if owned then ⟨s.line, s.depth⟩ :: s.frames else s.frames
    depth := s.depth + 1 }

def moveStop (line : Nat) (stop : Position) (entries : List Entry) : List Entry :=
  entries.map fun e => if e.start.line = line then { e with stop := stop } else e

def closeBlock (s : Scan) (length : Nat) : Scan :=
  let depth := s.depth - 1
  match s.frames with
  | frame :: frames =>
    if depth ≤ frame.depth then
      { s with
        depth := depth
        frames := frames
        entries := moveStop frame.line ⟨s.line, length⟩ s.entries }
    else { s with depth := depth }
  | [] => { s with depth := depth }

/-- Reads one line. A line that opens and closes does both, in this order. -/
def step (s : Scan) (line : List Char) : Scan :=
  let found := definition? line
  let code := codePortion line
  let defined := found.elim s fun d => s.define d line.length
  let opened :=
    if opens code then defined.openBlock (found.any fun d => d.kind.isScoped) else defined
  let closed := if closes code then opened.closeBlock line.length else opened
  { closed with line := s.line + 1 }

def run (lines : List (List Char)) : Scan := lines.foldl step start

end Scan

/-- Puts an entry in front of trees that are complete, taking those that it owns. -/
def adopt (e : Entry) (trees : List (Option Nat × Symbol)) : List (Option Nat × Symbol) :=
  let owned := trees.partition fun t => t.1 == some e.start.line
  (e.owner, ⟨e.name, e.kind, e.start, e.stop, owned.1.map Prod.snd⟩) :: owned.2

/-- The forest of entries given in the order of their lines. -/
def assemble (entries : List Entry) : List Symbol := (entries.foldr adopt []).map Prod.snd

def ofLines (lines : List (List Char)) : List Symbol := assemble (Scan.run lines).entries.reverse

/-- The outline of a document: its roots in the order of their lines. -/
def ofContent (content : Content) : List Symbol := ofLines content.lines

end VibeLens.Outline
