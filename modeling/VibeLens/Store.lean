import VibeLens.Diagnostic.Basic
import VibeLens.Table

set_option autoImplicit false

/-!
The diagnostics of open documents. Runs of the interpreter are numbered for each document; a result that
carries a number other than the latest one is refused.
-/

namespace VibeLens

structure Store where
  entries : Table String (List Diagnostic)
  /-- The number of the latest run of each document that ever had one. -/
  generations : Table String Nat
  deriving DecidableEq, Repr

namespace Store

def empty : Store := ⟨[], []⟩

def get (s : Store) (doc : String) : List Diagnostic := (s.entries.get? doc).getD []

def contains (s : Store) (doc : String) : Bool := (s.entries.get? doc).isSome

/-- The documents that have diagnostics, in increasing order. -/
def documents (s : Store) : List String := s.entries.keys.mergeSort (· ≤ ·)

def size (s : Store) : Nat := s.entries.length

def begin (s : Store) (doc : String) : Store × Nat :=
  let generation := (s.generations.get? doc).getD 0 + 1
  ({ s with generations := s.generations.put doc generation }, generation)

/-- Whether a result with this number is current. A result without a number always is. -/
def accepts (s : Store) (doc : String) (generation : Option Int) : Bool :=
  match generation with
  | none => true
  | some g => (s.generations.get? doc).map Int.ofNat == some g

def clear (s : Store) (doc : String) : Store := { s with entries := s.entries.erase doc }

/-- Sets an entry; no diagnostics means no entry. -/
def set (s : Store) (doc : String) (diagnostics : List Diagnostic) : Store :=
  if diagnostics.isEmpty then s.clear doc
  else { s with entries := s.entries.put doc diagnostics }

def replace (s : Store) (doc : String) (diagnostics : List Diagnostic)
    (generation : Option Int) : Store × Bool :=
  if s.accepts doc generation then (s.set doc diagnostics, true) else (s, false)

/-- Clears an entry and supersedes every run still under way. -/
def forget (s : Store) (doc : String) : Store :=
  let cleared := s.clear doc
  match s.generations.get? doc with
  | none => cleared
  | some g => { cleared with generations := s.generations.put doc (g + 1) }

inductive Request where
  | begin (doc : String)
  | replace (doc : String) (diagnostics : List Diagnostic) (generation : Option Int)
  | clear (doc : String)
  | forget (doc : String)
  | get (doc : String)
  | contains (doc : String)
  deriving DecidableEq, Repr

inductive Reply where
  | done
  | generation (n : Nat)
  | truth (b : Bool)
  | diagnostics (list : List Diagnostic)
  deriving DecidableEq, Repr

def Request.document : Request → String
  | begin doc | replace doc _ _ | clear doc | forget doc | get doc | contains doc => doc

def handle (s : Store) : Request → Store × Reply
  | .begin doc => ((s.begin doc).1, .generation (s.begin doc).2)
  | .replace doc diagnostics generation =>
    ((s.replace doc diagnostics generation).1, .truth (s.replace doc diagnostics generation).2)
  | .clear doc => (s.clear doc, .done)
  | .forget doc => (s.forget doc, .done)
  | .get doc => (s, .diagnostics (s.get doc))
  | .contains doc => (s, .truth (s.contains doc))

end Store
end VibeLens
