set_option autoImplicit false

/-!
Verdicts on data. A fault is a cause at a place inside the data. A verdict is either a value or all
the faults that were found: checking one part goes on after another part has failed.
-/

namespace VibeLens

/-- A step from a datum to a part of it. -/
inductive Step where
  | field (name : String)
  | index (n : Nat)
  deriving DecidableEq, Repr

inductive Cause where
  | missing
  | extraForbidden
  | recordExpected (name : String)
  | stringExpected
  | listExpected
  | literalExpected (labels : List String)
  | boolExpected
  | boolUnreadable
  | integerExpected
  | integerUnreadable
  | integerTooLong
  | integerHasFraction
  | finiteExpected
  | numberExpected
  | numberUnreadable
  | notPositive
  | negative
  deriving DecidableEq, Repr

structure Fault where
  place : List Step
  cause : Cause
  deriving DecidableEq, Repr

namespace Step

def label : Step → String
  | field name => name
  | index n => toString n

end Step

namespace Cause

def tag : Cause → String
  | missing => "missing"
  | extraForbidden => "extra_forbidden"
  | recordExpected _ => "model_type"
  | stringExpected => "string_type"
  | listExpected => "list_type"
  | literalExpected _ => "literal_error"
  | boolExpected => "bool_type"
  | boolUnreadable => "bool_parsing"
  | integerExpected => "int_type"
  | integerUnreadable => "int_parsing"
  | integerTooLong => "int_parsing_size"
  | integerHasFraction => "int_from_float"
  | finiteExpected => "finite_number"
  | numberExpected => "float_type"
  | numberUnreadable => "float_parsing"
  | notPositive => "greater_than"
  | negative => "greater_than_equal"

/-- Quoted labels in a row, the last one after the word or. -/
def alternatives : List String → String
  | [] => ""
  | [a] => "'" ++ a ++ "'"
  | [a, b] => "'" ++ a ++ "' or '" ++ b ++ "'"
  | a :: rest => "'" ++ a ++ "', " ++ alternatives rest

def message : Cause → String
  | missing => "Field required"
  | extraForbidden => "Extra inputs are not permitted"
  | recordExpected name => "Input should be a valid dictionary or instance of " ++ name
  | stringExpected => "Input should be a valid string"
  | listExpected => "Input should be a valid list"
  | literalExpected labels => "Input should be " ++ alternatives labels
  | boolExpected => "Input should be a valid boolean"
  | boolUnreadable => "Input should be a valid boolean, unable to interpret input"
  | integerExpected => "Input should be a valid integer"
  | integerUnreadable => "Input should be a valid integer, unable to parse string as an integer"
  | integerTooLong => "Unable to parse input string as an integer, exceeded maximum size"
  | integerHasFraction => "Input should be a valid integer, got a number with a fractional part"
  | finiteExpected => "Input should be a finite number"
  | numberExpected => "Input should be a valid number"
  | numberUnreadable => "Input should be a valid number, unable to parse string as a number"
  | notPositive => "Input should be greater than 0"
  | negative => "Input should be greater than or equal to 0"

end Cause

namespace Fault

def labels (f : Fault) : List String := f.place.map Step.label

/-- Faults in the order of their places, compared step by step as texts. -/
def sort (faults : List Fault) : List Fault :=
  faults.mergeSort fun a b => !List.lex b.labels a.labels (fun s t => s < t)

end Fault

inductive Verdict (α : Type) where
  | valid (value : α)
  | faulty (faults : List Fault)
  deriving Repr

namespace Verdict

variable {α β : Type}

def fault (cause : Cause) : Verdict α := faulty [⟨[], cause⟩]

def map (f : α → β) : Verdict α → Verdict β
  | valid a => valid (f a)
  | faulty faults => faulty faults

/-- Applies a function of one more part, keeping the faults of both. -/
def app : Verdict (α → β) → Verdict α → Verdict β
  | valid f, valid a => valid (f a)
  | valid _, faulty q => faulty q
  | faulty p, valid _ => faulty p
  | faulty p, faulty q => faulty (p ++ q)

def andThen (v : Verdict α) (check : α → Verdict β) : Verdict β :=
  match v with
  | valid a => check a
  | faulty faults => faulty faults

def under (step : Step) : Verdict α → Verdict α
  | valid a => valid a
  | faulty faults => faulty (faults.map fun f => { f with place := step :: f.place })

def alongside (v : Verdict α) (more : List Fault) : Verdict α :=
  match v, more with
  | valid a, [] => valid a
  | valid _, more => faulty more
  | faulty faults, more => faulty (faults ++ more)

/-- All the values, or all the faults, of a list whose items are counted from `n`. -/
def collectFrom (n : Nat) : List (Verdict α) → Verdict (List α)
  | [] => valid []
  | v :: vs => ((v.under (.index n)).map List.cons).app (collectFrom (n + 1) vs)

def collect (vs : List (Verdict α)) : Verdict (List α) := collectFrom 0 vs

end Verdict
end VibeLens
