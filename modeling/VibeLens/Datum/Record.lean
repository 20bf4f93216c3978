import VibeLens.Assist.Completion
import VibeLens.Assist.Hover
import VibeLens.Datum.Scalar
import VibeLens.Diagnostic.Basic
import VibeLens.Symbol

set_option autoImplicit false

/-!
Reading data as records. A field is required, or has a default that stands in when its key is
absent. Keys that a record does not know are passed over here.
-/

namespace VibeLens

namespace Datum

variable {α : Type}

/-- The members of a table that is to be read as the named record. -/
def record (name : String) (read : List (String × Datum) → Verdict α) : Datum → Verdict α
  | table members => read members
  | _ => .fault (.recordExpected name)

def required (members : List (String × Datum)) (key : String) (read : Datum → Verdict α) :
    Verdict α :=
  (match members.lookup key with
    | some d => read d
    | none => .fault .missing).under (.field key)

def optional (members : List (String × Datum)) (key : String) (default : α)
    (read : Datum → Verdict α) : Verdict α :=
  match members.lookup key with
  | some d => (read d).under (.field key)
  | none => .valid default

def unknownKeys (known : List String) (members : List (String × Datum)) : List Fault :=
  (members.filter fun m => !known.contains m.1).map fun m => ⟨[.field m.1], .extraForbidden⟩

end Datum

open Datum

def Position.ofDatum : Datum → Verdict Position :=
  record "Position" fun ms =>
    ((Verdict.valid Position.mk).app (required ms "line" natural)).app
      (required ms "column" natural)

def Kind.ofDatum : Datum → Verdict Kind := literal (Kind.all.map Kind.label) Kind.ofLabel?

def Symbol.ofDatum : Datum → Verdict Symbol
  | .table ms =>
    let children : Verdict (List Symbol) :=
      match _h : ms.lookup "children" with
      | none => .valid []
      | some (.list items) =>
        (Verdict.collect (items.attach.map fun ⟨item, _⟩ => Symbol.ofDatum item)).under
          (.field "children")
      | some _ => (Verdict.fault .listExpected).under (.field "children")
    ((((Verdict.valid Symbol.mk).app (required ms "name" string)).app
      (required ms "kind" Kind.ofDatum)).app
      (required ms "start" Position.ofDatum)).app
      (required ms "end" Position.ofDatum) |>.app children
  | _ => .fault (.recordExpected "SymbolNode")
termination_by d => sizeOf d
decreasing_by
  have h₁ := sizeOf_lookup_lt _h
  have h₂ := sizeOf_item_lt (by assumption)
  omega

def Diagnostic.ofDatum : Datum → Verdict Diagnostic :=
  record "Diagnostic" fun ms =>
    ((((Verdict.valid fun line column message (_ : Unit) => Diagnostic.mk line column message).app
      (required ms "line" natural)).app
      (required ms "column" natural)).app
      (required ms "message" string)).app
      (optional ms "severity" ()
        (literal [Diagnostic.severity] fun s => if s = Diagnostic.severity then some () else none))

namespace Assist

def Builtin.ofDatum : Datum → Verdict Builtin :=
  record "BuiltinDoc" fun ms =>
    (((Verdict.valid Builtin.mk).app (required ms "signature" string)).app
      (required ms "description" string)).app
      (optional ms "method_style" none string?)

def CompletionKind.ofDatum : Datum → Verdict CompletionKind :=
  literal (CompletionKind.all.map CompletionKind.label) CompletionKind.ofLabel?

def Completion.ofDatum : Datum → Verdict Completion :=
  record "CompletionItem" fun ms =>
    ((((Verdict.valid Completion.mk).app (required ms "label" string)).app
      (required ms "kind" CompletionKind.ofDatum)).app
      (required ms "detail" string)).app
      (optional ms "documentation" none string?)

def Hover.ofDatum : Datum → Verdict Hover :=
  record "Hover" fun ms =>
    ((((Verdict.valid Hover.mk).app (required ms "contents" string)).app
      (required ms "line" natural)).app
      (required ms "start_column" natural)).app
      (required ms "end_column" natural)

end Assist
end VibeLens
