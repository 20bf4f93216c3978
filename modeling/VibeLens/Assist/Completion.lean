import VibeLens.Assist.Catalog

set_option autoImplicit false

/-!
Completion from the vocabulary of the language alone.
-/

namespace VibeLens.Assist

inductive CompletionKind where
  | function
  | keyword
  | typeParameter
  deriving DecidableEq, Repr

structure Completion where
  label : String
  kind : CompletionKind
  detail : String
  documentation : Option String
  deriving DecidableEq, Repr

namespace CompletionKind

def all : List CompletionKind := [function, keyword, typeParameter]

def label : CompletionKind → String
  | function => "function"
  | keyword => "keyword"
  | typeParameter => "type_parameter"

def ofLabel? (label : String) : Option CompletionKind := all.find? (·.label = label)

@[simp] theorem ofLabel?_label (kind : CompletionKind) : ofLabel? kind.label = some kind := by
  cases kind <;> rfl

end CompletionKind

/-- Everything that can be offered: builtins, then keywords, then types. -/
def vocabulary : List Completion :=
  builtins.map (fun (name, doc) => ⟨name, .function, doc.signature, some doc.description⟩)
    ++ keywords.map (fun word => ⟨word, .keyword, "keyword", none⟩)
    ++ types.map (fun name => ⟨name, .typeParameter, "type", none⟩)

/-- What can be offered for the start of a word; case matters. -/
def complete (stem : String) : List Completion :=
  vocabulary.filter fun item => stem.toList.isPrefixOf item.label.toList

end VibeLens.Assist
