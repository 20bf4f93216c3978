set_option autoImplicit false

/-!
The language of shell scripts, in the part that interpreters written as scripts use. Texts are lists
of characters each of which stands for one byte.
-/

namespace VibeLens.Shell

abbrev Text := List Char

inductive Substitute where
  | default
  | assign
  /-- Takes the place of a value that is there. -/
  | alternative
  | demand
  deriving DecidableEq, Repr

/-- What is done with the value of a parameter. Words are kept raw. -/
inductive Modifier where
  | value
  /-- With `emptyToo` an empty value counts as missing. -/
  | substitute (kind : Substitute) (word : Text) (emptyToo : Bool)
  | trim (atEnd longest : Bool) (pattern : Text)
  | length
  | unknown
  deriving DecidableEq, Repr

inductive Part where
  | plain (text : Text)
  | quoted (text : Text)
  | parameter (name : Text) (modifier : Modifier) (quoted : Bool)
  | output (script : Text) (quoted : Bool)
  | arithmetic (formula : Text) (quoted : Bool)
  deriving DecidableEq, Repr

abbrev Word := List Part

def literal? : Word → Option Text
  | [.plain text] => some text
  | _ => none

inductive RedirectKind where
  | read
  | write
  | append
  | duplicate
  /-- The target is the text to be read. -/
  | here
  deriving DecidableEq, Repr

structure Redirect where
  descriptor : Nat
  kind : RedirectKind
  target : Word
  deriving DecidableEq, Repr

inductive Command where
  | skip
  | simple (line : Nat) (words : List Word) (redirects : List Redirect)
  | seq (first second : Command)
  | background (body : Command)
  | both (first second : Command)
  | either (first second : Command)
  | negate (body : Command)
  | pipe (first second : Command)
  | branch (condition yes no : Command)
  /-- Goes on while the condition succeeds or, with `negated`, while it fails. -/
  | loop (negated : Bool) (condition body : Command)
  /-- Without words the arguments are taken. -/
  | each (name : Text) (words : Option (List Word)) (body : Command)
  | choose (word : Word) (arms : List (List Word × Command))
  | define (name : Text) (body : Command)
  | nested (body : Command)
  | redirected (body : Command) (redirects : List Redirect)
  deriving Repr

end VibeLens.Shell
