import VibeLens.Files.Host
import VibeLens.Shell.Format

set_option autoImplicit false

/-!
Conditions on texts, numbers and files. How a condition is read depends on the number of its words.
-/

namespace VibeLens.Shell.Condition

def integer (text : Text) : Except Text Int :=
  match Numeral.integer? text with
  | some n => .ok n
  | none => .error ("Illegal number: ".toList ++ text)

def unary? (h : Host) (operator : String) (word : Text) (place : String) : Option Bool :=
  let found := (h.tree.find h.cwd place).toOption.map Prod.snd
  match operator with
  | "-n" => some (!word.isEmpty)
  | "-z" => some word.isEmpty
  | "-e" | "-r" | "-w" => some found.isSome
  | "-f" => some (h.tree.isFile h.cwd place)
  | "-d" => some (h.tree.isDir h.cwd place)
  | "-x" => some (h.tree.isDir h.cwd place || h.tree.isExecutable h.cwd place)
  | "-h" | "-L" => some (h.tree.isLink h.cwd place)
  | "-s" =>
    match found with
    | some (.file content _) => some (!content.isEmpty)
    | other => some other.isSome
  | "-t" => some false
  | _ => none

def binary? (operator : String) (a b : Text) : Option (Except Text Bool) :=
  let compare (test : Int → Int → Bool) : Option (Except Text Bool) := some do
    return test (← integer a) (← integer b)
  match operator with
  | "=" => some (.ok (a = b))
  | "!=" => some (.ok (a ≠ b))
  | "-eq" => compare fun m n => m = n
  | "-ne" => compare fun m n => m ≠ n
  | "-lt" => compare fun m n => m < n
  | "-le" => compare fun m n => m ≤ n
  | "-gt" => compare fun m n => n < m
  | "-ge" => compare fun m n => n ≤ m
  | _ => none

def splitAt? (word : String) (words : List Text) : Option (List Text × List Text) :=
  match words.dropWhile (· ≠ word.toList) with
  | [] => none
  | _ :: after => some (words.takeWhile (· ≠ word.toList), after)

def holds (h : Host) (place : Text → String) : (fuel : Nat) → List Text → Except Text Bool
  | 0, _ => .ok false
  | _ + 1, [] => .ok false
  | _ + 1, [a] => .ok (!a.isEmpty)
  | fuel + 1, words =>
    let simple : Option (Except Text Bool) :=
      match words with
      | [op, a] => (unary? h (String.ofList op) a (place a)).map .ok
      | [a, op, b] => binary? (String.ofList op) a b
      | _ => none
    match simple with
    | some r => r
    | none =>
      if words.head? = some ['!'] then (holds h place fuel words.tail).map not
      else
        match splitAt? "-o" words, splitAt? "-a" words with
        | some (left, right), _ => do
          return (← holds h place fuel left) || (← holds h place fuel right)
        | none, some (left, right) => do
          return (← holds h place fuel left) && (← holds h place fuel right)
        | none, none =>
          .error (words.head?.getD [] ++ ": unexpected operator".toList)

end VibeLens.Shell.Condition
