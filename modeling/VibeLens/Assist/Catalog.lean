set_option autoImplicit false

/-!
The vocabulary of the language: builtin functions with their documentation, keywords and types.
-/

namespace VibeLens.Assist

structure Builtin where
  signature : String
  description : String
  /-- The same call written as a method, if there is such a form. -/
  methodStyle : Option String
  deriving DecidableEq, Repr

def builtins : List (String × Builtin) :=
  [("puts", ⟨"puts(value)", "Prints value to stdout with a newline.", none⟩),
   ("print", ⟨"print(value)", "Prints value to stdout without a newline.", none⟩),
   ("input", ⟨"input(prompt?)", "Reads a line of input from stdin.", none⟩),
   ("len", ⟨"len(array_or_string)", "Returns the length.", some "value.len"⟩),
   ("push", ⟨"push(array, value)", "Appends to array.", some "array.push(value)"⟩),
   ("pop", ⟨"pop(array)", "Removes and returns last element.", some "array.pop"⟩),
   ("map", ⟨"map(array, fn)", "Applies fn to each element.", some "array.map(fn)"⟩),
   ("filter", ⟨"filter(array, fn)", "Filters elements.", some "array.filter(fn)"⟩),
   ("each", ⟨"each(array, fn)", "Iterates for side effects.", some "array.each(fn)"⟩),
   ("reduce",
    ⟨"reduce(array, initial, fn)", "Reduces to single value.", some "array.reduce(init, fn)"⟩),
   ("sort", ⟨"sort(array)", "Returns sorted copy.", some "array.sort"⟩),
   ("reverse", ⟨"reverse(array)", "Returns reversed copy.", some "array.reverse"⟩),
   ("trim", ⟨"trim(string)", "Removes whitespace.", some "string.trim"⟩),
   ("split", ⟨"split(string, delim)", "Splits string.", some "string.split(delim)"⟩),
   ("join", ⟨"join(array, sep)", "Joins array.", some "array.join(sep)"⟩),
   ("replace",
    ⟨"replace(string, old, new)", "Replaces occurrences.", some "string.replace(old, new)"⟩),
   ("upcase", ⟨"upcase(string)", "Converts to uppercase.", some "string.upcase"⟩),
   ("downcase", ⟨"downcase(string)", "Converts to lowercase.", some "string.downcase"⟩),
   ("keys", ⟨"keys(hash)", "Returns array of keys.", some "hash.keys"⟩),
   ("values", ⟨"values(hash)", "Returns array of values.", some "hash.values"⟩),
   ("type", ⟨"type(value)", "Returns type name.", some "value.type"⟩),
   ("format", ⟨"format(template, args...)", "Sprintf-style formatting.", none⟩),
   ("Error", ⟨"Error(message, data?)", "Creates structured error.", none⟩)]

def keywords : List String :=
  ["def", "end", "fn", "let", "const", "if", "elsif", "else", "unless", "until", "while", "for",
   "in", "case", "when", "break", "continue", "return", "class", "struct", "enum", "prop", "try",
   "catch", "throw", "finally", "import", "self", "super", "true", "false", "nil"]

def types : List String :=
  ["int", "float", "string", "boolean", "nil", "any"]

def builtin? (name : String) : Option Builtin := builtins.lookup name

end VibeLens.Assist
