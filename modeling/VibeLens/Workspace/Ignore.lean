import VibeLens.Expression
import VibeLens.Text.Blank
import VibeLens.Text.Lines

set_option autoImplicit false

/-!
Ignore files. With no rule that takes paths back in, a path is ignored if any rule fits it; otherwise the
last rule that fits decides. A rule is turned into the written form of an expression, which is read only
when a path is held against the rule, so a set that cannot be read shows only then.
-/

namespace VibeLens

/-- Why an ignore file cannot be used. -/
inductive IgnoreFault where
  | undecodable
  /-- A rule has nothing left when its marks are taken off, or a set holds nothing but slashes. -/
  | emptyPattern
  | badExpression
  deriving DecidableEq, Repr

structure IgnoreRule where
  negated : Bool
  expression : List Char
  deriving DecidableEq, Repr

namespace IgnoreRule

open Text

/-! ### From a line to a pattern -/

/-- A run of two or more stars after a character other than a slash becomes one star. -/
def mergeStarsAfter : List Char → List Char
  | [] => []
  | c :: rest =>
    if c ≠ '/' ∧ 2 ≤ (rest.takeWhile (· == '*')).length then
      c :: '*' :: mergeStarsAfter (rest.dropWhile (· == '*'))
    else c :: mergeStarsAfter rest
termination_by text => text.length
decreasing_by
  all_goals simp_wf
  · have := (List.dropWhile_suffix (l := rest) (· == '*')).length_le
    omega

/-- A run of two or more stars before a character other than a slash becomes one star. Of three or
more stars the last one can be that character. -/
def mergeStarsBefore : List Char → List Char
  | '*' :: '*' :: rest =>
    match _h : rest.dropWhile (· == '*') with
    | [] => ['*', '*']
    | c :: after =>
      if c ≠ '/' then '*' :: c :: mergeStarsBefore after
      else '*' :: '*' :: c :: mergeStarsBefore after
  | c :: rest => c :: mergeStarsBefore rest
  | [] => []
termination_by text => text.length
decreasing_by
  all_goals simp_wf
  all_goals
    have := (List.dropWhile_suffix (l := rest) (· == '*')).length_le
    rw [_h, List.length_cons] at this
    omega

/-- Takes off spaces at the end, up to one that a backslash protects; the backslash goes. The
pattern is given backwards, and its first two characters are never touched. -/
def trimSpaces (strip : Bool) (kept : List Char) : List Char → List Char
  | ' ' :: '\\' :: a :: rest => trimSpaces false (' ' :: kept) (a :: rest)
  | ' ' :: a :: b :: rest =>
    trimSpaces strip (if strip then [] else ' ' :: kept) (a :: b :: rest)
  | pattern => pattern.reverse ++ kept

def first (pattern : List Char) : Except IgnoreFault Char :=
  match pattern with
  | c :: _ => .ok c
  | [] => .error .emptyPattern

def last (pattern : List Char) : Except IgnoreFault Char := first pattern.reverse

/-- A pattern without its marks: what is to fit, whether only directories are meant, and whether it
is tied to the directory of the file. -/
structure Pattern where
  body : List Char
  directoryOnly : Bool
  anchored : Bool
  deriving DecidableEq, Repr

def dropSlash (pattern : List Char) : Except IgnoreFault (List Char) := do
  return if (← first pattern) = '/' then pattern.tail else pattern

def Pattern.ofText (pattern : List Char) : Except IgnoreFault Pattern := do
  let directoryOnly := (← last pattern) = '/'
  let anchored := pattern.dropLast.contains '/'
  let pattern ← dropSlash pattern
  let head ← first pattern
  let stars := head = '*' ∧ pattern.tail.head? = some '*'
  let pattern ← dropSlash (if stars then pattern.drop 2 else pattern)
  let pattern := if (← last pattern) = '/' then pattern.dropLast else pattern
  let head ← first pattern
  let pattern ←
    if head = '\\' then do
      let next ← first pattern.tail
      pure (if next = '#' ∨ next = '!' then pattern.tail else pattern)
    else pure pattern
  return ⟨trimSpaces true [] pattern.reverse, directoryOnly, anchored && !stars⟩

/-! ### From a pattern to an expression -/

def specials : List Char := "()[]{}?*+-|^$\\.&~# \t\n\r\x0b\x0c".toList

def literal (c : Char) : List Char := if specials.contains c then ['\\', c] else [c]

/-- The body of a set, where slashes go and a backslash stands for itself. -/
def setText (body : List Char) : Except IgnoreFault (List Char) := do
  let inner := (body.filter (· ≠ '/')).flatMap fun c => if c = '\\' then ['\\', '\\'] else [c]
  let head ← first inner
  let inner :=
    if head = '!' then '^' :: inner.tail
    else if head = '^' then '\\' :: inner
    else inner
  return '[' :: inner ++ [']']

def bodyText : List Char → Except IgnoreFault (List Char)
  | [] => .ok []
  | '*' :: '*' :: '/' :: rest => do return "(.*[/])?".toList ++ (← bodyText rest)
  | '*' :: '*' :: rest => do return ".*".toList ++ (← bodyText rest)
  | '*' :: rest => do return "[^/]*".toList ++ (← bodyText rest)
  | '?' :: rest => do return "[^/]".toList ++ (← bodyText rest)
  | '/' :: rest => do return "[/]".toList ++ (← bodyText rest)
  | '[' :: rest =>
    match _h : Glob.setBody? rest with
    | some (body, after) => do return (← setText body) ++ (← bodyText after)
    | none => do return literal '[' ++ (← bodyText rest)
  | c :: rest => do return literal c ++ (← bodyText rest)
termination_by pattern => pattern.length
decreasing_by
  all_goals simp_wf
  all_goals (try have := Glob.length_setBody?_lt _h)
  all_goals omega

def Pattern.expression (p : Pattern) (negated : Bool) : Except IgnoreFault (List Char) := do
  let front := if p.anchored then "^" else "(^|[/])"
  let back :=
    if !p.directoryOnly then "$" else if negated then "[/]$" else "($|[/])"
  return front.toList ++ (← bodyText p.body) ++ back.toList

def ofLine (line : List Char) : Except IgnoreFault (Option IgnoreRule) := do
  if (trim line).isEmpty || line.head? = some '#' then return none
  let negated := line.head? = some '!'
  let pattern := mergeStarsBefore (mergeStarsAfter (if negated then line.tail else line))
  if trimEndBy isBlank pattern = ['/'] then return none
  let p ← Pattern.ofText pattern
  return some ⟨negated, ← p.expression negated⟩

def fits (r : IgnoreRule) (path : List Char) : Except IgnoreFault Bool :=
  match Expression.parse? r.expression with
  | some e => .ok (e.foundIn path)
  | none => .error .badExpression

end IgnoreRule

structure IgnoreFile where
  rules : List IgnoreRule
  deriving DecidableEq, Repr

namespace IgnoreFile

def ofBytes (bytes : Text.Utf8.Bytes) : Except IgnoreFault IgnoreFile := do
  match Text.Utf8.decode? bytes with
  | none => .error .undecodable
  | some text => return ⟨(← (Text.lines text).mapM IgnoreRule.ofLine).filterMap id⟩

/-- What the first rule of the list that fits says; the rules after it are not looked at. -/
def verdict (answer : IgnoreRule → Bool) (path : List Char) :
    List IgnoreRule → Except IgnoreFault Bool
  | [] => .ok false
  | r :: rest => do if ← r.fits path then return answer r else verdict answer path rest

def ignores (f : IgnoreFile) (path : List Char) : Except IgnoreFault Bool :=
  if f.rules.any (·.negated) then verdict (fun r => !r.negated) path f.rules.reverse
  else verdict (fun _ => true) path f.rules

end IgnoreFile
end VibeLens
