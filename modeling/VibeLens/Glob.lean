set_option autoImplicit false

/-!
Glob patterns over whole strings, in which a slash is a character like any other. The body of a set is
cut into chunks at each hyphen that has a character on both sides; two neighbouring chunks make a range
from the last character of the one to the first character of the other.
-/

namespace VibeLens.Glob

/-- A set of characters: some on their own, some as ranges, perhaps all but these. -/
structure CharSet where
  negated : Bool
  single : List Char
  ranges : List (Char × Char)
  deriving DecidableEq, Repr

def CharSet.contains (s : CharSet) (c : Char) : Bool :=
  (s.single.contains c || s.ranges.any fun (lo, hi) => lo ≤ c && c ≤ hi) != s.negated

inductive Piece where
  | anyRun
  | anyOne
  | char (c : Char)
  | set (s : CharSet)
  deriving DecidableEq, Repr

/-- The body of a set whose opening bracket was just read, and the rest of the pattern. The first
characters, a negation mark and a closing bracket, cannot end it. -/
def setBody? (pattern : List Char) : Option (List Char × List Char) :=
  let (mark, rest) :=
    match pattern with
    | '!' :: rest => (['!'], rest)
    | _ => ([], pattern)
  let (bracket, rest) :=
    match rest with
    | ']' :: rest => ([']'], rest)
    | _ => ([], rest)
  match rest.dropWhile (· ≠ ']') with
  | [] => none
  | _ :: after => some (mark ++ bracket ++ rest.takeWhile (· ≠ ']'), after)

/-- Cuts a body at hyphens. `skip` characters are passed before the next hyphen counts. -/
def cut (skip : Nat) (chunk : List Char) : List Char → List (List Char)
  | [] => [chunk.reverse]
  | c :: rest =>
    match skip with
    | n + 1 => cut n (c :: chunk) rest
    | 0 => if c = '-' then chunk.reverse :: cut 2 [] rest else cut 0 (c :: chunk) rest

def keepLastHyphen : List (List Char) → List (List Char)
  | [chunk, []] => [chunk ++ ['-']]
  | chunk :: rest => chunk :: keepLastHyphen rest
  | [] => []

/-- Takes out ranges that run backwards, from the last to the first. -/
def dropBackward : List (List Char) → List (List Char)
  | [] => []
  | chunk :: rest =>
    match dropBackward rest with
    | [] => [chunk]
    | next :: others =>
      match chunk.getLast?, next.head? with
      | some lo, some hi =>
        if hi < lo then (chunk.dropLast ++ next.tail) :: others else chunk :: next :: others
      | _, _ => chunk :: next :: others

def rangesBetween : List (List Char) → List (Char × Char)
  | a :: b :: rest =>
    match a.getLast?, b.head? with
    | some lo, some hi => (lo, hi) :: rangesBetween (b :: rest)
    | _, _ => rangesBetween (b :: rest)
  | _ => []

/-- The set that a body writes. With nothing in it, no character matches, or every one if it is
negated. -/
def ofBody (body : List Char) : CharSet :=
  let chunks :=
    if body.contains '-' then
      dropBackward (keepLastHyphen (cut (if body.head? = some '!' then 2 else 1) [] body))
    else [body]
  match chunks with
  | ('!' :: chunk) :: rest => ⟨true, chunk ++ rest.flatten, rangesBetween (chunk :: rest)⟩
  | chunks => ⟨false, chunks.flatten, rangesBetween chunks⟩

theorem length_setBody?_lt {pattern body after : List Char}
    (h : setBody? pattern = some (body, after)) : after.length < pattern.length := by
  unfold setBody? at h
  split at h
  rename_i mark rest hm
  split at h
  rename_i bracket rest' hb
  split at h
  · cases h
  · rename_i c after' hd
    cases h
    have h₁ : rest.length ≤ pattern.length := by
      split at hm <;> cases hm <;> simp
    have h₂ : rest'.length ≤ rest.length := by
      split at hb <;> cases hb <;> simp
    have h₃ := (List.dropWhile_suffix (l := rest') (fun x => decide (x ≠ ']'))).length_le
    rw [hd, List.length_cons] at h₃
    omega

/-- The pieces of a pattern. An opening bracket that no set follows stands for itself. -/
def parse : List Char → List Piece
  | [] => []
  | '*' :: rest => .anyRun :: parse rest
  | '?' :: rest => .anyOne :: parse rest
  | '[' :: rest =>
    match _h : setBody? rest with
    | some (body, after) => .set (ofBody body) :: parse after
    | none => .char '[' :: parse rest
  | c :: rest => .char c :: parse rest
termination_by pattern => pattern.length
decreasing_by
  all_goals simp_wf
  all_goals (try have := length_setBody?_lt _h)
  all_goals omega

def rests : List Char → List (List Char)
  | [] => [[]]
  | c :: rest => (c :: rest) :: rests rest

def fits : List Piece → List Char → Bool
  | [], text => text.isEmpty
  | .anyRun :: pieces, text => (rests text).any (fits pieces)
  | .anyOne :: pieces, _ :: rest => fits pieces rest
  | .char c :: pieces, d :: rest => c == d && fits pieces rest
  | .set s :: pieces, d :: rest => s.contains d && fits pieces rest
  | _ :: _, [] => false

def isMatch (pattern text : String) : Bool := fits (parse pattern.toList) text.toList

/-- Whether a text is selected: it fits one of the patterns to take, if there are any, and none of
the patterns to leave out. -/
def selects (includes excludes : List String) (text : String) : Bool :=
  (includes.isEmpty || includes.any (isMatch · text)) && !excludes.any (isMatch · text)

end VibeLens.Glob
