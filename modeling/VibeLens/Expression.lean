import VibeLens.Glob

set_option autoImplicit false

/-!
A small language of regular expressions, in which a backslash takes the special meaning from the next
character. An expression is found in a text if it fits some part of it.
-/

namespace VibeLens

inductive Expression where
  | nothing
  | one (set : Glob.CharSet)
  | textStart
  /-- The end of the text, or the place before a line feed that ends it. -/
  | textEnd
  | seq (first second : Expression)
  | alt (first second : Expression)
  | star (body : Expression)
  deriving DecidableEq, Repr

namespace Expression

/-! ### Reading -/

/-- A character of the written form, and whether a backslash stood before it. -/
structure Mark where
  char : Char
  escaped : Bool
  deriving DecidableEq, Repr

def Mark.is (m : Mark) (c : Char) : Bool := m.char == c && !m.escaped

def marks? : List Char → Option (List Mark)
  | [] => some []
  | ['\\'] => none
  | '\\' :: c :: rest => (marks? rest).map (⟨c, true⟩ :: ·)
  | c :: rest => (marks? rest).map (⟨c, false⟩ :: ·)

/-- The members of a set and what follows its closing bracket. Right at the start a closing bracket
is a member. A range must not run backwards. -/
def members? (atStart : Bool) : List Mark → Option (Glob.CharSet × List Mark)
  | [] => none
  | m :: rest =>
    if m.is ']' && !atStart then some (⟨false, [], []⟩, rest)
    else
      match rest with
      | dash :: last :: more =>
        if dash.is '-' then
          if last.is ']' then some (⟨false, [m.char, '-'], []⟩, more)
          else if last.char < m.char then none
          else (members? false more).map fun (s, r) =>
            ({ s with ranges := (m.char, last.char) :: s.ranges }, r)
        else (members? false (dash :: last :: more)).map fun (s, r) =>
          ({ s with single := m.char :: s.single }, r)
      | rest => (members? false rest).map fun (s, r) =>
        ({ s with single := m.char :: s.single }, r)

def set? : List Mark → Option (Glob.CharSet × List Mark)
  | m :: rest =>
    if m.is '^' then (members? true rest).map fun (s, r) => ({ s with negated := true }, r)
    else members? true (m :: rest)
  | [] => none

inductive Token where
  | item (e : Expression)
  | star
  | optional
  | bar
  | opening
  | closing
  deriving DecidableEq, Repr

def notLineFeed : Glob.CharSet := ⟨true, ['\n'], []⟩

def token (m : Mark) : Token :=
  if m.is '*' then .star
  else if m.is '?' then .optional
  else if m.is '|' then .bar
  else if m.is '(' then .opening
  else if m.is ')' then .closing
  else if m.is '^' then .item .textStart
  else if m.is '$' then .item .textEnd
  else if m.is '.' then .item (.one notLineFeed)
  else .item (.one ⟨false, [m.char], []⟩)

theorem length_members?_lt {atStart : Bool} {marks rest : List Mark} {s : Glob.CharSet}
    (h : members? atStart marks = some (s, rest)) : rest.length < marks.length := by
  fun_induction members? atStart marks generalizing s rest <;>
    grind [Option.map_eq_some_iff]

theorem length_set?_le {marks rest : List Mark} {s : Glob.CharSet}
    (h : set? marks = some (s, rest)) : rest.length ≤ marks.length := by
  cases marks with
  | nil => simp [set?] at h
  | cons m marks =>
    rw [set?] at h
    split at h
    · obtain ⟨⟨s', r⟩, hm, he⟩ := Option.map_eq_some_iff.1 h
      have := length_members?_lt hm
      cases he
      simp
      omega
    · have := length_members?_lt h
      omega

def tokens? : List Mark → Option (List Token)
  | [] => some []
  | m :: rest =>
    if m.is '[' then
      match _h : set? rest with
      | some (s, after) => (tokens? after).map (.item (.one s) :: ·)
      | none => none
    else (tokens? rest).map (token m :: ·)
termination_by marks => marks.length
decreasing_by
  all_goals simp_wf
  all_goals (try have := length_set?_le _h)
  all_goals omega

/-- An open group: the alternatives before the last bar, and the items after it, newest first, with
a flag that says whether an item may be repeated. -/
structure Group where
  done : Option Expression
  items : List (Expression × Bool)
  deriving DecidableEq, Repr

namespace Group

def empty : Group := ⟨none, []⟩

def sequence (g : Group) : Expression := g.items.foldl (fun e item => .seq item.1 e) .nothing

def close (g : Group) : Expression :=
  match g.done with
  | none => g.sequence
  | some e => .alt e g.sequence

def add (g : Group) (e : Expression) (repeatable : Bool) : Group :=
  { g with items := (e, repeatable) :: g.items }

end Group

def isAnchor (e : Expression) : Bool := e = .textStart || e = .textEnd

def shift? (groups : List Group) (t : Token) : Option (List Group) :=
  match groups with
  | [] => none
  | g :: outer =>
    match t with
    | .item e => some (g.add e (!isAnchor e) :: outer)
    | .bar => some (⟨some g.close, []⟩ :: outer)
    | .opening => some (Group.empty :: g :: outer)
    | .closing =>
      match outer with
      | [] => none
      | o :: rest => some (o.add g.close true :: rest)
    | .star =>
      match g.items with
      | (e, true) :: items => some ({ g with items := (.star e, false) :: items } :: outer)
      | _ => none
    | .optional =>
      match g.items with
      | (e, true) :: items => some ({ g with items := (.alt e .nothing, false) :: items } :: outer)
      | _ => none

/-- Reads the written form of an expression. -/
def parse? (text : List Char) : Option Expression := do
  let tokens ← tokens? (← marks? text)
  match ← tokens.foldlM shift? [Group.empty] with
  | [g] => return g.close
  | _ => none

/-! ### Matching -/

/-- A place in a text: whether it is the start, and what follows. -/
structure Spot where
  atStart : Bool
  rest : List Char
  deriving DecidableEq, Repr

/-- Repeats a step as long as it makes progress, for as many rounds as given. -/
def closure (step : Spot → List Spot) : (rounds : Nat) → List Spot → List Spot
  | 0, spots => spots
  | n + 1, spots =>
    let further := spots.flatMap fun s => (step s).filter fun t => t.rest.length < s.rest.length
    if further.isEmpty then spots else (spots ++ closure step n further.eraseDups).eraseDups

/-- The places where a match that starts at the given place can end. -/
def ends : Expression → Spot → List Spot
  | nothing, s => [s]
  | one set, s =>
    match s.rest with
    | c :: rest => if set.contains c then [⟨false, rest⟩] else []
    | [] => []
  | textStart, s => if s.atStart then [s] else []
  | textEnd, s => if s.rest = [] ∨ s.rest = ['\n'] then [s] else []
  | seq a b, s => ((a.ends s).flatMap b.ends).eraseDups
  | alt a b, s => (a.ends s ++ b.ends s).eraseDups
  | star a, s => closure a.ends s.rest.length [s]

/-- All places of a text. -/
def spots (text : List Char) : List Spot :=
  ⟨true, text⟩ :: (Glob.rests text).tail.map fun rest => ⟨false, rest⟩

def foundIn (e : Expression) (text : List Char) : Bool :=
  (spots text).any fun s => !(e.ends s).isEmpty

end Expression
end VibeLens
