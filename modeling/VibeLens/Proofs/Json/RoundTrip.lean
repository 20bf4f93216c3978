import Mathlib.Data.List.Forall2
import Mathlib.Data.List.TakeWhile
import VibeLens.Json.Printer
import VibeLens.Proofs.Json.Tokens
import VibeLens.Proofs.Text.Runs

set_option autoImplicit false

/-!
What is printed is read back. The layout goes when the text is cut into tokens, and nothing else does
but the order of members: printing puts those of every object into the order of their keys, so what
comes back is the value with its members sorted at every level.
-/

namespace VibeLens.Json

open Text

/-! ### Values in canonical form -/

mutual

/-- The value with the members of all its objects in the order of their keys. -/
def canonical : Json → Json
  | arr items => arr (canonicalItems items)
  | obj members => obj (sortMembers (canonicalMembers members))
  | v => v

def canonicalItems : List Json → List Json
  | [] => []
  | v :: vs => v.canonical :: canonicalItems vs

def canonicalMembers : List (String × Json) → List (String × Json)
  | [] => []
  | (key, v) :: ms => (key, v.canonical) :: canonicalMembers ms

end

theorem canonicalItems_eq_map (items : List Json) :
    canonicalItems items = items.map canonical := by
  induction items with
  | nil => rfl
  | cons v vs ih => rw [canonicalItems, ih, List.map_cons]

theorem canonicalMembers_eq_map (members : List (String × Json)) :
    canonicalMembers members = members.map fun m => (m.1, m.2.canonical) := by
  induction members with
  | nil => rfl
  | cons m ms ih => rw [canonicalMembers, ih, List.map_cons]

theorem sortMembers_map {α β : Type} (f : α → β) (members : List (String × α)) :
    sortMembers (members.map fun m => (m.1, f m.2)) =
      (sortMembers members).map fun m => (m.1, f m.2) := by
  symm
  apply List.map_mergeSort
  intro a _ b _
  rfl

/-! ### Text cut into tokens -/

section Cut

variable {c : Char} {text rest : List Char}

theorem tokens?_gap (h : isGap c) : tokens? (c :: rest) = tokens? rest := by
  rw [tokens?, if_pos h]

theorem tokens?_gaps {gaps : List Char} (h : ∀ c ∈ gaps, isGap c) :
    tokens? (gaps ++ rest) = tokens? rest := by
  induction gaps with
  | nil => rfl
  | cons c gaps ih =>
    rw [List.cons_append, tokens?_gap (h c List.mem_cons_self)]
    exact ih fun d hd => h d (List.mem_cons_of_mem _ hd)

theorem tokens?_punctuation {t : Token} (h : punctuation? c = some t) :
    tokens? (c :: rest) = (tokens? rest).map (t :: ·) := by
  have notGap : ¬ isGap c := by
    intro gap
    simp only [isGap, Bool.or_eq_true, decide_eq_true_eq] at gap
    rcases gap with ((rfl | rfl) | rfl) | rfl
    all_goals cases h
  rw [tokens?, if_neg notGap, h]

/-- The character can only be the first of a scalar. -/
def StartsScalar (c : Char) : Prop := isGap c = false ∧ punctuation? c = none

theorem tokens?_scalar {v : Json} (start : StartsScalar c)
    (h : scalar? (c :: text) = some (v, rest)) :
    tokens? (c :: text) = (tokens? rest).map (.scalar v :: ·) := by
  rw [tokens?, if_neg (by simp [start.1]), start.2]
  dsimp only
  split
  · rename_i found
    rw [h] at found
    cases found
    rfl
  · rename_i missed
    rw [h] at missed
    cases missed

end Cut

/-- What follows does not go on with a digit. -/
def NoDigitAhead (rest : List Char) : Prop := ∀ c ∈ rest.head?, isDigit c = false

theorem noDigitAhead_cons {c : Char} (h : isDigit c = false) (rest : List Char) :
    NoDigitAhead (c :: rest) := by
  intro d head
  cases head
  exact h

theorem NoDigitAhead.append {text rest : List Char} (h : NoDigitAhead text)
    (h' : NoDigitAhead rest) : NoDigitAhead (text ++ rest) := by
  cases text with
  | nil => exact h'
  | cons c more => exact noDigitAhead_cons (h c rfl) (more ++ rest)

/-- The text stands for the tokens, whatever follows, unless that would make a numeral longer. -/
def Lexes (text : List Char) (ts : List Token) : Prop :=
  ∀ rest, NoDigitAhead rest → tokens? (text ++ rest) = (tokens? rest).map (ts ++ ·)

namespace Lexes

variable {text upper lower : List Char} {ts us : List Token}

theorem nil : Lexes [] [] := by
  intro rest _
  exact (Option.map_id_apply).symm

theorem gaps {gaps : List Char} (blank : ∀ c ∈ gaps, isGap c) (h : Lexes text ts) :
    Lexes (gaps ++ text) ts := by
  intro rest ahead
  rw [List.append_assoc, tokens?_gaps blank]
  exact h rest ahead

theorem punctuation {c : Char} {t : Token} (mark : punctuation? c = some t) (h : Lexes text ts) :
    Lexes (c :: text) (t :: ts) := by
  intro rest ahead
  rw [List.cons_append, tokens?_punctuation mark, h rest ahead, Option.map_map]
  rfl

theorem append (h : Lexes upper ts) (h' : Lexes lower us) (ahead : NoDigitAhead lower) :
    Lexes (upper ++ lower) (ts ++ us) := by
  intro rest behind
  rw [List.append_assoc, h _ (ahead.append behind), h' rest behind, Option.map_map]
  simp only [Function.comp_def, List.append_assoc]

end Lexes

theorem lexes_scalar {c : Char} {text : List Char} {v : Json} (start : StartsScalar c)
    (h : ∀ rest, NoDigitAhead rest → scalar? (c :: (text ++ rest)) = some (v, rest)) :
    Lexes (c :: text) [.scalar v] := by
  intro rest ahead
  exact tokens?_scalar start (h rest ahead)

/-! ### Strings -/

section Strings

variable {c : Char} {text rest : List Char}

theorem stringRest?_escaped (h : escape? text = some (c, rest)) :
    stringRest? ('\\' :: text) =
      (stringRest? rest).map fun (chars, more) => (c :: chars, more) := by
  rw [stringRest?]
  split
  · rename_i found
    rw [h] at found
    cases found
    rfl
  · rename_i missed
    rw [h] at missed
    cases missed

theorem hexCode?_hexDigit :
    ∀ n < 32, hexCode? ['0', '0', hexDigit (n / 16), hexDigit (n % 16)] = some n := by
  decide

theorem escape?_control (h : c.toNat < 32) :
    escape? ('u' :: '0' :: '0' :: hexDigit (c.toNat / 16) :: hexDigit (c.toNat % 16) :: rest) =
      some (c, rest) := by
  have low : ¬ (0xD800 ≤ c.toNat ∧ c.toNat < 0xDC00) := by omega
  have valid : c.toNat.isValidChar := .inl (by omega)
  simp only [escape?, hexCode?_hexDigit c.toNat h, bind, Option.bind_some, if_neg low, guard,
    if_pos valid, pure, Char.ofNat_toNat]

theorem stringRest?_escape (c : Char) (rest : List Char) :
    stringRest? (escape c ++ rest) =
      (stringRest? rest).map fun (chars, more) => (c :: chars, more) := by
  unfold escape
  split_ifs with quote backslash feed return' tab back form control
  · subst quote
    exact stringRest?_escaped rfl
  · subst backslash
    exact stringRest?_escaped rfl
  · subst feed
    exact stringRest?_escaped rfl
  · subst return'
    exact stringRest?_escaped rfl
  · subst tab
    exact stringRest?_escaped rfl
  · apply stringRest?_escaped
    rw [← Char.ofNat_toNat c, back]
    rfl
  · apply stringRest?_escaped
    rw [← Char.ofNat_toNat c, form]
    rfl
  · exact stringRest?_escaped (escape?_control control)
  · rw [List.singleton_append, stringRest?.eq_def]
    split
    · rename_i empty
      cases empty
    · rename_i same
      exact absurd (List.cons.inj same).1 quote
    · rename_i same
      exact absurd (List.cons.inj same).1 backslash
    · rename_i same
      cases same
      rw [if_neg control]

theorem stringRest?_quoted (chars rest : List Char) :
    stringRest? (chars.flatMap escape ++ '"' :: rest) = some (chars, rest) := by
  induction chars with
  | nil =>
    rw [List.flatMap_nil, List.nil_append, stringRest?]
  | cons c chars ih =>
    rw [List.flatMap_cons, List.append_assoc, stringRest?_escape, ih]
    rfl

theorem lexes_quoted (s : String) : Lexes (quoted s) [.scalar (.str s)] := by
  apply lexes_scalar ⟨rfl, rfl⟩
  intro rest _
  have read := stringRest?_quoted s.toList rest
  change scalar? ('"' :: ((s.toList.flatMap escape ++ ['"']) ++ rest)) = _
  rw [List.append_assoc, List.singleton_append, scalar?, read]
  simp only [Option.map_some, String.ofList_toList]

end Strings

/-! ### Numbers -/

section Numbers

variable {c : Char} {rest : List Char}

theorem head?_toDigits {n : Nat} (h : 0 < n) : (Nat.toDigits 10 n).head? ≠ some '0' := by
  induction n using Nat.strongRecOn with
  | ind n ih =>
    rw [Nat.toDigits_eq_if (by decide)]
    split
    · simpa using h.ne'
    · have := ih (n / 10) (by omega) (by omega)
      rw [List.head?_append]
      cases front : (Nat.toDigits 10 (n / 10)).head? with
      | none => exact absurd (List.head?_eq_none_iff.mp front) Nat.toDigits_ne_nil
      | some d =>
        rw [front] at this
        exact this

theorem numeral?_toDigits (n : Nat) (ahead : NoDigitAhead rest) :
    numeral? (Nat.toDigits 10 n ++ rest) = some (n, rest) := by
  rcases Nat.eq_zero_or_pos n with rfl | pos
  · rfl
  · have digits : ∀ c ∈ Nat.toDigits 10 n, isDigit c := fun c => isDigit_of_mem_toDigits
    rw [numeral?.eq_def]
    split
    · -- A numeral that is not zero does not start with zero.
      rename_i after same
      have := congrArg List.head? same
      rw [List.head?_append_of_ne_nil _ Nat.toDigits_ne_nil] at this
      exact absurd this (head?_toDigits pos)
    · rw [takeWhile_append_of_stop _ ahead, dropWhile_append_of_stop _ ahead,
        List.takeWhile_eq_self_iff.mpr digits, List.dropWhile_eq_nil_iff.mpr digits]
      simp [Nat.toDigits_ne_nil, decimalValue_toDigits]

theorem startsScalar_of_isDigit (h : isDigit c) : StartsScalar c := by
  constructor
  · by_contra gap
    simp only [isGap, Bool.not_eq_false, Bool.or_eq_true, decide_eq_true_eq] at gap
    rcases gap with ((rfl | rfl) | rfl) | rfl
    all_goals exact absurd h (by decide)
  · unfold punctuation?
    split
    case h_7 => rfl
    all_goals exact absurd h (by decide)

theorem scalar?_of_isDigit {text : List Char} {n : Nat} (h : isDigit c)
    (read : numeral? (c :: text) = some (n, rest)) :
    scalar? (c :: text) = some (.int n, rest) := by
  rw [scalar?.eq_def]
  split
  · rename_i same
    cases same
    exact absurd h (by decide)
  · rename_i same
    cases same
    exact absurd h (by decide)
  · rw [read, Option.map_some, Option.some_or]

theorem lexes_decimal (n : Int) : Lexes (decimal n) [.scalar (.int n)] := by
  cases n with
  | ofNat k =>
    change Lexes (Nat.toDigits 10 k) _
    cases digits : Nat.toDigits 10 k with
    | nil => exact absurd digits Nat.toDigits_ne_nil
    | cons c more =>
      have isDigit : isDigit c := isDigit_of_mem_toDigits (n := k) (digits ▸ List.mem_cons_self)
      apply lexes_scalar (startsScalar_of_isDigit isDigit)
      intro rest ahead
      apply scalar?_of_isDigit isDigit
      rw [← List.cons_append, ← digits]
      exact numeral?_toDigits k ahead
  | negSucc k =>
    apply lexes_scalar ⟨rfl, rfl⟩
    intro rest ahead
    rw [scalar?, numeral?_toDigits (k + 1) ahead]
    rfl

end Numbers

theorem lexes_null : Lexes "null".toList [.scalar .null] :=
  lexes_scalar ⟨rfl, rfl⟩ fun _ _ => rfl

theorem lexes_bool (b : Bool) :
    Lexes (if b then "true" else "false").toList [.scalar (.bool b)] := by
  cases b
  · exact lexes_scalar ⟨rfl, rfl⟩ fun _ _ => rfl
  · exact lexes_scalar ⟨rfl, rfl⟩ fun _ _ => rfl

/-! ### Containers -/

section Containers

variable {gaps text : List Char} {texts : List (List Char)} {ts : List Token}
  {tss : List (List Token)}

theorem isGap_newline (level : Nat) : ∀ c ∈ newline level, isGap c := by
  intro c mem
  rcases List.mem_cons.mp mem with rfl | space
  · rfl
  · rw [List.eq_of_mem_replicate space]
    rfl

theorem lexes_commaSeparated (blank : ∀ c ∈ gaps, isGap c) (items : List.Forall₂ Lexes texts tss) :
    Lexes (commaSeparated (',' :: gaps) texts) (separated tss) := by
  induction items with
  | nil => exact .nil
  | cons first items ih =>
    cases items with
    | nil => exact first
    | cons second items =>
      rw [commaSeparated, separated_cons_cons, List.append_assoc]
      · apply first.append (.punctuation rfl (.gaps blank ih))
        exact noDigitAhead_cons rfl _
      · exact List.cons_ne_nil _ _

theorem lexes_member (blank : ∀ c ∈ gaps, isGap c) (key : String) (h : Lexes text ts) :
    Lexes (quoted key ++ ':' :: (gaps ++ text)) (memberTokens key ts) := by
  apply (lexes_quoted key).append (.punctuation rfl (.gaps blank h))
  exact noDigitAhead_cons rfl _

theorem lexes_block {level : Nat} {opening closing : Char} {first last : Token}
    (opens : punctuation? opening = some first) (closes : punctuation? closing = some last)
    (items : List.Forall₂ Lexes texts tss) :
    Lexes (block level opening closing texts) (first :: (separated tss ++ [last])) := by
  have ends : Lexes [closing] [last] := .punctuation closes .nil
  cases items with
  | nil => exact .punctuation opens ends
  | cons item items =>
    have inside := lexes_commaSeparated (isGap_newline (level + 1)) (.cons item items)
    have whole := inside.append (ends.gaps (isGap_newline level)) (noDigitAhead_cons rfl _)
    have layout := whole.gaps (isGap_newline (level + 1))
    simpa [block] using layout.punctuation opens

theorem indentedItems_eq_map (level : Nat) (items : List Json) :
    indentedItems level items = items.map (indentedAt level) := by
  induction items with
  | nil => rfl
  | cons v vs ih => rw [indentedItems, ih, List.map_cons]

theorem indentedMembers_eq_map (level : Nat) (members : List (String × Json)) :
    indentedMembers level members = members.map fun m => (m.1, m.2.indentedAt level) := by
  induction members with
  | nil => rfl
  | cons m ms ih => rw [indentedMembers, ih, List.map_cons]

end Containers

theorem lexes_indentedAt (v : Json) (level : Nat) : Lexes (v.indentedAt level) v.canonical.tokens := by
  induction v using value_induction generalizing level with
  | null => exact lexes_null
  | bool b => exact lexes_bool b
  | int n => exact lexes_decimal n
  | str s => exact lexes_quoted s
  | arr items ih =>
    rw [indentedAt, canonical, tokens, indentedItems_eq_map, canonicalItems_eq_map,
      itemsTokens_eq_map, List.map_map]
    apply lexes_block rfl rfl
    apply List.forall₂_map_left_iff.mpr
    apply List.forall₂_map_right_iff.mpr
    apply List.forall₂_same.mpr
    intro v mem
    exact ih v mem (level + 1)
  | obj members ih =>
    rw [indentedAt, canonical, tokens, indentedMembers_eq_map, canonicalMembers_eq_map,
      membersTokens_eq_map, sortMembers_map, sortMembers_map, List.map_map, List.map_map]
    apply lexes_block rfl rfl
    apply List.forall₂_map_left_iff.mpr
    apply List.forall₂_map_right_iff.mpr
    apply List.forall₂_same.mpr
    intro m mem
    have space : ∀ c ∈ [' '], isGap c := List.forall_mem_singleton.mpr rfl
    exact lexes_member space m.1 (ih m (List.mem_mergeSort.mp mem) (level + 1))

theorem read?_of_lexes {text : List Char} {v : Json} (cut : Lexes text v.canonical.tokens) :
    read? text = some v.canonical := by
  have whole := cut [] (fun _ head => nomatch head)
  have ending : tokens? [] = some [] := by rw [tokens?]
  have rebuilt := rebuilt v.canonical [] []
  rw [List.append_nil] at whole
  rw [read?, whole, ending, Option.map_some, Option.bind_some, rebuilt]
  rfl

theorem read?_indented (v : Json) : read? (v.indented ++ ['\n']) = some v.canonical := by
  have feed : Lexes ['\n'] [] := Lexes.nil.gaps (List.forall_mem_singleton.mpr rfl)
  have cut := (lexes_indentedAt v 0).append feed (noDigitAhead_cons rfl [])
  rw [List.append_nil] at cut
  exact read?_of_lexes cut

end VibeLens.Json
