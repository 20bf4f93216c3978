import Mathlib.Data.List.Infix
import VibeLens.Toml.Document

set_option autoImplicit false

/-!
When a document is refused for too long a numeral. Each reader leaves an end of its source, so that a
numeral that one of them meets stands somewhere in the document: the refusal is justified by a run of
digits in the text itself.
-/

namespace VibeLens.Toml

open Text (isDigit)

/-- Somewhere in the text stands a run of digits, perhaps with underscores between them, that has more
digits than can be converted. -/
def HasLongNumeral (text : List Char) : Prop :=
  ∃ run, run <:+: text ∧ (∀ c ∈ run, isDigit c ∨ c = '_') ∧
    Text.numeralLimit < (run.filter isDigit).length

theorem HasLongNumeral.of_suffix {src rest : List Char} (long : HasLongNumeral rest)
    (isEnd : rest <:+ src) : HasLongNumeral src := by
  obtain ⟨run, inside, digits, many⟩ := long
  exact ⟨run, inside.trans isEnd.isInfix, digits, many⟩

theorem not_hasLongNumeral_of_length_le {text : List Char}
    (short : text.length ≤ Text.numeralLimit) : ¬ HasLongNumeral text := by
  rintro ⟨run, inside, -, many⟩
  exact absurd (many.trans_le ((List.length_filter_le _ _).trans inside.length_le)) short.not_gt

section Sound

variable {α β : Type} {left : α → List Char} {left' : β → List Char} {src rest : List Char}

/-- The outcome of a reader is justified by its source: what it leaves is an end of the source, and it
meets too long a numeral only if there is one. -/
def Sound (left : α → List Char) (src : List Char) : Except Fault α → Prop
  | .ok a => left a <:+ src
  | .error .malformed => True
  | .error .numeralTooLong => HasLongNumeral src

theorem Sound.of_suffix {result : Except Fault α} (sound : Sound left rest result)
    (isEnd : rest <:+ src) : Sound left src result := by
  match result with
  | .ok _ => exact sound.trans isEnd
  | .error .malformed => exact sound
  | .error .numeralTooLong => exact HasLongNumeral.of_suffix sound isEnd

theorem Sound.bind {first : Except Fault α} {next : α → Except Fault β}
    (sound : Sound left src first) (later : ∀ a, Sound left' (left a) (next a)) :
    Sound left' src (first >>= next) := by
  match first with
  | .ok a => exact (later a).of_suffix sound
  | .error .malformed => exact sound
  | .error .numeralTooLong => exact sound

theorem suffix_cons_of_suffix {c : Char} (isEnd : rest <:+ src) : rest <:+ c :: src :=
  isEnd.trans (List.suffix_cons c src)

end Sound

/-! ### Blanks and comments -/

theorem skipGap_suffix (src : List Char) : skipGap src <:+ src := List.dropWhile_suffix _

theorem sound_skipComment (src : List Char) : Sound id src (skipComment src) := by
  unfold skipComment
  split
  · simp only
    split
    · trivial
    · exact suffix_cons_of_suffix (List.dropWhile_suffix _)
  · exact List.suffix_rfl

theorem sound_skipFiller (src : List Char) : Sound id src (skipFiller src) := by
  fun_induction skipFiller src with
  | case1 src rest found bad => trivial
  | case2 src rest found _ ih =>
    have inner : '#' :: rest <:+ src := found ▸ List.dropWhile_suffix _
    exact ih.of_suffix ((suffix_cons_of_suffix (List.dropWhile_suffix _)).trans inner)
  | case3 src found => exact List.dropWhile_suffix _

/-! ### Strings -/

theorem escape?_suffix {src rest : List Char} {c : Char} (read : escape? src = some (c, rest)) :
    rest <:+ src := by
  unfold escape? at read
  split at read
  · obtain ⟨_, _, same⟩ := Option.map_eq_some_iff.mp read
    cases same
    exact ⟨['u', _, _, _, _], rfl⟩
  · obtain ⟨_, _, same⟩ := Option.map_eq_some_iff.mp read
    cases same
    exact ⟨['U', _, _, _, _, _, _, _, _], rfl⟩
  · obtain ⟨_, _, same⟩ := Option.map_eq_some_iff.mp read
    cases same
    exact List.suffix_cons _ _
  · cases read

theorem joinLines?_suffix {src rest : List Char} (read : joinLines? src = some rest) :
    rest <:+ src := by
  unfold joinLines? at read
  split at read
  · split at read
    · cases read
      exact List.nil_suffix
    · rename_i more found
      cases read
      have inner : '\n' :: more <:+ src := found ▸ skipGap_suffix src
      exact (suffix_cons_of_suffix (List.dropWhile_suffix _)).trans inner
    · cases read
  · cases read

theorem sound_basicFrom (taken src : List Char) : Sound Prod.snd src (basicFrom taken src) := by
  fun_induction basicFrom taken src with
  | case1 => trivial
  | case2 taken rest => exact List.suffix_cons _ _
  | case3 taken rest c after found ih =>
    exact ih.of_suffix (suffix_cons_of_suffix (escape?_suffix found))
  | case4 => trivial
  | case5 => trivial
  | case6 taken c rest _ _ _ ih => exact ih.of_suffix (List.suffix_cons _ _)

theorem sound_basicBlockFrom (taken src : List Char) :
    Sound Prod.snd src (basicBlockFrom taken src) := by
  fun_induction basicBlockFrom taken src with
  | case1 => trivial
  | case2 taken rest => exact ⟨['"', '"', '"'], rfl⟩
  | case3 taken rest after found ih =>
    exact ih.of_suffix (suffix_cons_of_suffix (joinLines?_suffix found))
  | case4 => trivial
  | case5 taken rest _ _ c after found ih =>
    exact ih.of_suffix (suffix_cons_of_suffix (escape?_suffix found))
  | case6 => trivial
  | case7 => trivial
  | case8 taken c rest _ _ _ ih => exact ih.of_suffix (List.suffix_cons _ _)

theorem sound_literal (src : List Char) : Sound Prod.snd src (literal src) := by
  unfold literal
  simp only
  split
  · rename_i rest found
    have inner := found ▸ List.dropWhile_suffix (l := src) (fun c => decide (c ≠ '\''))
    split
    · trivial
    · exact (List.suffix_cons _ _).trans inner
  · trivial

theorem sound_literalBlockFrom (taken src : List Char) :
    Sound Prod.snd src (literalBlockFrom taken src) := by
  fun_induction literalBlockFrom taken src with
  | case1 => trivial
  | case2 taken rest => exact ⟨['\'', '\'', '\''], rfl⟩
  | case3 => trivial
  | case4 taken c rest _ _ ih => exact ih.of_suffix (List.suffix_cons _ _)

theorem extraQuotes_suffix (quote : Char) (body src : List Char) :
    (extraQuotes quote body src).2 <:+ src := by
  unfold extraQuotes
  split
  · split
    · split
      · exact ⟨[_, _], rfl⟩
      · exact List.suffix_cons _ _
    · exact List.suffix_rfl
  · split
    · exact List.nil_suffix
    · exact List.suffix_rfl
  · exact List.suffix_rfl

theorem dropFirstBreak_suffix (src : List Char) : dropFirstBreak src <:+ src := by
  unfold dropFirstBreak
  split
  · exact List.suffix_cons _ _
  · exact List.suffix_rfl

theorem sound_block {src : List Char} (quote : Char) {read : Reader (List Char)}
    (sound : ∀ src, Sound Prod.snd src (read src)) :
    Sound Prod.snd src (do
      let (body, rest) ← read (dropFirstBreak src)
      return extraQuotes quote body rest) := by
  apply ((sound _).of_suffix (dropFirstBreak_suffix src)).bind
  rintro ⟨body, rest⟩
  exact extraQuotes_suffix quote body rest

theorem sound_string? {src : List Char} {result : Except Fault (List Char × List Char)}
    (found : string? src = some result) : Sound Prod.snd src result := by
  unfold string? at found
  split at found
  · rename_i rest
    cases found
    exact (sound_block '"' (sound_basicBlockFrom [])).of_suffix ⟨['"', '"', '"'], rfl⟩
  · cases found
    exact (sound_basicFrom [] _).of_suffix (List.suffix_cons _ _)
  · rename_i rest _
    cases found
    exact (sound_block '\'' (sound_literalBlockFrom [])).of_suffix ⟨['\'', '\'', '\''], rfl⟩
  · cases found
    exact (sound_literal _).of_suffix (List.suffix_cons _ _)
  · cases found

/-! ### Keys -/

theorem sound_keyPart (src : List Char) : Sound Prod.snd src (keyPart src) := by
  unfold keyPart
  split
  · exact ((sound_literal _).of_suffix (List.suffix_cons _ _)).bind fun _ => List.suffix_rfl
  · exact ((sound_basicFrom [] _).of_suffix (List.suffix_cons _ _)).bind fun _ => List.suffix_rfl
  · simp only
    split
    · trivial
    · exact List.dropWhile_suffix _

theorem sound_keyFrom (fuel : Nat) (src : List Char) : Sound Prod.snd src (keyFrom fuel src) := by
  induction fuel generalizing src with
  | zero => trivial
  | succ fuel ih =>
    rw [keyFrom]
    apply (sound_keyPart src).bind
    rintro ⟨part, rest⟩
    refine Sound.of_suffix ?_ (skipGap_suffix rest)
    simp only
    split
    · rename_i more found
      rw [found]
      apply ((ih _).of_suffix (suffix_cons_of_suffix (skipGap_suffix more))).bind
      exact fun _ => List.suffix_rfl
    · exact List.suffix_rfl

theorem sound_key (src : List Char) : Sound Prod.snd src (key src) := sound_keyFrom _ src

/-! ### Dates and times -/

section Moments

variable {src rest : List Char}

theorem exists_of_twoDigits? {low high n : Nat} (read : twoDigits? low high src = some (n, rest)) :
    ∃ a b, src = a :: b :: rest := by
  unfold twoDigits? at read
  split at read
  · simp only [Option.ite_none_right_eq_some, Option.some.injEq, Prod.mk.injEq] at read
    obtain ⟨-, -, -, rfl⟩ := read
    exact ⟨_, _, rfl⟩
  · cases read

theorem twoDigits?_suffix {low high n : Nat} (read : twoDigits? low high src = some (n, rest)) :
    rest <:+ src := by
  obtain ⟨a, b, rfl⟩ := exists_of_twoDigits? read
  exact ⟨[a, b], rfl⟩

theorem after?_suffix {c : Char} (read : after? c src = some rest) : rest <:+ src := by
  unfold after? at read
  split at read
  · simp only [Option.ite_none_right_eq_some, Option.some.injEq] at read
    obtain ⟨-, rfl⟩ := read
    exact List.suffix_cons _ _
  · cases read

theorem timeRest?_suffix (read : timeRest? src = some rest) : rest <:+ src := by
  simp only [timeRest?, bind, Option.bind_eq_some_iff, Prod.exists] at read
  obtain ⟨_, hours, h₁, colon, h₂, _, minutes, h₃, colon', h₄, _, seconds, h₅, last⟩ := read
  have inner : seconds <:+ src :=
    (twoDigits?_suffix h₅).trans <| (after?_suffix h₄).trans <| (twoDigits?_suffix h₃).trans <|
      (after?_suffix h₂).trans (twoDigits?_suffix h₁)
  refine List.IsSuffix.trans ?_ inner
  cases last
  split
  · split
    · exact (List.dropWhile_suffix _).trans ⟨['.', _], rfl⟩
    · exact List.suffix_rfl
  · exact List.suffix_rfl

theorem getD_suffix {read : Option (List Char)} (inside : ∀ rest, read = some rest → rest <:+ src) :
    read.getD src <:+ src := by
  cases read with
  | none => exact List.suffix_rfl
  | some rest => exact inside rest rfl

theorem offsetRest_suffix (src : List Char) : offsetRest src <:+ src := by
  unfold offsetRest
  split
  · exact List.suffix_cons _ _
  · exact List.suffix_cons _ _
  · split
    · apply getD_suffix
      intro rest read
      simp only [bind, Option.bind_eq_some_iff, Prod.exists] at read
      obtain ⟨_, _, hours, _, colon, _, _, minutes, last⟩ := read
      cases last
      exact suffix_cons_of_suffix <| (twoDigits?_suffix minutes).trans <|
        (after?_suffix colon).trans (twoDigits?_suffix hours)
    · exact List.suffix_rfl
  · exact List.suffix_rfl

theorem date?_suffix {real : Bool} (read : date? src = some (real, rest)) : rest <:+ src := by
  obtain ⟨_, -, read⟩ := Option.bind_eq_some_iff.mp read
  simp only [bind, Option.bind_eq_some_iff, Prod.exists] at read
  obtain ⟨_, dash, _, _, month, _, dash', _, afterDay, day, last⟩ := read
  have inner : afterDay <:+ src :=
    (twoDigits?_suffix day).trans <| (after?_suffix dash').trans <|
      (twoDigits?_suffix month).trans <| (after?_suffix dash).trans (List.drop_suffix 4 src)
  refine List.IsSuffix.trans ?_ inner
  cases last
  split
  · split
    · apply getD_suffix
      intro left found
      obtain ⟨time, read, rfl⟩ := Option.map_eq_some_iff.mp found
      exact suffix_cons_of_suffix ((offsetRest_suffix time).trans (timeRest?_suffix read))
    · exact List.suffix_rfl
  · exact List.suffix_rfl

end Moments

/-! ### Numbers -/

section Numbers

variable {p : Char → Bool} {src rest digits : List Char}

theorem exists_run_of_moreDigits (mark : p '_' = false) (read : moreDigits p src = (digits, rest)) :
    ∃ run, src = run ++ rest ∧ run.filter p = digits ∧ ∀ c ∈ run, p c ∨ c = '_' := by
  fun_induction moreDigits p src generalizing digits with
  | case1 c more isDigit ds r found ih =>
    cases read
    obtain ⟨run, rfl, rfl, inside⟩ := ih found
    exact ⟨'_' :: c :: run, rfl, by simp [mark, isDigit], by simpa [isDigit] using inside⟩
  | case2 c more _ =>
    cases read
    exact ⟨[], rfl, rfl, nofun⟩
  | case3 c more _ isDigit ds r found ih =>
    cases read
    obtain ⟨run, rfl, rfl, inside⟩ := ih found
    exact ⟨c :: run, rfl, by simp [isDigit], by simpa [isDigit] using inside⟩
  | case4 c more _ _ =>
    cases read
    exact ⟨[], rfl, rfl, nofun⟩
  | case5 =>
    cases read
    exact ⟨[], rfl, rfl, nofun⟩

theorem exists_run_of_digits? (mark : p '_' = false) (read : digits? p src = some (digits, rest)) :
    ∃ run, src = run ++ rest ∧ run.filter p = digits ∧ ∀ c ∈ run, p c ∨ c = '_' := by
  unfold digits? at read
  split at read
  · rename_i c more
    simp only [Option.ite_none_right_eq_some, Option.some.injEq, Prod.mk.injEq] at read
    obtain ⟨isDigit, rfl, rfl⟩ := read
    have later : moreDigits p more = ((moreDigits p more).1, (moreDigits p more).2) := rfl
    obtain ⟨run, whole, same, inside⟩ := exists_run_of_moreDigits mark later
    exact ⟨c :: run, congrArg _ whole, by simp [isDigit, same], by simpa [isDigit] using inside⟩
  · cases read

theorem digits?_suffix (mark : p '_' = false) (read : digits? p src = some (digits, rest)) :
    rest <:+ src := by
  obtain ⟨run, rfl, -⟩ := exists_run_of_digits? mark read
  exact List.suffix_append run rest

theorem exists_run_of_whole? (read : whole? src = some (digits, rest)) :
    ∃ run, src = run ++ rest ∧ run.filter isDigit = digits ∧ ∀ c ∈ run, isDigit c ∨ c = '_' := by
  unfold whole? at read
  split at read
  · cases read
    exact ⟨['0'], rfl, rfl, List.forall_mem_singleton.mpr (.inl rfl)⟩
  · exact exists_run_of_digits? rfl read

theorem based?_suffix {d : Datum} (read : based? src = some (d, rest)) : rest <:+ src := by
  unfold based? at read
  split at read
  · simp only [bind, Option.bind_eq_some_iff, Prod.exists] at read
    obtain ⟨base, _, ds, more, found, last⟩ := read
    cases last
    exact (digits?_suffix rfl found).trans ⟨['0', _], rfl⟩
  · cases read

theorem sign_suffix (src : List Char) : (Numeral.sign src).2 <:+ src := by
  unfold Numeral.sign
  split
  · exact List.suffix_cons _ _
  · exact List.suffix_cons _ _
  · exact List.suffix_rfl

theorem places_suffix (src : List Char) : (places src).2 <:+ src := by
  unfold places
  split
  · split
    · rename_i found
      exact suffix_cons_of_suffix (digits?_suffix rfl found)
    · exact List.suffix_rfl
  · exact List.suffix_rfl

theorem power_suffix (src : List Char) : (power src).2 <:+ src := by
  unfold power
  split
  · rename_i c more
    split
    · split
      rename_i mark after marked
      have afterMark : after <:+ more := by
        split at marked
        · cases marked
          exact List.suffix_cons _ _
        · cases marked
          exact List.suffix_cons _ _
        · cases marked
          exact List.suffix_rfl
      split
      · rename_i read
        exact suffix_cons_of_suffix ((digits?_suffix rfl read).trans afterMark)
      · exact List.suffix_rfl
    · exact List.suffix_rfl
  · exact List.suffix_rfl

theorem sound_decimal? {result : Except Fault (Datum × List Char)}
    (found : decimal? src = some result) : Sound Prod.snd src result := by
  unfold decimal? at found
  simp only [bind, Option.bind_eq_some_iff, Prod.exists] at found
  obtain ⟨digits, rest, read, last⟩ := found
  obtain ⟨run, whole, same, inside⟩ := exists_run_of_whole? read
  have runInside : run ++ rest <:+ src := whole ▸ sign_suffix src
  have inner : (power (places rest).2).2 <:+ src :=
    (power_suffix _).trans <| (places_suffix rest).trans <|
      (List.suffix_append run rest).trans runInside
  split at last
  · split at last
    · rename_i many
      cases last
      exact ⟨run, (List.prefix_append run rest).isInfix.trans runInside.isInfix, inside, same ▸ many⟩
    · cases last
      exact inner
  · obtain ⟨d, -, last⟩ := Option.bind_eq_some_iff.mp last
    cases last
    exact inner

theorem special?_suffix {d : Datum} (read : special? src = some (d, rest)) : rest <:+ src := by
  unfold special? at read
  obtain ⟨_, -, same⟩ := Option.map_eq_some_iff.mp read
  cases same
  exact (List.drop_suffix 3 _).trans (sign_suffix src)

end Numbers

theorem sound_scalar (src : List Char) : Sound Prod.snd src (scalar src) := by
  unfold scalar
  split
  · rename_i result found
    have sound := sound_string? found
    match result with
    | .ok _ => exact sound
    | .error .malformed => trivial
    | .error .numeralTooLong => exact sound
  · split
    · exact List.drop_suffix 4 src
    split
    · exact List.drop_suffix 5 src
    split
    · rename_i read
      split
      · exact date?_suffix read
      · trivial
    split
    · rename_i read
      exact timeRest?_suffix read
    split
    · rename_i read
      exact based?_suffix read
    split
    · rename_i read
      exact sound_decimal? read
    split
    · rename_i read
      exact special?_suffix read
    · trivial

/-! ### Values and statements -/

mutual

theorem sound_value : ∀ (fuel : Nat) (src : List Char), Sound Prod.snd src (value fuel src)
  | 0, _ => trivial
  | fuel + 1, src => by
    unfold value
    split
    · trivial
    · rename_i rest same
      cases same
      apply ((sound_skipFiller rest).of_suffix (List.suffix_cons _ _)).bind
      intro rest
      split
      · exact List.suffix_cons _ _
      · exact (sound_arrayItems fuel rest).bind fun _ => List.suffix_rfl
    · rename_i rest same
      cases same
      refine Sound.of_suffix ?_ (suffix_cons_of_suffix (skipGap_suffix rest))
      split
      · rename_i found
        rw [found]
        exact List.suffix_cons _ _
      · exact (sound_inlineMembers fuel _ _ _).bind fun _ => List.suffix_rfl
    · exact sound_scalar _

theorem sound_arrayItems : ∀ (fuel : Nat) (src : List Char), Sound Prod.snd src (arrayItems fuel src)
  | 0, _ => trivial
  | fuel + 1, src => by
    rw [arrayItems]
    apply (sound_value fuel src).bind
    rintro ⟨item, rest⟩
    apply (sound_skipFiller rest).bind
    intro rest
    simp only
    split
    · exact List.suffix_cons _ _
    · rename_i rest
      apply ((sound_skipFiller rest).of_suffix (List.suffix_cons _ _)).bind
      intro rest
      split
      · exact List.suffix_cons _ _
      · exact (sound_arrayItems fuel rest).bind fun _ => List.suffix_rfl
    · trivial

theorem sound_inlineMembers : ∀ (fuel : Nat) (marks : Marks) (members : Members) (src : List Char),
    Sound Prod.snd src (inlineMembers fuel marks members src)
  | 0, _, _, _ => trivial
  | fuel + 1, marks, members, src => by
    rw [inlineMembers]
    apply (sound_key src).bind
    rintro ⟨path, rest⟩
    simp only
    split
    · rename_i rest
      apply ((sound_value fuel _).of_suffix (suffix_cons_of_suffix (skipGap_suffix rest))).bind
      rintro ⟨item, rest⟩
      simp only
      split
      · trivial
      split
      · trivial
      refine Sound.of_suffix ?_ (skipGap_suffix rest)
      split
      · rename_i found
        rw [found]
        exact List.suffix_cons _ _
      · rename_i more found
        rw [found]
        exact (sound_inlineMembers fuel _ _ _).of_suffix (suffix_cons_of_suffix (skipGap_suffix more))
      · trivial
    · trivial

end

theorem sound_keyValue (s : State) (path : List String) (item : Datum) (src : List Char) :
    Sound (fun _ => src) src (s.keyValue path item) := by
  unfold State.keyValue
  simp only
  split
  · trivial
  split
  · trivial
  split
  · trivial
  · exact List.suffix_rfl

theorem sound_openTable (s : State) (path : List String) (src : List Char) :
    Sound (fun _ => src) src (s.openTable path) := by
  unfold State.openTable
  simp only
  split
  · trivial
  split
  · trivial
  · exact List.suffix_rfl

theorem sound_openItem (s : State) (path : List String) (src : List Char) :
    Sound (fun _ => src) src (s.openItem path) := by
  unfold State.openItem
  simp only
  split
  · trivial
  split
  · trivial
  · exact List.suffix_rfl

theorem sound_statement (s : State) (src : List Char) : Sound Prod.snd src (statement s src) := by
  unfold statement
  split
  · rename_i rest
    refine Sound.of_suffix ?_ ⟨['[', '['], rfl⟩
    apply ((sound_key _).of_suffix (skipGap_suffix rest)).bind
    rintro ⟨path, rest⟩
    apply (sound_openItem _ path rest).bind
    intro s
    split
    · exact ⟨[']', ']'], rfl⟩
    · trivial
  · rename_i rest _
    refine Sound.of_suffix ?_ (List.suffix_cons '[' rest)
    apply ((sound_key _).of_suffix (skipGap_suffix rest)).bind
    rintro ⟨path, rest⟩
    apply (sound_openTable _ path rest).bind
    intro s
    split
    · exact List.suffix_cons _ _
    · trivial
  · split
    · apply (sound_key _).bind
      rintro ⟨path, rest⟩
      simp only
      split
      · rename_i rest
        apply ((sound_value _ _).of_suffix (suffix_cons_of_suffix (skipGap_suffix rest))).bind
        rintro ⟨item, rest⟩
        exact (sound_keyValue s path item rest).bind fun _ => List.suffix_rfl
      · trivial
    split
    · exact List.suffix_rfl
    · trivial
  · exact List.suffix_rfl

theorem sound_statements (fuel : Nat) (s : State) (src : List Char) :
    Sound (fun _ => []) src (statements fuel s src) := by
  induction fuel generalizing s src with
  | zero => trivial
  | succ fuel ih =>
    rw [statements]
    refine Sound.of_suffix ?_ (skipGap_suffix src)
    split
    · exact List.nil_suffix
    · rename_i rest found
      rw [found]
      exact (ih s rest).of_suffix (List.suffix_cons _ _)
    · apply (sound_statement s _).bind
      rintro ⟨s, rest⟩
      apply ((sound_skipComment _).of_suffix (skipGap_suffix rest)).bind
      intro rest
      split
      · exact List.nil_suffix
      · exact (ih s _).of_suffix (List.suffix_cons _ _)
      · trivial

/-! ### Documents -/

section JoinBreaks

variable {run text : List Char}

theorem prefix_of_prefix_joinBreaks (front : run <+: joinBreaks text) (unbroken : '\n' ∉ run) :
    run <+: text := by
  fun_induction joinBreaks text generalizing run with
  | case1 rest ih =>
    cases run with
    | nil => exact List.nil_prefix
    | cons c run =>
      obtain ⟨rfl, -⟩ := List.cons_prefix_cons.mp front
      exact absurd List.mem_cons_self unbroken
  | case2 c rest _ ih =>
    cases run with
    | nil => exact List.nil_prefix
    | cons d run =>
      obtain ⟨rfl, later⟩ := List.cons_prefix_cons.mp front
      exact List.cons_prefix_cons.mpr ⟨rfl, ih later (List.not_mem_of_not_mem_cons unbroken)⟩
  | case3 => exact front

theorem infix_of_infix_joinBreaks (inside : run <:+: joinBreaks text) (unbroken : '\n' ∉ run) :
    run <:+: text := by
  induction text using joinBreaks.induct with
  | case1 rest ih =>
    rcases List.infix_cons_iff.mp inside with front | later
    · have whole : run <+: joinBreaks ('\r' :: '\n' :: rest) := front
      exact (prefix_of_prefix_joinBreaks whole unbroken).isInfix
    · exact (ih later).trans (List.suffix_append ['\r', '\n'] rest).isInfix
  | case2 c rest notBreak ih =>
    have split : joinBreaks (c :: rest) = c :: joinBreaks rest := joinBreaks.eq_2 c rest notBreak
    rcases List.infix_cons_iff.mp (split ▸ inside) with front | later
    · exact (prefix_of_prefix_joinBreaks (split.symm ▸ front) unbroken).isInfix
    · exact (ih later).trans (List.suffix_cons c rest).isInfix
  | case3 => exact inside

end JoinBreaks

theorem hasLongNumeral_of_parse {text : List Char} (refused : parse text = .error .numeralTooLong) :
    HasLongNumeral text := by
  have sound : Sound (fun _ => []) (joinBreaks text) (parse text) :=
    (sound_statements _ .start (joinBreaks text)).bind fun _ => List.suffix_rfl
  rw [refused] at sound
  obtain ⟨run, inside, digits, many⟩ := sound
  refine ⟨run, infix_of_infix_joinBreaks inside ?_, digits, many⟩
  intro broken
  exact absurd (digits _ broken) (by decide)

/-! ### Integers that are refused -/

section Refused

variable {digits : List Char}

theorem moreDigits_of_forall (all : ∀ c ∈ digits, isDigit c) :
    moreDigits isDigit digits = (digits, []) := by
  induction digits with
  | nil => rfl
  | cons c rest ih =>
    obtain ⟨first, later⟩ := List.forall_mem_cons.mp all
    have notMark : c ≠ '_' := by
      rintro rfl
      cases first
    rw [moreDigits.eq_2 _ _ _ fun _ _ same => absurd same notMark, if_pos first, ih later]

theorem decimal?_of_long (all : ∀ c ∈ digits, isDigit c) (long : Text.numeralLimit ≤ digits.length) :
    decimal? ('1' :: digits) = some (.error .numeralTooLong) := by
  have unsigned : Numeral.sign ('1' :: digits) = (.plus, '1' :: digits) := rfl
  have read : whole? ('1' :: digits) = some ('1' :: digits, []) := by
    rw [whole?, digits?, moreDigits_of_forall all]
    · rfl
    · rintro rest ⟨⟩
  have many : ('1' :: digits).length > Text.numeralLimit := Nat.lt_succ_of_le long
  simp only [decimal?, unsigned, read, bind, Option.bind_some]
  exact if_pos many

theorem date?_eq_none {a b c d : Char} {rest : List Char} (notDash : d ≠ '-') :
    date? ('1' :: a :: b :: c :: d :: rest) = none := by
  have stuck : after? '-' (d :: rest) = none := if_neg notDash
  apply Option.bind_eq_none_iff.mpr
  intro _ _
  change (after? '-' (d :: rest)).bind _ = none
  rw [stuck, Option.bind_none]

theorem timeRest?_eq_none {a b : Char} {rest : List Char} (notColon : b ≠ ':') :
    timeRest? ('1' :: a :: b :: rest) = none := by
  simp only [timeRest?, bind, Option.bind_eq_none_iff, Prod.forall]
  intro n after read
  obtain ⟨_, _, same⟩ := exists_of_twoDigits? read
  cases same
  simp [after?, notColon]

theorem scalar_of_long (all : ∀ c ∈ digits, isDigit c) (long : Text.numeralLimit ≤ digits.length) :
    scalar ('1' :: digits) = .error .numeralTooLong := by
  have isDecimal := decimal?_of_long all long
  obtain ⟨a, b, c, d, rest, rfl⟩ : ∃ a b c d rest, digits = a :: b :: c :: d :: rest := by
    match digits, long with
    | a :: b :: c :: d :: rest, _ => exact ⟨a, b, c, d, rest, rfl⟩
  have notDash : d ≠ '-' := by
    rintro rfl
    exact absurd (all '-' (by simp)) (by decide)
  have notColon : b ≠ ':' := by
    rintro rfl
    exact absurd (all ':' (by simp)) (by decide)
  simp only [scalar, date?_eq_none notDash, timeRest?_eq_none notColon, isDecimal]
  rfl

theorem joinBreaks_of_notMem {text : List Char} (noReturn : '\r' ∉ text) :
    joinBreaks text = text := by
  fun_induction joinBreaks text with
  | case1 rest ih => exact absurd List.mem_cons_self noReturn
  | case2 c rest _ ih => rw [ih (List.not_mem_of_not_mem_cons noReturn)]
  | case3 => rfl

theorem parse_of_long (all : ∀ c ∈ digits, isDigit c) (long : Text.numeralLimit ≤ digits.length) :
    parse ('x' :: '=' :: '1' :: digits) = .error .numeralTooLong := by
  have unbroken : joinBreaks ('x' :: '=' :: '1' :: digits) = 'x' :: '=' :: '1' :: digits := by
    apply joinBreaks_of_notMem
    simp only [List.mem_cons, not_or]
    refine ⟨by decide, by decide, by decide, fun member => ?_⟩
    exact absurd (all _ member) (by decide)
  have item : value (2 * ('x' :: '=' :: '1' :: digits).length) (skipGap ('1' :: digits)) =
      .error .numeralTooLong := scalar_of_long all long
  have read : statement .start ('x' :: '=' :: '1' :: digits) = .error .numeralTooLong := by
    change (value (2 * ('x' :: '=' :: '1' :: digits).length) (skipGap ('1' :: digits)) >>= _) = _
    rw [item]
    rfl
  have first : statements (('x' :: '=' :: '1' :: digits).length + 1) .start
      ('x' :: '=' :: '1' :: digits) = .error .numeralTooLong := by
    change (statement .start ('x' :: '=' :: '1' :: digits) >>= _) = _
    rw [read]
    rfl
  rw [parse, unbroken, first]
  rfl

end Refused

end VibeLens.Toml
