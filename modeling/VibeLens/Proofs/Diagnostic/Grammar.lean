import VibeLens.Proofs.Diagnostic.Messages
import VibeLens.Proofs.Text.Runs

set_option autoImplicit false

/-!
The grammar of the places in a trimmed line, and that it is read exactly. A place in brackets wins
over one in prose wherever the two stand, and of places of one form the leftmost wins. What a place
looks like is said here without a reader: by the text at a position and how it is put together.
-/

namespace VibeLens.Diagnostic

open Text

variable {α : Type} {text line row column digits rest : List Char}

/-! ### The grammar -/

inductive Bracketed (row column rest : List Char) : List Char → Prop
  | mk : IsNumeral row → IsNumeral column →
      Bracketed row column rest ('[' :: (row ++ ':' :: (column ++ ']' :: rest)))

inductive Prose (row : List Char) : List Char → Prop
  | mk {word blanks rest : List Char} : List.Forall₂ (· ∈ ·) word lineWord →
      blanks ≠ [] → (∀ c ∈ blanks, isBlank c) → IsNumeral row →
      (∀ c ∈ rest.head?, isDigit c = false) → Prose row (word ++ (blanks ++ (row ++ rest)))

def StartsBracketed (text : List Char) : Prop := ∃ row column rest, Bracketed row column rest text

def StartsProse (text : List Char) : Prop := ∃ row, Prose row text

/-- The diagnostic that a line stands for. -/
inductive Placed (line : List Char) : Diagnostic → Prop
  | bracketed {i : Nat} {row column rest : List Char} :
      Bracketed row column rest (line.drop i) → (∀ j < i, ¬ StartsBracketed (line.drop j)) →
      Placed line ⟨zeroBased row, zeroBased column,
        String.ofList (if trim rest = [] then line else trim rest)⟩
  | prose {i : Nat} {row : List Char} : (∀ j, ¬ StartsBracketed (line.drop j)) →
      Prose row (line.drop i) → (∀ j < i, ¬ StartsProse (line.drop j)) →
      Placed line ⟨zeroBased row, 0, String.ofList line⟩
  | nowhere : (∀ j, ¬ StartsBracketed (line.drop j)) → (∀ j, ¬ StartsProse (line.drop j)) →
      Placed line ⟨0, 0, String.ofList line⟩

/-! ### Readers are exact -/

theorem digits?_eq_some_iff : digits? text = some (digits, rest) ↔
    text = digits ++ rest ∧ IsNumeral digits ∧ ∀ c ∈ rest.head?, isDigit c = false := by
  constructor
  · intro h
    obtain ⟨split, isNumeral⟩ := eq_append_of_digits? h
    refine ⟨split, isNumeral, ?_⟩
    intro c head
    simp only [digits?] at h
    split at h
    · cases h
    · cases h
      exact stop_dropWhile text c head
  · rintro ⟨rfl, isNumeral, stop⟩
    rw [digits?, takeWhile_append_of_stop _ stop, dropWhile_append_of_stop _ stop,
      List.takeWhile_eq_self_iff.mpr isNumeral.digits,
      List.dropWhile_eq_nil_iff.mpr isNumeral.digits]
    simp [isNumeral.ne_nil]

theorem bracketed?_eq_some_iff :
    bracketed? text = some (row, column, rest) ↔ Bracketed row column rest text := by
  constructor
  · intro h
    obtain ⟨rfl, isRow, isColumn⟩ := eq_of_bracketed? h
    exact .mk isRow isColumn
  · rintro ⟨isRow, isColumn⟩
    have first : digits? (row ++ ':' :: (column ++ ']' :: rest)) =
        some (row, ':' :: (column ++ ']' :: rest)) :=
      digits?_eq_some_iff.mpr ⟨rfl, isRow, by simp; decide⟩
    have second : digits? (column ++ ']' :: rest) = some (column, ']' :: rest) :=
      digits?_eq_some_iff.mpr ⟨rfl, isColumn, by simp; decide⟩
    simp [bracketed?, after?, first, second]

theorem bracketed?_eq_none_iff : bracketed? text = none ↔ ¬ StartsBracketed text := by
  simp only [Option.eq_none_iff_forall_ne_some, StartsBracketed, not_exists, Prod.forall, ne_eq,
    bracketed?_eq_some_iff]

theorem spelled?_eq_some_iff {sets : List (List Char)} :
    spelled? sets text = some rest ↔
      ∃ word, List.Forall₂ (· ∈ ·) word sets ∧ text = word ++ rest := by
  fun_induction spelled? sets text with
  | case1 text => simp [eq_comm]
  | case2 letters more c text known ih =>
    rw [ih]
    constructor
    · rintro ⟨word, spells, rfl⟩
      exact ⟨c :: word, .cons (List.contains_iff_mem.mp known) spells, rfl⟩
    · rintro ⟨word, spells, split⟩
      cases spells with
      | cons _ spells =>
        cases split
        exact ⟨_, spells, rfl⟩
  | case3 letters more c text unknown =>
    refine iff_of_false (Option.some_ne_none rest).symm ?_
    rintro ⟨word, spells, split⟩
    cases spells with
    | cons known _ =>
      cases split
      exact unknown (List.contains_iff_mem.mpr known)
  | case4 letters more =>
    refine iff_of_false (Option.some_ne_none rest).symm ?_
    rintro ⟨word, spells, split⟩
    cases spells with
    | cons _ _ => cases split

theorem isBlank_eq_false_of_isDigit {c : Char} (h : isDigit c) : isBlank c = false := by
  have apart : ∀ n < 58, 48 ≤ n → inRanges blankRanges n = false := by decide
  simp only [isDigit, Bool.and_eq_true, decide_eq_true_eq, Char.le_def, UInt32.le_iff_toNat_le] at h
  exact apart c.toNat (Nat.lt_succ_of_le h.2) h.1

theorem isBlank_head?_of_isNumeral (h : IsNumeral row) (rest : List Char) :
    ∀ c ∈ (row ++ rest).head?, isBlank c = false := by
  intro c head
  rw [List.head?_append_of_ne_nil _ h.ne_nil] at head
  exact isBlank_eq_false_of_isDigit (h.digits c (List.mem_of_mem_head? head))

theorem prose?_eq_some_iff : prose? text = some row ↔ Prose row text := by
  constructor
  · intro h
    simp only [prose?, bind, Option.bind_eq_some_iff, pure] at h
    obtain ⟨behind, spelled, _, blankAhead, ⟨digits, rest⟩, number, found⟩ := h
    cases found
    obtain ⟨word, spells, rfl⟩ := spelled?_eq_some_iff.mp spelled
    obtain ⟨split, isNumeral, stop⟩ := digits?_eq_some_iff.mp number
    have blanks : behind = behind.takeWhile isBlank ++ (digits ++ rest) := by
      rw [← split]
      exact List.takeWhile_append_dropWhile.symm
    rw [blanks]
    refine .mk spells ?_ (fun c hc => List.mem_takeWhile_imp hc) isNumeral stop
    cases behind with
    | nil => simp [guard] at blankAhead
    | cons c behind =>
      have blank : isBlank c := by
        by_contra ink
        simp [guard, ink] at blankAhead
      rw [List.takeWhile_cons_of_pos blank]
      exact List.cons_ne_nil _ _
  · rintro @⟨word, blanks, rest, spells, some_blank, blank, isNumeral, stop⟩
    have spelled : spelled? lineWord (word ++ (blanks ++ (row ++ rest))) =
        some (blanks ++ (row ++ rest)) := spelled?_eq_some_iff.mpr ⟨word, spells, rfl⟩
    have skipped : skipBlanks (blanks ++ (row ++ rest)) = row ++ rest := by
      rw [skipBlanks, trimStartBy,
        dropWhile_append_of_stop blanks (isBlank_head?_of_isNumeral isNumeral rest),
        List.dropWhile_eq_nil_iff.mpr blank, List.nil_append]
    have number := digits?_eq_some_iff.mpr ⟨rfl, isNumeral, stop⟩
    have blankAhead : (blanks ++ (row ++ rest)).head?.any isBlank := by
      cases blanks with
      | nil => exact absurd rfl some_blank
      | cons c blanks => exact blank c List.mem_cons_self
    simp only [prose?, bind, spelled, Option.bind_some, blankAhead, guard, if_true, skipped, number,
      pure]

theorem prose?_eq_none_iff : prose? text = none ↔ ¬ StartsProse text := by
  simp only [Option.eq_none_iff_forall_ne_some, StartsProse, not_exists, ne_eq,
    prose?_eq_some_iff]

theorem leftmost?_eq_some_iff {read : List Char → Option α} {a : α} :
    leftmost? read text = some a ↔
      ∃ i, read (text.drop i) = some a ∧ ∀ j < i, read (text.drop j) = none := by
  fun_induction leftmost? read text with
  | case1 =>
    simp only [List.drop_nil]
    constructor
    · intro found
      exact ⟨0, found, fun j before => absurd before (Nat.not_lt_zero j)⟩
    · rintro ⟨i, found, -⟩
      exact found
  | case2 c rest b found =>
    constructor
    · rintro ⟨⟩
      exact ⟨0, found, fun j before => absurd before (Nat.not_lt_zero j)⟩
    · rintro ⟨i, here, missed⟩
      cases i with
      | zero => exact found.symm.trans here
      | succ i => exact absurd (found.symm.trans (missed 0 (Nat.succ_pos i))) (Option.some_ne_none b)
  | case3 c rest nothing ih =>
    rw [ih]
    constructor
    · rintro ⟨i, found, missed⟩
      refine ⟨i + 1, found, ?_⟩
      intro j before
      cases j with
      | zero => exact nothing
      | succ j => exact missed j (Nat.lt_of_succ_lt_succ before)
    · rintro ⟨i, found, missed⟩
      cases i with
      | zero => exact absurd (found.symm.trans nothing) (Option.some_ne_none a)
      | succ i => exact ⟨i, found, fun j before => missed (j + 1) (Nat.succ_lt_succ before)⟩

theorem leftmost?_eq_none_iff {read : List Char → Option α} :
    leftmost? read text = none ↔ ∀ i, read (text.drop i) = none := by
  fun_induction leftmost? read text with
  | case1 => simp
  | case2 c rest b found =>
    refine iff_of_false (Option.some_ne_none b) ?_
    intro missed
    exact absurd (found.symm.trans (missed 0)) (Option.some_ne_none b)
  | case3 c rest nothing ih =>
    rw [ih]
    constructor
    · intro missed i
      cases i with
      | zero => exact nothing
      | succ i => exact missed i
    · intro missed i
      exact missed (i + 1)

/-! ### The place of a line -/

theorem leftmost?_bracketed?_eq_some_iff :
    leftmost? bracketed? line = some (row, column, rest) ↔
      ∃ i, Bracketed row column rest (line.drop i) ∧ ∀ j < i, ¬ StartsBracketed (line.drop j) := by
  simp only [leftmost?_eq_some_iff, bracketed?_eq_some_iff, bracketed?_eq_none_iff]

theorem leftmost?_bracketed?_eq_none_iff :
    leftmost? bracketed? line = none ↔ ∀ j, ¬ StartsBracketed (line.drop j) := by
  simp only [leftmost?_eq_none_iff, bracketed?_eq_none_iff]

theorem leftmost?_prose?_eq_some_iff :
    leftmost? prose? line = some row ↔
      ∃ i, Prose row (line.drop i) ∧ ∀ j < i, ¬ StartsProse (line.drop j) := by
  simp only [leftmost?_eq_some_iff, prose?_eq_some_iff, prose?_eq_none_iff]

theorem leftmost?_prose?_eq_none_iff :
    leftmost? prose? line = none ↔ ∀ j, ¬ StartsProse (line.drop j) := by
  simp only [leftmost?_eq_none_iff, prose?_eq_none_iff]

theorem placed_ofLine (line : List Char) : Placed line (ofLine line) := by
  rw [ofLine]
  split
  · rename_i row column rest found
    obtain ⟨i, here, first⟩ := leftmost?_bracketed?_eq_some_iff.mp found
    simp only [List.isEmpty_iff]
    exact .bracketed here first
  · rename_i missed
    have unbracketed := leftmost?_bracketed?_eq_none_iff.mp missed
    split
    · rename_i row found
      obtain ⟨i, here, first⟩ := leftmost?_prose?_eq_some_iff.mp found
      exact .prose unbracketed here first
    · rename_i missed
      exact .nowhere unbracketed (leftmost?_prose?_eq_none_iff.mp missed)

theorem ofLine_eq_of_placed {d : Diagnostic} (h : Placed line d) : ofLine line = d := by
  cases h with
  | bracketed here first =>
    rw [ofLine, leftmost?_bracketed?_eq_some_iff.mpr ⟨_, here, first⟩]
    simp only [List.isEmpty_iff]
  | prose unbracketed here first =>
    rw [ofLine, leftmost?_bracketed?_eq_none_iff.mpr unbracketed,
      leftmost?_prose?_eq_some_iff.mpr ⟨_, here, first⟩]
  | nowhere unbracketed unwritten =>
    rw [ofLine, leftmost?_bracketed?_eq_none_iff.mpr unbracketed,
      leftmost?_prose?_eq_none_iff.mpr unwritten]

/-! ### One line with one place -/

theorem isNumeral_toDigits (n : Nat) : IsNumeral (Nat.toDigits 10 n) :=
  ⟨Nat.toDigits_ne_nil, fun _ => isDigit_of_mem_toDigits⟩

/-- The position of the first bracket is where the text before it ends. -/
theorem not_startsBracketed_of_lt {front : List Char} (h : '[' ∉ front) {j : Nat}
    (before : j < front.length) : ¬ StartsBracketed ((front ++ text).drop j) := by
  rintro ⟨row, column, rest, place⟩
  rw [List.drop_append_of_le_length before.le, List.drop_eq_getElem_cons before] at place
  generalize remaining : front[j] :: front.drop (j + 1) ++ text = whole at place
  cases place
  have bracket : front[j] = '[' := (List.cons.inj remaining).1
  exact h (bracket ▸ List.getElem_mem before)

def placeText (n m : Nat) : List Char :=
  '[' :: (Nat.toDigits 10 n ++ ':' :: (Nat.toDigits 10 m ++ [']']))

theorem unbroken_toDigits (n : Nat) : Unbroken (Nat.toDigits 10 n) := by
  constructor
  all_goals
    intro mem
    exact absurd (isDigit_of_mem_toDigits mem) (by decide)

theorem unbroken_placeText (n m : Nat) : Unbroken (placeText n m) := by
  have closing : Unbroken [']'] := unbroken_nil.cons (by decide) (by decide)
  have column : Unbroken (':' :: (Nat.toDigits 10 m ++ [']'])) :=
    ((unbroken_toDigits m).append closing).cons (by decide) (by decide)
  exact ((unbroken_toDigits n).append column).cons (by decide) (by decide)

theorem zeroBased_toDigits {n : Nat} (short : (Nat.toDigits 10 n).length ≤ numeralLimit) :
    zeroBased (Nat.toDigits 10 n) = n - 1 := by
  rw [zeroBased, if_neg (Nat.not_lt.mpr short), decimalValue_toDigits]

theorem ofLine_placeText {front : List Char} (noBracket : '[' ∉ front) {n m : Nat}
    (rest : List Char) :
    ofLine (front ++ (placeText n m ++ rest)) =
      ⟨zeroBased (Nat.toDigits 10 n), zeroBased (Nat.toDigits 10 m),
        String.ofList (if trim rest = [] then front ++ (placeText n m ++ rest) else trim rest)⟩ := by
  apply ofLine_eq_of_placed
  apply Placed.bracketed (i := front.length)
  · rw [List.drop_left]
    have place : placeText n m ++ rest =
        '[' :: (Nat.toDigits 10 n ++ ':' :: (Nat.toDigits 10 m ++ ']' :: rest)) := by
      simp [placeText]
    rw [place]
    exact .mk (isNumeral_toDigits n) (isNumeral_toDigits m)
  · intro j before
    exact not_startsBracketed_of_lt noBracket before

/-- Trimming a line reaches neither the place nor what is between it and the message. -/
theorem exists_trim_placeText {message : List Char} (ink : hasInk message) (front : List Char)
    (n m : Nat) : ∃ rest, trim rest = trim message ∧
      trim (front ++ (placeText n m ++ ' ' :: message)) =
        skipBlanks front ++ (placeText n m ++ rest) := by
  obtain ⟨before, behind, split, blankBefore, blankBehind⟩ := exists_eq_append_trim message
  have trimmed := isTrimmed_trim ink
  refine ⟨' ' :: before ++ trim message, ?_, ?_⟩
  · have blanks : ∀ c ∈ ' ' :: before, isBlank c :=
      List.forall_mem_cons.mpr ⟨by decide, blankBefore⟩
    have alone := trimmed.trim_between (' ' :: before) [] blanks (List.forall_mem_nil _)
    rwa [List.append_nil] at alone
  · have core := trimmed.append_skipBlanks front (placeText n m ++ ' ' :: before) <| by
      rintro c ⟨⟩
      decide
    have whole : front ++ (placeText n m ++ ' ' :: message) = front.takeWhile isBlank ++
        ((skipBlanks front ++ (placeText n m ++ ' ' :: before ++ trim message)) ++ behind) := by
      have parts : front = front.takeWhile isBlank ++ skipBlanks front :=
        List.takeWhile_append_dropWhile.symm
      conv_lhs => rw [parts, split]
      simp
    rw [whole, core.trim_between _ _ (fun c hc => List.mem_takeWhile_imp hc) blankBehind,
      List.append_assoc]

theorem locate_placeText {content : Content} {front message : List Char} {n m : Nat}
    (written : content.chars = front ++ (placeText n m ++ ' ' :: message))
    (noBracket : '[' ∉ front) (unbroken : Unbroken front) (unbrokenMessage : Unbroken message)
    (ink : hasInk message) (shortRow : (Nat.toDigits 10 n).length ≤ numeralLimit)
    (shortColumn : (Nat.toDigits 10 m).length ≤ numeralLimit) :
    locate content = [⟨n - 1, m - 1, String.ofList (trim message)⟩] := by
  have single : Unbroken content.chars := by
    rw [written]
    exact unbroken.append ((unbroken_placeText n m).append
      (unbrokenMessage.cons (by decide) (by decide)))
  have inked : hasInk content.chars := by
    obtain ⟨c, mem, notBlank⟩ := List.any_eq_true.mp ink
    exact List.any_eq_true.mpr ⟨c, by simp [written, mem], notBlank⟩
  have lines : content.inkedLines = [content.chars] := by
    rw [Content.inkedLines, Content.lines, single.lines_eq, List.filter_cons_of_pos inked]
    rfl
  obtain ⟨rest, same, trimmed⟩ := exists_trim_placeText ink front n m
  have noBracketLeft : '[' ∉ skipBlanks front :=
    fun mem => noBracket ((List.dropWhile_suffix isBlank).subset mem)
  have messageLeft : trim rest ≠ [] := same ▸ (isTrimmed_trim ink).ne_nil
  rw [locate_eq_map, lines, List.map_singleton, written, trimmed, ofLine_placeText noBracketLeft,
    if_neg messageLeft, same, zeroBased_toDigits shortRow, zeroBased_toDigits shortColumn]

/-- A trimmed line is read exactly as the grammar of places says. Numbers count from one, stay at zero,
and are not converted when they are too long. -/
theorem ofLine_follows_grammar :
    (∀ (line : List Char) (d : Diagnostic), ofLine line = d ↔ Placed line d) ∧
    (∀ digits : List Char, zeroBased digits =
      if digits.length > 4300 then 0
      else Nat.ofDigits 10 (digits.reverse.map digitValue) - 1) ∧
    ∀ (content : Content) (front message : List Char) (n m : Nat),
      content.chars = front ++ (placeText n m ++ ' ' :: message) →
      '[' ∉ front → Unbroken front → Unbroken message → hasInk message →
      (Nat.toDigits 10 n).length ≤ 4300 → (Nat.toDigits 10 m).length ≤ 4300 →
        locate content = [⟨n - 1, m - 1, String.ofList (trim message)⟩] := by
  refine ⟨?_, ?_, ?_⟩
  · intro line d
    constructor
    · rintro rfl
      exact placed_ofLine line
    · exact ofLine_eq_of_placed
  · intro digits
    rw [zeroBased, decimalValue_eq_ofDigits, numeralLimit]
  · intro content front message n m written noBracket unbroken unbrokenMessage ink row column
    exact locate_placeText written noBracket unbroken unbrokenMessage ink row column

/-- Neither the prose before the place nor the brackets behind it matter. -/
theorem locate_between_other_places :
    locate (.text "  a] line 9: [12:5]  bad [1:1] token ".toList) =
      [⟨11, 4, "bad [1:1] token"⟩] := by
  have located := ofLine_follows_grammar.2.2 (.text "  a] line 9: [12:5]  bad [1:1] token ".toList)
    "  a] line 9: ".toList " bad [1:1] token ".toList 12 5 (by decide) (by decide)
    ⟨by decide, by decide⟩ ⟨by decide, by decide⟩ (by decide) (by decide) (by decide)
  have message : trim " bad [1:1] token ".toList = "bad [1:1] token".toList := by decide +kernel
  rw [located, message]
  rfl

end VibeLens.Diagnostic
