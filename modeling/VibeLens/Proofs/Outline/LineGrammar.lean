import VibeLens.Proofs.Outline.Recognition

set_option autoImplicit false

/-!
The grammar of a line, and that a line is read exactly by it. What opens a block, what closes one and
what defines a symbol is said here by how the text can be put together. Any way counts, and blanks and
words may be cut anywhere. The readers never take a choice back, which is no loss: of all ways to cut
a text at most one leaves something that the rest of the grammar can go on with.
-/

namespace VibeLens

open Text

namespace Kind

/-- The word that introduces a definition of this kind. -/
def keyword : Kind → List Char
  | function => "def".toList
  | classType => "class".toList
  | structType => "struct".toList
  | enumType => "enum".toList
  | constant => "const".toList

/-- The characters with which a name starts. -/
def IsInitial : Kind → Char → Prop
  | function, c => 'a' ≤ c ∧ c ≤ 'z' ∨ c = '_'
  | constant, c => 'A' ≤ c ∧ c ≤ 'Z' ∨ c = '_'
  | _, c => 'A' ≤ c ∧ c ≤ 'Z'

/-- The characters with which a name goes on. -/
def IsInner : Kind → Char → Prop
  | constant, c => 'A' ≤ c ∧ c ≤ 'Z' ∨ '0' ≤ c ∧ c ≤ '9' ∨ c = '_'
  | _, c => isWord c

end Kind

namespace Outline

/-! ### The grammar -/

/-- Text that does not go on with a word that ends before it. -/
def EndsWord (rest : List Char) : Prop := ∀ c ∈ rest.head?, isWord c = false

inductive Assigned : List Char → Prop
  | mk {initial : Char} {tail gap after : List Char} :
      isLower initial ∨ isUpper initial ∨ initial = '_' → (∀ c ∈ tail, isWord c ∨ c = '.') →
      (∀ c ∈ gap, isBlank c) → (∀ c ∈ after, isBlank c) →
      Assigned (initial :: (tail ++ (gap ++ '=' :: after)))

inductive Lead : List Char → Prop
  | nothing : Lead []
  | assigned {target : List Char} : Assigned target → Lead target
  | declared {word gap target : List Char} : word = "let".toList ∨ word = "const".toList →
      gap ≠ [] → (∀ c ∈ gap, isBlank c) → Assigned target → Lead (word ++ (gap ++ target))

inductive KeywordFirst : List Char → Prop
  | mk {indent lead keyword rest : List Char} : (∀ c ∈ indent, isBlank c) → Lead lead →
      keyword ∈ openers → EndsWord rest → KeywordFirst (indent ++ (lead ++ (keyword ++ rest)))

inductive StandsAlone (word : List Char) : List Char → Prop
  | mk {front rest : List Char} :
      (∀ c ∈ front.getLast?, ¬ (isWord c ∨ c = '.' ∨ c = ':')) → EndsWord rest →
      StandsAlone word (front ++ (word ++ rest))

inductive IsName (kind : Kind) : List Char → Prop
  | mk {initial : Char} {tail : List Char} : kind.IsInitial initial → (∀ c ∈ tail, kind.IsInner c) →
      IsName kind (initial :: tail)

/-- A line that starts with the keyword of a kind and a name, which stands at a column. The name may
go on in the rest. -/
inductive Header (kind : Kind) (name rest : List Char) : (column : Nat) → List Char → Prop
  | mk {indent gap : List Char} : (∀ c ∈ indent, isBlank c) → gap ≠ [] → (∀ c ∈ gap, isBlank c) →
      IsName kind name → Header kind name rest (indent ++ (kind.keyword ++ gap)).length
        (indent ++ (kind.keyword ++ (gap ++ (name ++ rest))))

def EndsName (kind : Kind) (rest : List Char) : Prop := ∀ c ∈ rest.head?, ¬ kind.IsInner c

inductive SignFirst : List Char → Prop
  | mk {gap rest : List Char} : (∀ c ∈ gap, isBlank c) → SignFirst (gap ++ '=' :: rest)

/-! ### Characters of words -/

section Characters

variable {c : Char}

theorem isBlank_eq_false_of_isWord (h : isWord c) : isBlank c = false := by
  by_contra blank
  rw [Bool.not_eq_false] at blank
  rw [isWord_eq_false_of_isBlank blank] at h
  cases h

theorem isWord_of_ascii (h : isLower c ∨ isUpper c ∨ c = '_') : isWord c := by
  have lower : ∀ n < 123, 97 ≤ n → inRanges wordRanges n := by decide +kernel
  have upper : ∀ n < 91, 65 ≤ n → inRanges wordRanges n := by decide +kernel
  simp only [isLower, isUpper, Bool.and_eq_true, decide_eq_true_eq, Char.le_def,
    UInt32.le_iff_toNat_le] at h
  rcases h with ⟨low, high⟩ | ⟨low, high⟩ | rfl
  · exact lower c.toNat (Nat.lt_succ_of_le high) low
  · exact upper c.toNat (Nat.lt_succ_of_le high) low
  · decide +kernel

theorem bindsToNext_eq_false_iff :
    bindsToNext c = false ↔ ¬ (isWord c ∨ c = '.' ∨ c = ':') := by
  simp [bindsToNext, and_assoc]

theorem bindsToNext_eq_false_of_isBlank (h : isBlank c) : bindsToNext c = false := by
  rw [bindsToNext_eq_false_iff, isWord_eq_false_of_isBlank h]
  rintro (⟨⟨⟩⟩ | rfl | rfl)
  all_goals
    revert h
    decide

end Characters

/-! ### Readers are exact -/

section Readers

variable {word text code rest gap : List Char}

theorem wordEnds_iff : wordEnds rest ↔ EndsWord rest := by
  cases rest with
  | nil => simp [wordEnds, EndsWord]
  | cons c rest => simp [wordEnds, EndsWord]

theorem word?_eq_some_iff : word? word text = some rest ↔ text = word ++ rest := by
  constructor
  · exact eq_append_of_word?
  · rintro rfl
    exact word?_append word rest

theorem skipBlanks_gap (blank : ∀ c ∈ gap, isBlank c) (ink : ∀ c ∈ rest.head?, isBlank c = false) :
    skipBlanks (gap ++ rest) = rest := dropWhile_append_eq blank ink

theorem exists_gap (text : List Char) :
    ∃ gap, (∀ c ∈ gap, isBlank c) ∧ text = gap ++ skipBlanks text := exists_run isBlank text

theorem blanks?_eq_some_iff : blanks? text = some rest ↔
    (∃ gap, gap ≠ [] ∧ (∀ c ∈ gap, isBlank c) ∧ text = gap ++ rest) ∧
      ∀ c ∈ rest.head?, isBlank c = false := by
  constructor
  · intro h
    obtain ⟨c, tail, rfl, first, rfl⟩ := exists_of_blanks? h
    obtain ⟨gap, blank, split⟩ := exists_gap tail
    refine ⟨⟨c :: gap, List.cons_ne_nil c gap, ?_, ?_⟩, stop_dropWhile tail⟩
    · exact List.forall_mem_cons.mpr ⟨first, blank⟩
    · rw [List.cons_append, ← split]
  · rintro ⟨⟨gap, nonempty, blank, rfl⟩, ink⟩
    cases gap with
    | nil => exact absurd rfl nonempty
    | cons c gap =>
      obtain ⟨first, blank⟩ := List.forall_mem_cons.mp blank
      rw [List.cons_append, blanks?, if_pos first, skipBlanks_gap blank ink]

theorem openerAhead_iff :
    openerAhead code ↔ ∃ keyword ∈ openers, ∃ rest, code = keyword ++ rest ∧ EndsWord rest := by
  simp only [openerAhead, List.any_eq_true, Option.any_eq_true, word?_eq_some_iff, wordEnds_iff]

/-- Neither a blank nor an equality sign belongs to a target. -/
theorem stop_gap_sign (blank : ∀ c ∈ gap, isBlank c) :
    ∀ c ∈ (gap ++ '=' :: rest).head?, (isWord c || c == '.') = false := by
  cases gap with
  | nil =>
    rintro c ⟨⟩
    decide +kernel
  | cons d gap =>
    rintro c ⟨⟩
    have free := bindsToNext_eq_false_of_isBlank (blank d List.mem_cons_self)
    exact (Bool.or_eq_false_iff.mp free).1

theorem assignment?_eq_some_iff : assignment? code = some rest ↔
    (∃ target, Assigned target ∧ code = target ++ rest) ∧
      ∀ c ∈ rest.head?, isBlank c = false := by
  constructor
  · intro h
    simp only [assignment?, bind, Option.bind_eq_some_iff, pure] at h
    obtain ⟨initial, head, _, guarded, behind, sign, found⟩ := h
    cases found
    cases code with
    | nil => cases head
    | cons c tail =>
      cases head
      have first : isLower initial ∨ isUpper initial ∨ initial = '_' := by
        simpa [or_assoc] using (Option.guard_eq_some' ()).mp guarded
      obtain ⟨run, inTarget, split⟩ := exists_run (fun c => isWord c || c == '.') tail
      rw [List.tail_cons, word?_eq_some_iff] at sign
      obtain ⟨gap, blank, splitGap⟩ :=
        exists_gap (tail.dropWhile fun c => isWord c || c == '.')
      obtain ⟨after, blankAfter, splitAfter⟩ := exists_gap behind
      refine ⟨⟨initial :: (run ++ (gap ++ '=' :: after)), ?_, ?_⟩, stop_dropWhile behind⟩
      · refine .mk first (fun c hc => ?_) blank blankAfter
        simpa using inTarget c hc
      · rw [sign, splitAfter] at splitGap
        rw [splitGap] at split
        conv_lhs => rw [split]
        simp
  · rintro ⟨⟨target, assigned, rfl⟩, ink⟩
    obtain @⟨initial, tail, gap, after, first, inTarget, blank, blankAfter⟩ := assigned
    have run : ∀ c ∈ tail, (isWord c || c == '.') := fun c hc => by simpa using inTarget c hc
    have guarded : (guard (isLower initial || isUpper initial || initial == '_') : Option Unit) =
        some () := (Option.guard_eq_some' ()).mpr (by simpa [or_assoc] using first)
    have sign : ∀ c ∈ ('=' :: (after ++ rest)).head?, isBlank c = false := by
      rintro c ⟨⟩
      decide
    have whole : initial :: (tail ++ (gap ++ '=' :: after)) ++ rest =
        initial :: (tail ++ (gap ++ '=' :: (after ++ rest))) := by simp
    have skipped : word? ['='] ('=' :: (after ++ rest)) = some (after ++ rest) :=
      word?_append ['='] (after ++ rest)
    rw [whole]
    simp only [assignment?, bind, List.head?_cons, Option.bind_some, guarded, List.tail_cons,
      dropWhile_append_eq run (stop_gap_sign blank), skipBlanks_gap blank sign, skipped,
      skipBlanks_gap blankAfter ink, pure]

theorem declared?_eq_some_iff {name : String} : declared? name code = some rest ↔
    (∃ gap, gap ≠ [] ∧ (∀ c ∈ gap, isBlank c) ∧ code = name.toList ++ (gap ++ rest)) ∧
      ∀ c ∈ rest.head?, isBlank c = false := by
  simp only [declared?, bind, Option.bind_eq_some_iff, word?_eq_some_iff, blanks?_eq_some_iff]
  constructor
  · rintro ⟨_, rfl, ⟨gap, nonempty, blank, rfl⟩, ink⟩
    exact ⟨⟨gap, nonempty, blank, rfl⟩, ink⟩
  · rintro ⟨⟨gap, nonempty, blank, rfl⟩, ink⟩
    exact ⟨gap ++ rest, rfl, ⟨gap, nonempty, blank, rfl⟩, ink⟩

end Readers

/-! ### Block keywords -/

section Keywords

variable {code target rest : List Char}

theorem ink_of_openerAhead (h : openerAhead code) : ∀ c ∈ code.head?, isBlank c = false := by
  have words : ∀ keyword ∈ openers, keyword.head?.any (!isBlank ·) := by decide
  obtain ⟨keyword, known, rest, rfl, -⟩ := openerAhead_iff.mp h
  have ink := words keyword known
  cases keyword with
  | nil => cases ink
  | cons c more =>
    rintro d ⟨⟩
    simpa using ink

theorem Assigned.ink (h : Assigned target) (rest : List Char) :
    ∀ c ∈ (target ++ rest).head?, isBlank c = false := by
  obtain ⟨first, -, -, -⟩ := h
  rintro c ⟨⟩
  exact isBlank_eq_false_of_isWord (isWord_of_ascii first)

theorem any_assignment?_iff : (assignment? code).any openerAhead ↔
    ∃ target rest, Assigned target ∧ code = target ++ rest ∧ openerAhead rest := by
  simp only [Option.any_eq_true, assignment?_eq_some_iff]
  constructor
  · rintro ⟨rest, ⟨⟨target, assigned, rfl⟩, -⟩, opener⟩
    exact ⟨target, rest, assigned, rfl, opener⟩
  · rintro ⟨target, rest, assigned, rfl, opener⟩
    exact ⟨rest, ⟨⟨target, assigned, rfl⟩, ink_of_openerAhead opener⟩, opener⟩

theorem any_declared?_iff {name : String} :
    ((declared? name code).bind assignment?).any openerAhead ↔
      ∃ gap target rest, gap ≠ [] ∧ (∀ c ∈ gap, isBlank c) ∧ Assigned target ∧
        code = name.toList ++ (gap ++ (target ++ rest)) ∧ openerAhead rest := by
  rw [Option.any_bind, Option.any_eq_true]
  simp only [declared?_eq_some_iff, Function.comp_apply, any_assignment?_iff]
  constructor
  · rintro ⟨_, ⟨⟨gap, nonempty, blank, rfl⟩, -⟩, target, rest, assigned, rfl, opener⟩
    exact ⟨gap, target, rest, nonempty, blank, assigned, rfl, opener⟩
  · rintro ⟨gap, target, rest, nonempty, blank, assigned, rfl, opener⟩
    exact ⟨target ++ rest, ⟨⟨gap, nonempty, blank, rfl⟩, assigned.ink rest⟩, target, rest,
      assigned, rfl, opener⟩

/-- Nothing that may stand before a keyword starts with a blank. -/
theorem Lead.ink {lead : List Char} (h : Lead lead) (opener : openerAhead rest) :
    ∀ c ∈ (lead ++ rest).head?, isBlank c = false := by
  cases h with
  | nothing => exact ink_of_openerAhead opener
  | assigned assigned => exact assigned.ink rest
  | declared word =>
    rcases word with rfl | rfl
    all_goals
      rintro c ⟨⟩
      decide

theorem opensByKeyword_iff_lead : opensByKeyword code ↔
    ∃ lead rest, Lead lead ∧ skipBlanks code = lead ++ rest ∧ openerAhead rest := by
  simp only [opensByKeyword, Bool.or_eq_true, any_assignment?_iff, any_declared?_iff]
  constructor
  · rintro (((opener | ⟨target, rest, assigned, split, opener⟩) |
      ⟨gap, target, rest, nonempty, blank, assigned, split, opener⟩) |
      ⟨gap, target, rest, nonempty, blank, assigned, split, opener⟩)
    · exact ⟨[], _, .nothing, rfl, opener⟩
    · exact ⟨target, rest, .assigned assigned, split, opener⟩
    · exact ⟨_, rest, .declared (.inl rfl) nonempty blank assigned, by simp [split], opener⟩
    · exact ⟨_, rest, .declared (.inr rfl) nonempty blank assigned, by simp [split], opener⟩
  · rintro ⟨lead, rest, isLead, split, opener⟩
    cases isLead with
    | nothing => exact .inl (.inl (.inl (split ▸ opener)))
    | assigned assigned => exact .inl (.inl (.inr ⟨_, rest, assigned, split, opener⟩))
    | declared word nonempty blank assigned =>
      rw [List.append_assoc, List.append_assoc] at split
      rcases word with rfl | rfl
      · exact .inl (.inr ⟨_, _, rest, nonempty, blank, assigned, split, opener⟩)
      · exact .inr ⟨_, _, rest, nonempty, blank, assigned, split, opener⟩

theorem opensByKeyword_iff : opensByKeyword code ↔ KeywordFirst code := by
  rw [opensByKeyword_iff_lead]
  constructor
  · rintro ⟨lead, rest, isLead, split, opener⟩
    obtain ⟨indent, blank, whole⟩ := exists_gap code
    obtain ⟨keyword, known, rest, rfl, ends⟩ := openerAhead_iff.mp opener
    rw [whole, split]
    exact .mk blank isLead known ends
  · rintro ⟨blank, isLead, known, ends⟩
    have opener := openerAhead_iff.mpr ⟨_, known, _, rfl, ends⟩
    exact ⟨_, _, isLead, skipBlanks_gap blank (isLead.ink opener), opener⟩

end Keywords

/-! ### Words that stand alone -/

section Words

variable {word code : List Char}

theorem any_word?_iff : (word? word code).any wordEnds ↔
    ∃ rest, code = word ++ rest ∧ EndsWord rest := by
  simp only [Option.any_eq_true, word?_eq_some_iff, wordEnds_iff]

/-- A word stands alone in what is left of the code if it starts right here and may do so, or if it
stands alone further on. -/
theorem occursFrom_iff (nonempty : word ≠ []) {free : Bool} : occursFrom word free code ↔
    ∃ front rest, code = front ++ (word ++ rest) ∧ (front = [] → free) ∧
      (∀ c ∈ front.getLast?, bindsToNext c = false) ∧ EndsWord rest := by
  induction code generalizing free with
  | nil => simp [occursFrom, nonempty]
  | cons c code ih =>
    rw [occursFrom, Bool.or_eq_true, Bool.and_eq_true, any_word?_iff, ih]
    constructor
    · rintro (⟨here, rest, split, ends⟩ | ⟨front, rest, rfl, start, last, ends⟩)
      · exact ⟨[], rest, split, fun _ => here, by simp, ends⟩
      · refine ⟨c :: front, rest, rfl, by simp, ?_, ends⟩
        cases front with
        | nil => simpa using start
        | cons d front => rwa [List.getLast?_cons_cons]
    · rintro ⟨front, rest, split, start, last, ends⟩
      cases front with
      | nil => exact .inl ⟨start rfl, rest, split, ends⟩
      | cons d front =>
        obtain ⟨rfl, rfl⟩ := List.cons.inj split
        refine .inr ⟨front, rest, rfl, ?_, ?_, ends⟩
        · rintro rfl
          simpa using last
        · cases front with
          | nil => simp
          | cons e front => rwa [List.getLast?_cons_cons] at last

theorem occurs_iff {name : String} (nonempty : name.toList ≠ []) :
    occurs name code ↔ StandsAlone name.toList code := by
  rw [occurs, occursFrom_iff nonempty]
  simp only [implies_true, true_and, bindsToNext_eq_false_iff]
  constructor
  · rintro ⟨front, rest, rfl, last, ends⟩
    exact .mk last ends
  · rintro ⟨last, ends⟩
    exact ⟨_, _, rfl, last, ends⟩

end Words

/-! ### Definitions -/

section Definitions

variable {form : Form} {line rest : List Char} {d : Definition}

structure Form.Described (form : Form) : Prop where
  keyword : form.keyword = form.kind.keyword
  initial : ∀ c, form.initial c ↔ form.kind.IsInitial c
  inner : ∀ c, form.inner c ↔ form.kind.IsInner c
  assigned : form.assigned ↔ form.kind = .constant

theorem described_of_mem_forms (known : form ∈ forms) : form.Described := by
  simp only [forms, List.mem_cons, List.not_mem_nil, or_false] at known
  rcases known with rfl | rfl | rfl | rfl | rfl
  all_goals
    constructor
    · rfl
    all_goals
      simp [Kind.IsInitial, Kind.IsInner, isLower, isUpper, isDigit, or_assoc]

theorem exists_form (kind : Kind) : ∃ form ∈ forms, form.kind = kind := by
  cases kind <;> simp [forms]

theorem ink_of_isInitial {kind : Kind} {c : Char} (h : kind.IsInitial c) : isBlank c = false := by
  apply isBlank_eq_false_of_isWord
  apply isWord_of_ascii
  cases kind <;> simp [Kind.IsInitial, isLower, isUpper] at h ⊢ <;> tauto

theorem ink_keyword (kind : Kind) (rest : List Char) :
    ∀ c ∈ (kind.keyword ++ rest).head?, isBlank c = false := by
  cases kind
  all_goals
    rintro c ⟨⟩
    decide

theorem equalsAhead_iff : equalsAhead rest ↔ SignFirst rest := by
  rw [equalsAhead, beq_iff_eq]
  constructor
  · intro sign
    obtain ⟨gap, blank, split⟩ := exists_gap rest
    obtain ⟨value, found⟩ := List.head?_eq_some_iff.mp sign
    rw [split, found]
    exact .mk blank
  · rintro @⟨gap, value, blank⟩
    have sign : ∀ c ∈ ('=' :: value).head?, isBlank c = false := by
      rintro c ⟨⟩
      decide
    rw [skipBlanks_gap blank sign]
    rfl

theorem Form.Described.endsName_iff (h : form.Described) :
    EndsName form.kind rest ↔ ∀ c ∈ rest.head?, form.inner c = false := by
  simp only [EndsName, ← h.inner, Bool.not_eq_true]

theorem Form.header_of_match? (known : form.Described) (found : form.match? line = some d) :
    d.kind = form.kind ∧ ∃ rest, Header d.kind d.name rest d.column line ∧
      EndsName d.kind rest ∧ (d.kind = .constant → SignFirst rest) := by
  simp only [Form.match?, bind, Option.bind_eq_some_iff, pure] at found
  obtain ⟨_, keyword, text, blanks, initial, head, _, isInitial, _, assigned, found⟩ := found
  cases found
  obtain ⟨tail, rfl⟩ := List.head?_eq_some_iff.mp head
  obtain ⟨indent, blank, split⟩ := exists_gap line
  obtain ⟨⟨gap, nonempty, blankGap, rfl⟩, -⟩ := blanks?_eq_some_iff.mp blanks
  rw [word?_eq_some_iff] at keyword
  rw [List.tail_cons] at assigned ⊢
  have place : line = indent ++ (form.kind.keyword ++ (gap ++
      (initial :: tail.takeWhile form.inner ++ tail.dropWhile form.inner))) := by
    rw [List.cons_append, List.takeWhile_append_dropWhile, ← known.keyword, ← keyword]
    exact split
  have column : line.length - (initial :: tail).length =
      (indent ++ (form.kind.keyword ++ gap)).length := by
    have whole := congrArg List.length place
    rw [List.cons_append, List.takeWhile_append_dropWhile] at whole
    simp only [List.length_append] at whole ⊢
    omega
  have isName : IsName form.kind (initial :: tail.takeWhile form.inner) := by
    refine .mk ((known.initial initial).mp ((Option.guard_eq_some' ()).mp isInitial)) ?_
    intro c hc
    exact (known.inner c).mp (List.mem_takeWhile_imp hc)
  refine ⟨rfl, tail.dropWhile form.inner, ?_, ?_, ?_⟩
  · rw [column, place]
    exact .mk blank nonempty blankGap isName
  · exact known.endsName_iff.mpr (stop_dropWhile tail)
  · intro constant
    have passed := (Option.guard_eq_some' ()).mp assigned
    rw [known.assigned.mpr constant, Bool.not_true, Bool.false_or] at passed
    exact equalsAhead_iff.mp passed

theorem Form.match?_of_header (known : form.Described) {name : List Char} {column : Nat}
    (header : Header form.kind name rest column line) (ends : EndsName form.kind rest)
    (sign : form.kind = .constant → SignFirst rest) :
    form.match? line = some ⟨name, form.kind, column⟩ := by
  obtain @⟨indent, gap, blank, nonempty, blankGap, isName⟩ := header
  obtain @⟨initial, tail, isInitial, inRun⟩ := isName
  have run : ∀ c ∈ tail, form.inner c := fun c hc => (known.inner c).mpr (inRun c hc)
  have stop := known.endsName_iff.mp ends
  have ink : ∀ c ∈ (initial :: (tail ++ rest)).head?, isBlank c = false := by
    rintro c ⟨⟩
    exact ink_of_isInitial isInitial
  have blanks : blanks? (gap ++ initial :: (tail ++ rest)) = some (initial :: (tail ++ rest)) :=
    blanks?_eq_some_iff.mpr ⟨⟨gap, nonempty, blankGap, rfl⟩, ink⟩
  have first : (guard (form.initial initial) : Option Unit) = some () :=
    (Option.guard_eq_some' ()).mpr ((known.initial initial).mpr isInitial)
  have assigned : (guard (!form.assigned || equalsAhead rest) : Option Unit) = some () := by
    apply (Option.guard_eq_some' ()).mpr
    cases needed : form.assigned with
    | false => rfl
    | true => exact equalsAhead_iff.mpr (sign (known.assigned.mp needed))
  have column : (indent ++ (form.kind.keyword ++ (gap ++ initial :: (tail ++ rest)))).length -
      (initial :: (tail ++ rest)).length = (indent ++ (form.kind.keyword ++ gap)).length := by
    simp only [List.length_append]
    omega
  simp only [Form.match?, bind, List.cons_append, skipBlanks_gap blank (ink_keyword _ _),
    known.keyword, word?_append, Option.bind_some, blanks, List.head?_cons, first, List.tail_cons,
    takeWhile_append_eq run stop, dropWhile_append_eq run stop, assigned, pure, column]

theorem definition?_eq_some_iff : definition? line = some d ↔
    ∃ rest, Header d.kind d.name rest d.column line ∧ EndsName d.kind rest ∧
      (d.kind = .constant → SignFirst rest) := by
  rw [definition?_eq_some_iff_match?]
  constructor
  · rintro ⟨form, known, found⟩
    exact (Form.header_of_match? (described_of_mem_forms known) found).2
  · rintro ⟨rest, header, ends, sign⟩
    obtain ⟨form, known, kind⟩ := exists_form d.kind
    rw [← kind] at header ends sign
    refine ⟨form, known, ?_⟩
    rw [Form.match?_of_header (described_of_mem_forms known) header ends sign, kind]

/-- A name may take in what it goes on with. -/
theorem Header.extend {kind : Kind} {name run : List Char} {column : Nat}
    (h : Header kind name (run ++ rest) column line) (inRun : ∀ c ∈ run, kind.IsInner c) :
    Header kind (name ++ run) rest column line := by
  obtain ⟨blank, nonempty, blankGap, isName⟩ := h
  obtain ⟨isInitial, inTail⟩ := isName
  rw [← List.append_assoc (_ :: _)]
  refine .mk blank nonempty blankGap (.mk isInitial ?_)
  exact List.forall_mem_append.mpr ⟨inTail, inRun⟩

theorem isSome_definition?_iff : (definition? line).isSome ↔
    ∃ kind name rest column, Header kind name rest column line ∧
      (kind = .constant → EndsName kind rest ∧ SignFirst rest) := by
  rw [Option.isSome_iff_exists]
  constructor
  · rintro ⟨d, found⟩
    obtain ⟨rest, header, ends, sign⟩ := definition?_eq_some_iff.mp found
    exact ⟨d.kind, d.name, rest, d.column, header, fun constant => ⟨ends, sign constant⟩⟩
  · rintro ⟨kind, name, rest, column, header, constant⟩
    by_cases isConstant : kind = .constant
    · obtain ⟨ends, sign⟩ := constant isConstant
      exact ⟨⟨name, kind, column⟩, definition?_eq_some_iff.mpr ⟨rest, header, ends, fun _ => sign⟩⟩
    · -- Nothing is asked of the rest, so the name can be taken as far as it goes.
      obtain ⟨form, known, rfl⟩ := exists_form kind
      have described := described_of_mem_forms known
      obtain ⟨run, inRun, split⟩ := exists_run form.inner rest
      rw [split] at header
      refine ⟨⟨name ++ run, form.kind, column⟩, definition?_eq_some_iff.mpr
        ⟨rest.dropWhile form.inner, ?_, ?_, fun constant => absurd constant isConstant⟩⟩
      · exact header.extend fun c hc => (described.inner c).mp (inRun c hc)
      · exact described.endsName_iff.mpr (stop_dropWhile rest)

end Definitions

/-- A line opens, closes and defines exactly as the grammar says. -/
theorem line_read_by_grammar (line : List Char) :
    (opensByKeyword (codePortion line) ↔ KeywordFirst (codePortion line)) ∧
    (opensByLiteral (codePortion line) ↔ StandsAlone "fn".toList (codePortion line)) ∧
    (closes (codePortion line) ↔ StandsAlone "end".toList (codePortion line)) ∧
    ((definition? line).isSome ↔ ∃ kind name rest column, Header kind name rest column line ∧
      (kind = .constant → EndsName kind rest ∧ SignFirst rest)) ∧
    ∀ d, definition? line = some d ↔ ∃ rest, Header d.kind d.name rest d.column line ∧
      EndsName d.kind rest ∧ (d.kind = .constant → SignFirst rest) := by
  refine ⟨opensByKeyword_iff, ?_, ?_, isSome_definition?_iff, fun d => definition?_eq_some_iff⟩
  · exact occurs_iff (by decide)
  · exact occurs_iff (by decide)

/-- A word that introduces a target may be one itself, a second equality sign makes a comparison, and
dots, colons and underscores bind. -/
theorem ambiguous_lines_read_by_grammar :
    KeywordFirst (codePortion "let = if x".toList) ∧
      ¬ KeywordFirst (codePortion "x == if y".toList) ∧
      ¬ StandsAlone "end".toList (codePortion ":end a.end end_time".toList) ∧
      ¬ (definition? "const Ab = 1".toList).isSome := by
  obtain ⟨keyword, -⟩ := line_read_by_grammar "let = if x".toList
  obtain ⟨comparison, -⟩ := line_read_by_grammar "x == if y".toList
  obtain ⟨-, -, bound, -⟩ := line_read_by_grammar ":end a.end end_time".toList
  rw [← keyword, ← comparison, ← bound]
  decide +kernel

end Outline
end VibeLens
