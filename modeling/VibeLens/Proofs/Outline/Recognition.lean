import VibeLens.Proofs.Outline.Quoting

set_option autoImplicit false

/-!
Definitions and blocks are recognised apart from each other, on the line as it stands and on its code
portion, and still they agree. A definition ends before the first quote or comment sign, up to which
the two texts are the same. The keywords of two forms differ, so at most one form fits a line. And a
definition that can own others always opens the block that it owns.
-/

namespace VibeLens.Outline

open Text

/-! ### One definition on both texts -/

section Both

variable {rest : List Char}

/-- Where a quote or a comment sign stood, the code portion has a quote or ends. -/
theorem isPlain_head?_codePortion (stop : ∀ c ∈ rest.head?, isPlain c = false) :
    ∀ c ∈ (codePortion rest).head?, isPlain c = false := by
  cases rest with
  | nil =>
    rw [codePortion_nil]
    exact stop
  | cons quote rest =>
    rcases isPlain_eq_false_iff.mp (stop quote rfl) with quotes | rfl
    · rw [codePortion, emptyLiterals, if_pos quotes]
      split
      · rintro c ⟨⟩
        rfl
      · have notComment : quote ≠ '#' := by
          rcases quotes with rfl | rfl <;> decide
        rw [List.takeWhile_cons_of_pos (by simpa using notComment)]
        exact stop
    · rw [codePortion_comment]
      intro c hc
      cases hc

theorem definition?_codePortion (line : List Char) :
    definition? (codePortion line) = definition? line := by
  have plain : ∀ c ∈ line.takeWhile isPlain, isPlain c := fun c hc => List.mem_takeWhile_imp hc
  have stop : ∀ c ∈ (line.dropWhile isPlain).head?, isPlain c = false := stop_dropWhile line
  calc definition? (codePortion line)
    _ = definition? (line.takeWhile isPlain ++ codePortion (line.dropWhile isPlain)) := by
      rw [← codePortion_append plain, List.takeWhile_append_dropWhile]
    _ = definition? (line.takeWhile isPlain) :=
      definition?_append_of_stop (isPlain_head?_codePortion stop) _
    _ = definition? (line.takeWhile isPlain ++ line.dropWhile isPlain) :=
      (definition?_append_of_stop stop _).symm
    _ = definition? line := by rw [List.takeWhile_append_dropWhile]

end Both

/-! ### At most one form -/

section Forms

variable {form : Form} {line : List Char} {d : Definition}

theorem all_keyword_ink : ∀ form ∈ forms, form.keyword.all (!isBlank ·) := by
  decide

theorem nodup_keywords : (forms.map Form.keyword).Nodup := by
  decide

/-- The keyword of a definition is the first word of its line. -/
theorem Form.keyword_eq_of_match? (known : form ∈ forms) (found : form.match? line = some d) :
    form.keyword = (skipBlanks line).takeWhile (!isBlank ·) := by
  obtain ⟨-, c, rest, blank, start⟩ := Form.exists_of_match? found
  have word : ∀ c ∈ form.keyword, !isBlank c := List.all_eq_true.mp (all_keyword_ink form known)
  rw [start, List.takeWhile_append_of_pos word, List.takeWhile_cons_of_neg (by simp [blank]),
    List.append_nil]

theorem pairwise_match?_eq_none (line : List Char) :
    forms.Pairwise fun form other => form.match? line = none ∨ other.match? line = none := by
  have distinct := List.pairwise_map.mp nodup_keywords
  refine distinct.imp_of_mem fun {form other} known known' differ => ?_
  by_contra both
  rw [not_or, ← ne_eq, ← ne_eq, Option.ne_none_iff_exists', Option.ne_none_iff_exists'] at both
  obtain ⟨⟨d, found⟩, d', found'⟩ := both
  apply differ
  rw [Form.keyword_eq_of_match? known found, Form.keyword_eq_of_match? known' found']

section Search

variable {α β : Type} {f : α → Option β} {l l' : List α} {b : β}

/-- Where at most one item answers, the first answer is the only one. -/
theorem findSome?_eq_some_iff_of_pairwise
    (unique : l.Pairwise fun a b => f a = none ∨ f b = none) :
    l.findSome? f = some b ↔ ∃ a ∈ l, f a = some b := by
  constructor
  · exact List.exists_of_findSome?_eq_some
  · rintro ⟨a, mem, found⟩
    induction l with
    | nil => cases mem
    | cons first l ih =>
      obtain ⟨alone, unique⟩ := List.pairwise_cons.mp unique
      rcases List.mem_cons.mp mem with rfl | later
      · rw [List.findSome?_cons_of_isSome (by simp [found]), found]
      · have nothing : f first = none := (alone a later).resolve_right (by simp [found])
        rw [List.findSome?_cons_of_isNone (by simp [nothing])]
        exact ih unique later

theorem findSome?_eq_of_perm (perm : l.Perm l')
    (unique : l.Pairwise fun a b => f a = none ∨ f b = none) :
    l.findSome? f = l'.findSome? f := by
  apply Option.ext
  intro b
  rw [findSome?_eq_some_iff_of_pairwise unique,
    findSome?_eq_some_iff_of_pairwise (perm.pairwise unique Or.symm)]
  simp only [perm.mem_iff]

end Search

theorem definition?_eq_some_iff_match? :
    definition? line = some d ↔ ∃ form ∈ forms, form.match? line = some d :=
  findSome?_eq_some_iff_of_pairwise (pairwise_match?_eq_none line)

end Forms

/-! ### One frame -/

namespace Scan

def opened (s : Scan) (line : List Char) : Scan :=
  let found := definition? line
  let defined := found.elim s fun d => s.define d line.length
  if opens (codePortion line) then defined.openBlock (found.any fun d => d.kind.isScoped)
  else defined

theorem step_eq_opened (s : Scan) (line : List Char) :
    s.step line =
      { (if closes (codePortion line) then (s.opened line).closeBlock line.length
          else s.opened line) with line := s.line + 1 } := rfl

/-- A line pushes the frame of a definition that can own others, and nothing else. -/
theorem frames_opened (s : Scan) (line : List Char) :
    (s.opened line).frames =
      if (definition? line).any (·.kind.isScoped) then ⟨s.line, s.depth⟩ :: s.frames
      else s.frames := by
  cases found : definition? line with
  | none =>
    simp only [opened, found, Option.elim_none, Option.any_none]
    split <;> rfl
  | some d =>
    simp only [opened, found, Option.elim_some, Option.any_some]
    by_cases owning : d.kind.isScoped
    · rw [if_pos (opens_of_definition? found owning), if_pos owning]
      simp only [openBlock, owning, if_true]
      rfl
    · rw [if_neg owning]
      simp only [openBlock, owning]
      split <;> rfl

end Scan

/-- What is defined on a line and what block it opens are never at odds. At most one form fits, and a
definition that can own others opens a block, which is given to it alone. -/
theorem definition_and_block_agree (line : List Char) :
    definition? (codePortion line) = definition? line ∧
    (forms.Pairwise fun form other => form.match? line = none ∨ other.match? line = none) ∧
    (∀ order : List Form, order.Perm forms → order.findSome? (·.match? line) = definition? line) ∧
    ∀ d, definition? line = some d → d.kind ≠ .constant →
      opensByKeyword (codePortion line) ∧
      ∀ s : Scan, (s.opened line).frames = ⟨s.line, s.depth⟩ :: s.frames ∧
        s.step line =
          { (if closes (codePortion line) then (s.opened line).closeBlock line.length
              else s.opened line) with line := s.line + 1 } := by
  have unique := pairwise_match?_eq_none line
  refine ⟨definition?_codePortion line, unique, ?_, ?_⟩
  · intro order perm
    exact (findSome?_eq_of_perm perm.symm unique).symm
  · intro d defined notConstant
    have owning : d.kind.isScoped := isScoped_iff.mpr notConstant
    refine ⟨opensByKeyword_of_definition? defined owning, fun s => ⟨?_, s.step_eq_opened line⟩⟩
    rw [s.frames_opened, defined, Option.any_some, if_pos owning]

def commentedHeader : List Char := "\u3000def größe#\"end".toList

theorem commentedHeader_opens_its_block :
    definition? commentedHeader = some ⟨"größe".toList, .function, 5⟩ ∧
      opensByKeyword (codePortion commentedHeader) ∧
      (Scan.start.opened commentedHeader).frames = [⟨0, 0⟩] := by
  have defined : definition? commentedHeader = some ⟨"größe".toList, .function, 5⟩ := by
    decide +kernel
  obtain ⟨opening, pushes⟩ :=
    (definition_and_block_agree commentedHeader).2.2.2 _ defined (by decide)
  exact ⟨defined, opening, (pushes .start).1⟩

end VibeLens.Outline
