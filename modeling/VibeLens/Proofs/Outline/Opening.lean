import Mathlib.Data.List.TakeWhile
import Mathlib.Data.Option.Basic
import VibeLens.Outline.Line

set_option autoImplicit false

/-!
A line that defines something which can own other symbols opens a block. Definitions are read off the
line as it stands and blocks off its code portion, so it has to be shown that emptying literals and
dropping the comment never reach the keyword of a definition.
-/

namespace VibeLens

namespace Text

theorem exists_of_inRanges {ranges : List (Nat × Nat)} {n : Nat} (h : inRanges ranges n) :
    ∃ r ∈ ranges, r.1 ≤ n ∧ n ≤ r.2 := by
  fun_induction inRanges ranges n with
  | case1 => simp at h
  | case2 => simp at h
  | case3 lo hi rest n above upto => exact ⟨(lo, hi), by simp, by omega, upto⟩
  | case4 lo hi rest n above beyond ih =>
    obtain ⟨r, mem, within⟩ := ih h
    exact ⟨r, List.mem_cons_of_mem _ mem, within⟩

theorem ranges_apart : ∀ blank ∈ blankRanges, ∀ word ∈ wordRanges,
    blank.2 < word.1 ∨ word.2 < blank.1 := by
  decide +kernel

theorem isWord_eq_false_of_isBlank {c : Char} (h : isBlank c) : isWord c = false := by
  rw [← Bool.not_eq_true]
  intro word
  obtain ⟨b, hb, blank⟩ := exists_of_inRanges h
  obtain ⟨w, hw, within⟩ := exists_of_inRanges word
  have := ranges_apart b hb w hw
  omega

end Text

namespace Outline

open Text

/-! ### What the code portion leaves alone -/

/-- The character neither starts a literal nor a comment. -/
def isPlain (c : Char) : Bool := c ≠ '"' && c ≠ '\'' && c ≠ '#'

theorem isPlain_eq_false_iff {c : Char} :
    isPlain c = false ↔ (c = '"' ∨ c = '\'') ∨ c = '#' := by
  simp [isPlain, imp_iff_not_or]

theorem emptyLiterals_append {plain : List Char} (h : ∀ c ∈ plain, isPlain c)
    (rest : List Char) : emptyLiterals (plain ++ rest) = plain ++ emptyLiterals rest := by
  induction plain with
  | nil => rfl
  | cons c plain ih =>
    have head := h c List.mem_cons_self
    simp only [isPlain, Bool.and_eq_true, decide_eq_true_eq] at head
    rw [List.cons_append, emptyLiterals, if_neg (by simp [head.1]),
      ih fun d hd => h d (List.mem_cons_of_mem _ hd), List.cons_append]

theorem codePortion_append {plain : List Char} (h : ∀ c ∈ plain, isPlain c)
    (rest : List Char) : codePortion (plain ++ rest) = plain ++ codePortion rest := by
  rw [codePortion, emptyLiterals_append h, List.takeWhile_append_of_pos, codePortion]
  intro c hc
  have plain := h c hc
  simp only [isPlain, Bool.and_eq_true] at plain
  exact plain.2

theorem isPlain_of_isBlank {c : Char} (h : isBlank c) : isPlain c := by
  simp only [isPlain, Bool.and_eq_true, decide_eq_true_eq]
  refine ⟨⟨?_, ?_⟩, ?_⟩
  all_goals
    rintro rfl
    revert h
    decide

theorem skipBlanks_append {blanks : List Char} (h : ∀ c ∈ blanks, isBlank c)
    (rest : List Char) : skipBlanks (blanks ++ rest) = skipBlanks rest :=
  List.dropWhile_append_of_pos h

theorem skipBlanks_of_head? {line : List Char} (h : line.head?.any (!isBlank ·)) :
    skipBlanks line = line := by
  cases line with
  | nil => rfl
  | cons c rest => exact List.dropWhile_cons_of_neg (by simpa using h)

/-- What a line starts with, after blanks, its code portion starts with too. -/
theorem skipBlanks_codePortion {line start rest : List Char}
    (plain : ∀ c ∈ start, isPlain c) (head : start.head?.any (!isBlank ·))
    (h : skipBlanks line = start ++ rest) :
    skipBlanks (codePortion line) = start ++ codePortion rest := by
  have indent : ∀ c ∈ line.takeWhile isBlank, isBlank c := fun c hc =>
    List.mem_takeWhile_imp hc
  have split : line = line.takeWhile isBlank ++ (start ++ rest) := by
    rw [← h]
    exact List.takeWhile_append_dropWhile.symm
  rw [split, codePortion_append fun c hc => isPlain_of_isBlank (indent c hc),
    codePortion_append plain, skipBlanks_append indent]
  apply skipBlanks_of_head?
  cases start with
  | nil => simp at head
  | cons c more => exact head

/-! ### Definitions stand behind a keyword -/

theorem eq_append_of_word? {word line rest : List Char} (h : word? word line = some rest) :
    line = word ++ rest := by
  rw [word?] at h
  split at h
  · rename_i starts
    obtain ⟨tail, rfl⟩ := List.isPrefixOf_iff_prefix.mp starts
    simpa using h
  · cases h

@[simp] theorem word?_append (word rest : List Char) :
    word? word (word ++ rest) = some rest := by
  simp [word?]

theorem exists_of_blanks? {line rest : List Char} (h : blanks? line = some rest) :
    ∃ c tail, line = c :: tail ∧ isBlank c ∧ rest = skipBlanks tail := by
  cases line with
  | nil => cases h
  | cons c tail =>
    rw [blanks?] at h
    split at h
    · rename_i blank
      exact ⟨c, tail, rfl, blank, (Option.some.inj h).symm⟩
    · cases h

theorem Form.exists_of_match? {form : Form} {line : List Char} {d : Definition}
    (h : form.match? line = some d) :
    d.kind = form.kind ∧
      ∃ c rest, isBlank c ∧ skipBlanks line = form.keyword ++ c :: rest := by
  simp only [Form.match?, bind, Option.bind_eq_some_iff, pure] at h
  obtain ⟨behind, keyword, rest, blanks, initial, -, -, -, -, -, found⟩ := h
  obtain ⟨c, tail, rfl, blank, -⟩ := exists_of_blanks? blanks
  refine ⟨?_, c, tail, blank, eq_append_of_word? keyword⟩
  rw [← Option.some.inj found]

/-- The keyword of a form whose definitions can own others is a block keyword, and all of it is
left by the code portion. -/
theorem keyword_of_isScoped : ∀ form ∈ forms, form.kind.isScoped →
    form.keyword ∈ openers ∧ form.keyword.all isPlain ∧
      form.keyword.head?.any (!isBlank ·) := by
  decide

theorem openerAhead_of_mem {keyword rest : List Char} {c : Char} (opener : keyword ∈ openers)
    (blank : isBlank c) : openerAhead (keyword ++ c :: rest) := by
  rw [openerAhead, List.any_eq_true]
  refine ⟨keyword, opener, ?_⟩
  rw [word?_append, Option.any_some, wordEnds, isWord_eq_false_of_isBlank blank]
  rfl

theorem opensByKeyword_of_definition? {line : List Char} {d : Definition}
    (defined : definition? line = some d) (owning : d.kind.isScoped) :
    opensByKeyword (codePortion line) := by
  obtain ⟨form, mem, found⟩ := List.exists_of_findSome?_eq_some defined
  obtain ⟨kind, c, rest, blank, start⟩ := Form.exists_of_match? found
  obtain ⟨opener, plain, head⟩ := keyword_of_isScoped form mem (kind ▸ owning)
  have code : skipBlanks (codePortion line) = (form.keyword ++ [c]) ++ codePortion rest := by
    apply skipBlanks_codePortion
    · intro x hx
      rcases List.mem_append.mp hx with hx | hx
      · exact List.all_eq_true.mp plain x hx
      · exact List.mem_singleton.mp hx ▸ isPlain_of_isBlank blank
    · cases keyword : form.keyword with
      | nil => simp [keyword] at head
      | cons k more => simpa [keyword] using head
    · rw [start, List.append_assoc, List.singleton_append]
  rw [List.append_assoc, List.singleton_append] at code
  rw [opensByKeyword, code, openerAhead_of_mem opener blank]
  rfl

theorem opens_of_definition? {line : List Char} {d : Definition}
    (defined : definition? line = some d) (owning : d.kind.isScoped) :
    opens (codePortion line) := by
  rw [opens, opensByKeyword_of_definition? defined owning, Bool.true_or]

end Outline
end VibeLens
