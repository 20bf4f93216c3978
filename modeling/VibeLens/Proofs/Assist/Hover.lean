import VibeLens.Assist.Hover
import VibeLens.Proofs.Text.Runs
import VibeLens.Table

set_option autoImplicit false

/-!
The word at a place. The words of a line are its maximal runs of word characters, and two of them
always have a character between them that is none. So a column touches at most one word, also right
behind it, and a search from left to right may end at the first word behind the column. The
documentation shown at a place is that of the builtin whose name is the word there.
-/

namespace VibeLens.Assist

open Text

/-- A word stands at its place in a line: it is a part of the line, made of word characters, and
neither the character before it nor the one behind it prolongs it. -/
structure IsWordOf (row : List Char) (w : Word) : Prop where
  slice : row.extract w.start w.stop = w.text
  ne_nil : w.text ≠ []
  inked : ∀ c ∈ w.text, isWord c
  before : ∀ i, i + 1 = w.start → ∀ c ∈ row[i]?, isWord c = false
  behind : ∀ c ∈ row[w.stop]?, isWord c = false

/-- A column lies on a word of the line or right behind it. -/
def WordAt (line : List Char) (column : Int) (w : Word) : Prop :=
  IsWordOf line w ∧ w.start ≤ column ∧ column ≤ w.stop

variable {line : List Char} {column : Int} {w w' : Word}

theorem touches_iff : w.touches column ↔ w.start ≤ column ∧ column ≤ w.stop := by
  simp [Word.touches]

/-! ### Words are apart -/

namespace IsWordOf

theorem start_lt_stop (h : IsWordOf line w) : w.start < w.stop :=
  Nat.lt_add_of_pos_right (List.length_pos_iff.mpr h.ne_nil)

theorem isWord_of_lt {row : List Char} (h : IsWordOf row w) {i : Nat} (low : w.start ≤ i)
    (high : i < w.stop) : ∃ c, row[i]? = some c ∧ isWord c := by
  obtain ⟨k, rfl⟩ := Nat.exists_eq_add_of_le low
  have inside : k < w.text.length := Nat.lt_of_add_lt_add_left high
  have here : row[w.start + k]? = w.text[k]? := by
    have kept : k < w.stop - w.start := by
      rw [Word.stop]
      omega
    rw [← h.slice, List.extract_eq_take_drop, List.getElem?_take_of_lt kept, List.getElem?_drop]
  refine ⟨w.text[k], by rw [here, List.getElem?_eq_getElem inside], ?_⟩
  exact h.inked _ (List.getElem_mem inside)

/-- A word that begins inside another, or right behind it, begins where that begins. -/
theorem start_le_start (h : IsWordOf line w) (h' : IsWordOf line w') (meets : w'.start ≤ w.stop) :
    w'.start ≤ w.start := by
  by_contra later
  obtain ⟨c, here, ink⟩ := h.isWord_of_lt (i := w'.start - 1) (by omega) (by omega)
  rw [h'.before (w'.start - 1) (by omega) c here] at ink
  cases ink

theorem stop_le_stop (h : IsWordOf line w) (h' : IsWordOf line w') (same : w'.start = w.start) :
    w'.stop ≤ w.stop := by
  by_contra longer
  have := h.start_lt_stop
  obtain ⟨c, here, ink⟩ := h'.isWord_of_lt (i := w.stop) (by omega) (by omega)
  rw [h.behind c here] at ink
  cases ink

/-- Two words of a line that meet are one. -/
theorem eq_of_meets (h : IsWordOf line w) (h' : IsWordOf line w') (meets : w.start ≤ w'.stop)
    (meets' : w'.start ≤ w.stop) : w = w' := by
  have start : w.start = w'.start :=
    Nat.le_antisymm (h'.start_le_start h meets) (h.start_le_start h' meets')
  have stop : w.stop = w'.stop :=
    Nat.le_antisymm (h'.stop_le_stop h start) (h.stop_le_stop h' start.symm)
  have text : w.text = w'.text := by rw [← h.slice, start, stop, h'.slice]
  cases w
  cases w'
  simp_all

end IsWordOf

theorem WordAt.unique (h : WordAt line column w) (h' : WordAt line column w') : w = w' := by
  obtain ⟨isWord, low, high⟩ := h
  obtain ⟨isWord', low', high'⟩ := h'
  exact isWord.eq_of_meets isWord' (by omega) (by omega)

/-! ### The words of a line -/

/-- A run of word characters is a word if what stands before it and behind it does not prolong it. -/
theorem isWordOf_append {front text rest : List Char} (nonempty : text ≠ [])
    (inked : ∀ c ∈ text, isWord c) (before : ∀ c ∈ front.getLast?, isWord c = false)
    (behind : ∀ c ∈ rest.head?, isWord c = false) :
    IsWordOf (front ++ (text ++ rest)) ⟨text, front.length⟩ where
  slice := by
    rw [List.extract_eq_take_drop, List.drop_left, Word.stop, Nat.add_sub_cancel_left,
      List.take_left]
  ne_nil := nonempty
  inked := inked
  before := by
    intro i last c here
    dsimp only at last
    have inFront : i < front.length := by omega
    apply before
    rwa [List.getLast?_eq_getElem?, ← last, Nat.add_sub_cancel, ← List.getElem?_append_left inFront]
  behind := by
    intro c here
    apply behind
    rwa [← List.append_assoc, Word.stop, ← List.length_append,
      List.getElem?_append_right (Nat.le_refl _), Nat.sub_self, ← List.head?_eq_getElem?] at here

/-- Every run that is found is a word, unless the first one prolongs what stands before it. -/
theorem isWordOf_of_mem_wordsFrom {start : Nat} {front rest : List Char} (here : start = front.length)
    (apart : (∀ c ∈ front.getLast?, isWord c = false) ∨ ∀ c ∈ rest.head?, isWord c = false)
    (h : w ∈ wordsFrom start rest) : IsWordOf (front ++ rest) w := by
  fun_induction wordsFrom start rest generalizing front with
  | case1 => cases h
  | case2 start c rest ink tail =>
    rename_i ih
    have before : ∀ c ∈ front.getLast?, isWord c = false := by
      rcases apart with before | noInk
      · exact before
      · cases ink.symm.trans (noInk c rfl)
    have split : front ++ c :: rest = front ++ (c :: tail ++ rest.dropWhile isWord) := by
      rw [List.cons_append, List.takeWhile_append_dropWhile]
    rw [split]
    rcases List.mem_cons.mp h with rfl | h
    · rw [here]
      refine isWordOf_append (List.cons_ne_nil c tail) ?_ before (stop_dropWhile rest)
      exact List.forall_mem_cons.mpr ⟨ink, fun d hd => List.mem_takeWhile_imp hd⟩
    · rw [← List.append_assoc]
      refine ih ?_ (.inr (stop_dropWhile rest)) h
      simp only [here, List.length_append, List.length_cons]
      omega
  | case3 start c rest noInk ih =>
    rw [List.append_cons]
    refine ih ?_ (.inl ?_) h
    · rw [here, List.length_append, List.length_singleton]
    · simpa using noInk

/-- Every word character belongs to a run that is found. -/
theorem exists_mem_wordsFrom {start : Nat} {rest : List Char} {i : Nat} {c : Char}
    (here : rest[i]? = some c) (ink : isWord c) :
    ∃ w ∈ wordsFrom start rest, w.start ≤ start + i ∧ start + i < w.stop := by
  fun_induction wordsFrom start rest generalizing i with
  | case1 => cases here
  | case2 start d rest _ tail =>
    rename_i ih
    by_cases inside : i ≤ tail.length
    · refine ⟨_, List.mem_cons_self, Nat.le_add_right start i, ?_⟩
      simp only [Word.stop, List.length_cons]
      omega
    · obtain ⟨k, rfl⟩ := Nat.exists_eq_add_of_lt (Nat.lt_of_not_le inside)
      have later : (rest.dropWhile isWord)[k]? = some c := by
        have split : d :: rest = d :: tail ++ rest.dropWhile isWord := by
          rw [List.cons_append, List.takeWhile_append_dropWhile]
        rw [split, List.getElem?_append_right (by rw [List.length_cons]; omega)] at here
        rw [← here, List.length_cons]
        congr 1
        omega
      obtain ⟨w, found, low, high⟩ := ih later
      exact ⟨w, List.mem_cons_of_mem _ found, by omega, by omega⟩
  | case3 start d rest noInk ih =>
    cases i with
    | zero =>
      cases Option.some.inj here
      exact absurd ink noInk
    | succ i =>
      obtain ⟨w, found, low, high⟩ := ih here
      exact ⟨w, found, by omega, by omega⟩

theorem mem_words_iff : w ∈ words line ↔ IsWordOf line w := by
  have sound {w : Word} (found : w ∈ words line) : IsWordOf ([] ++ line) w :=
    isWordOf_of_mem_wordsFrom rfl (.inl nofun) found
  refine ⟨sound, fun isWord => ?_⟩
  obtain ⟨c, here, ink⟩ := isWord.isWord_of_lt (Nat.le_refl _) isWord.start_lt_stop
  have covered : ∃ run ∈ words line, run.start ≤ 0 + w.start ∧ 0 + w.start < run.stop :=
    exists_mem_wordsFrom here ink
  obtain ⟨run, found, low, high⟩ := covered
  have := isWord.start_lt_stop
  have same : w = run := isWord.eq_of_meets (sound found) (by omega) (by omega)
  exact same ▸ found

theorem start_le_of_mem_wordsFrom {start : Nat} {rest : List Char} (h : w ∈ wordsFrom start rest) :
    start ≤ w.start := by
  fun_induction wordsFrom start rest with
  | case1 => cases h
  | case2 start c rest _ tail =>
    rename_i ih
    rcases List.mem_cons.mp h with rfl | h
    · exact Nat.le_refl _
    · have := ih h
      omega
  | case3 start c rest _ ih =>
    have := ih h
    omega

/-- The words of a line are found from left to right. -/
theorem pairwise_wordsFrom (start : Nat) (rest : List Char) :
    (wordsFrom start rest).Pairwise fun w w' => w.start < w'.start := by
  fun_induction wordsFrom start rest with
  | case1 => exact .nil
  | case2 start c rest _ tail =>
    rename_i ih
    refine List.pairwise_cons.mpr ⟨fun w later => ?_, ih⟩
    have := start_le_of_mem_wordsFrom later
    dsimp only
    omega
  | case3 start c rest _ ih => exact ih

/-! ### The word that a column touches -/

theorem of_firstTouched?_eq_some {found : List Word} (h : firstTouched? column found = some w) :
    w ∈ found ∧ w.touches column := by
  fun_induction firstTouched? column found with
  | case1 => cases h
  | case2 first rest touched =>
    cases h
    exact ⟨List.mem_cons_self, touched⟩
  | case3 => cases h
  | case4 first rest _ _ ih =>
    obtain ⟨here, touched⟩ := ih h
    exact ⟨List.mem_cons_of_mem first here, touched⟩

/-- Nothing is lost by ending the search at a word that starts behind the column. -/
theorem exists_firstTouched? {found : List Word}
    (ordered : found.Pairwise fun w w' => w.start < w'.start) (here : w ∈ found)
    (touched : w.touches column) : ∃ first, firstTouched? column found = some first := by
  fun_induction firstTouched? column found with
  | case1 => cases here
  | case2 first rest _ => exact ⟨first, rfl⟩
  | case3 first rest untouched ended =>
    obtain ⟨low, -⟩ := touches_iff.mp touched
    rcases List.mem_cons.mp here with rfl | later
    · exact absurd touched untouched
    · have := (List.pairwise_cons.mp ordered).1 w later
      omega
  | case4 first rest untouched _ ih =>
    rcases List.mem_cons.mp here with rfl | later
    · exact absurd touched untouched
    · exact ih (List.pairwise_cons.mp ordered).2 later

theorem wordAt?_eq_some_iff : wordAt? line column = some w ↔ WordAt line column w := by
  have sound {w : Word} (h : wordAt? line column = some w) : WordAt line column w := by
    obtain ⟨found, touched⟩ := of_firstTouched?_eq_some h
    exact ⟨mem_words_iff.mp found, touches_iff.mp touched⟩
  refine ⟨sound, fun h => ?_⟩
  obtain ⟨first, found⟩ := exists_firstTouched? (pairwise_wordsFrom 0 line)
    (mem_words_iff.mpr h.1) (touches_iff.mpr h.2)
  rw [h.unique (sound found)]
  exact found

/-! ### The documentation at a place -/

theorem markdown?_eq_some_iff {name contents : String} :
    markdown? name = some contents ↔ ∃ doc, (name, doc) ∈ builtins ∧ doc.markdown = contents := by
  have distinct : (builtins.map Prod.fst).Nodup := by decide
  simp only [markdown?, builtin?, Option.map_eq_some_iff, lookup_eq_some_iff_mem distinct]

theorem hover?_eq_some_iff {document : Content} {line column : Int} {h : Hover} :
    hover? document line column = some h ↔
      0 ≤ line ∧ 0 ≤ column ∧ ∃ text w doc, document.lines[line.toNat]? = some text ∧
        WordAt text column w ∧ (String.ofList w.text, doc) ∈ builtins ∧
        h = ⟨doc.markdown, line.toNat, w.start, w.stop⟩ := by
  simp only [hover?, bind, Option.bind_eq_some_iff, pure, wordAt?_eq_some_iff,
    markdown?_eq_some_iff, Option.guard_eq_some']
  constructor
  · rintro ⟨_, ⟨inLines, inLine⟩, text, known, w, isWord, _, ⟨doc, builtin, rfl⟩, shown⟩
    exact ⟨inLines, inLine, text, w, doc, known, isWord, builtin, (Option.some.inj shown).symm⟩
  · rintro ⟨inLines, inLine, text, w, doc, known, isWord, builtin, rfl⟩
    exact ⟨(), ⟨inLines, inLine⟩, text, known, w, isWord, _, ⟨doc, builtin, rfl⟩, rfl⟩

/-- The word at a column is the one word of the line that the column touches, and what is shown for a
place is the documentation of the builtin that this word names, all along the word. -/
theorem word_and_hover_exact :
    (∀ (line : List Char) (column : Int) (w : Word),
      wordAt? line column = some w ↔ WordAt line column w) ∧
    (∀ (line : List Char) (column : Int) (w w' : Word),
      WordAt line column w → WordAt line column w' → w = w') ∧
    (∀ (line : List Char) (column : Int),
      wordAt? line column = none ↔ ¬ ∃ w, WordAt line column w) ∧
    (∀ (document : Content) (line column : Int) (h : Hover),
      hover? document line column = some h ↔
        0 ≤ line ∧ 0 ≤ column ∧ ∃ text w doc, document.lines[line.toNat]? = some text ∧
          WordAt text column w ∧ (String.ofList w.text, doc) ∈ builtins ∧
          h = ⟨doc.markdown, line.toNat, w.start, w.stop⟩) ∧
    ∀ (document : Content) (line column column' : Int) (h : Hover),
      hover? document line column = some h → h.startColumn ≤ column' → column' ≤ h.endColumn →
        hover? document line column' = some h := by
  refine ⟨fun _ _ _ => wordAt?_eq_some_iff, fun _ _ _ _ h h' => h.unique h', ?_,
    fun _ _ _ _ => hover?_eq_some_iff, ?_⟩
  · intro line column
    simp only [Option.eq_none_iff_forall_ne_some, ne_eq, wordAt?_eq_some_iff, not_exists]
  · intro document line column column' h found low high
    obtain ⟨inLines, -, text, w, doc, known, ⟨isWord, -⟩, builtin, rfl⟩ :=
      hover?_eq_some_iff.mp found
    have inLine : 0 ≤ column' := Int.le_trans (Int.natCast_nonneg w.start) low
    exact hover?_eq_some_iff.mpr
      ⟨inLines, inLine, text, w, doc, known, ⟨isWord, low, high⟩, builtin, rfl⟩

/-- The column between a word and a bracket belongs to that word, and not to the word behind it. -/
theorem hover_beside_bracket :
    let line := "puts(len)".toList
    let document := Content.text ('\r' :: '\n' :: line)
    let shown : Hover :=
      ⟨"```vibe\nlen(array_or_string)\n```\n*Also:* `value.len`\n\nReturns the length.", 1, 5, 8⟩
    WordAt line 4 ⟨"puts".toList, 0⟩ ∧ ¬ WordAt line 4 ⟨"len".toList, 5⟩ ∧
      hover? document 1 5 = some shown ∧ hover? document 1 8 = some shown := by
  intro line document shown
  have puts : WordAt line 4 ⟨"puts".toList, 0⟩ :=
    (word_and_hover_exact.1 _ _ _).mp (by decide +kernel)
  have first : hover? document 1 5 = some shown := by decide +kernel
  refine ⟨puts, fun len => ?_, first, ?_⟩
  · exact absurd (word_and_hover_exact.2.1 _ _ _ _ puts len) (by decide)
  · exact word_and_hover_exact.2.2.2.2 _ _ _ _ _ first (by decide) (by decide)

end VibeLens.Assist
