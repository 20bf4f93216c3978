import VibeLens.Proofs.Text.Joining

set_option autoImplicit false

/-!
Line breaks. A text is woven of its rows and of the breaks between them, and each break is read as
long as it can be: a return with a feed behind it is one break. So rows and breaks are known from the
text, and which breaks stand between the rows does not matter to the rows. All of this holds of
characters and of bytes alike.
-/

namespace VibeLens.Text

class BreakSymbols (α : Type) where
  ret : α
  feed : α
  ret_ne_feed : ret ≠ feed

open BreakSymbols

instance : BreakSymbols Char := ⟨'\r', '\n', by decide⟩

instance : BreakSymbols UInt8 := ⟨13, 10, by decide⟩

inductive LineBreak where
  | returnFeed
  | ret
  | feed
  deriving DecidableEq, Repr

variable {α : Type} [BreakSymbols α]

def LineBreak.symbols : LineBreak → List α
  | returnFeed => [BreakSymbols.ret, BreakSymbols.feed]
  | ret => [BreakSymbols.ret]
  | feed => [BreakSymbols.feed]

/-- A row holds no part of a line break. -/
def IsRow (row : List α) : Prop := ret ∉ row ∧ feed ∉ row

/-- The text is made of the rows, with one of the breaks between each two. A return that is a break
of its own does not stand right before a feed. -/
inductive Woven : (rows : List (List α)) → (breaks : List LineBreak) → (text : List α) → Prop
  | last (row : List α) : Woven [row] [] row
  | next {rows : List (List α)} {breaks : List LineBreak} {text : List α} (row : List α)
      (b : LineBreak) : (b = .ret → text.head? ≠ some feed) → Woven rows breaks text →
      Woven (row :: rows) (b :: breaks) (row ++ (b.symbols ++ text))

variable {rows : List (List α)} {breaks : List LineBreak} {row text : List α}

theorem isRow_cons_iff {a : α} : IsRow (a :: row) ↔ a ≠ ret ∧ a ≠ feed ∧ IsRow row := by
  simp only [IsRow, List.mem_cons, not_or]
  constructor
  · rintro ⟨⟨notReturn, returns⟩, notFeed, feeds⟩
    exact ⟨Ne.symm notReturn, Ne.symm notFeed, returns, feeds⟩
  · rintro ⟨notReturn, notFeed, returns, feeds⟩
    exact ⟨⟨Ne.symm notReturn, returns⟩, Ne.symm notFeed, feeds⟩

theorem Woven.length_breaks (woven : Woven rows breaks text) : breaks.length + 1 = rows.length := by
  induction woven with
  | last row => rfl
  | next row b _ _ ih => rw [List.length_cons, ih, List.length_cons]

theorem Woven.cons (woven : Woven rows breaks text) (a : α) :
    Woven (rows.modifyHead (a :: ·)) breaks (a :: text) := by
  cases woven with
  | last => exact .last (a :: text)
  | next row b whole later => exact .next (a :: row) b whole later

theorem symbols_append_inj {b b' : LineBreak} {text' : List α}
    (whole : b = .ret → text.head? ≠ some feed) (whole' : b' = .ret → text'.head? ≠ some feed)
    (same : b.symbols ++ text = b'.symbols ++ text') : b = b' ∧ text = text' := by
  have differ := ret_ne_feed (α := α)
  have differ' := differ.symm
  cases b <;> cases b' <;> simp_all [LineBreak.symbols]
  all_goals (subst same; simp_all)

theorem Woven.breaks_unique (woven : Woven rows breaks text) {breaks' : List LineBreak}
    {text' : List α} (woven' : Woven rows breaks' text') (same : text = text') :
    breaks = breaks' := by
  induction woven generalizing breaks' text' with
  | last row =>
    cases woven' with
    | last => rfl
    | next _ _ _ later => nomatch later
  | next row b whole woven ih =>
    cases woven' with
    | last => nomatch woven
    | next _ b' whole' later =>
      obtain ⟨rfl, rest⟩ := symbols_append_inj whole whole' (List.append_cancel_left same)
      rw [ih later rest]

/-! ### Breaks of one style -/

theorem head?_intercalate_ne_feed {rows : List (List α)} (isRow : ∀ row ∈ rows, IsRow row) :
    (LineBreak.ret.symbols.intercalate rows).head? ≠ some feed := by
  cases rows with
  | nil => nofun
  | cons row rows =>
    have first : row.head? ≠ some feed := fun head =>
      (isRow row List.mem_cons_self).2 (List.mem_of_head? head)
    cases rows with
    | nil => rwa [List.intercalate_singleton]
    | cons next rows =>
      rw [List.intercalate_cons_cons, List.append_assoc]
      cases row with
      | nil => simp [LineBreak.symbols, ret_ne_feed]
      | cons a row => exact first

theorem woven_intercalate (style : LineBreak) {rows : List (List α)}
    (isRow : ∀ row ∈ rows, IsRow row) (nonempty : rows ≠ []) :
    Woven rows (List.replicate (rows.length - 1) style) (style.symbols.intercalate rows) := by
  induction rows with
  | nil => exact absurd rfl nonempty
  | cons row rows ih =>
    cases rows with
    | nil => exact List.intercalate_singleton ▸ .last row
    | cons next rows =>
      have later := (List.forall_mem_cons.mp isRow).2
      rw [List.intercalate_cons_cons, List.append_assoc]
      refine .next row style ?_ (ih later (List.cons_ne_nil _ _))
      rintro rfl
      exact head?_intercalate_ne_feed later

theorem intercalate_modifyHead {β : Type} (between : List β) (a : β) {rows : List (List β)}
    (nonempty : rows ≠ []) :
    between.intercalate (rows.modifyHead (a :: ·)) = a :: between.intercalate rows := by
  cases rows with
  | nil => exact absurd rfl nonempty
  | cons row rows => cases rows <;> simp [List.intercalate_cons_cons]

section Cutting

variable [DecidableEq α]

/-- Cuts at every return with a feed behind it, every other return and every other feed. -/
def cut : List α → List (List α)
  | [] => [[]]
  | [a] => if a = ret ∨ a = feed then [[], []] else [[a]]
  | a :: b :: rest =>
    if a = ret ∧ b = feed then [] :: cut rest
    else if a = ret ∨ a = feed then [] :: cut (b :: rest)
    else (cut (b :: rest)).modifyHead (a :: ·)

/-- Writes every line break in the same way. -/
def convert (style : LineBreak) : List α → List α
  | [] => []
  | [a] => if a = ret ∨ a = feed then style.symbols else [a]
  | a :: b :: rest =>
    if a = ret ∧ b = feed then style.symbols ++ convert style rest
    else if a = ret ∨ a = feed then style.symbols ++ convert style (b :: rest)
    else a :: convert style (b :: rest)

/-! ### Cutting what was woven -/

theorem cut_cons {a : α} (notReturn : a ≠ ret) (notFeed : a ≠ feed) (text : List α) :
    cut (a :: text) = (cut text).modifyHead (a :: ·) := by
  cases text <;> simp [cut, notReturn, notFeed]

theorem cut_append (isRow : IsRow row) (text : List α) :
    cut (row ++ text) = (cut text).modifyHead (row ++ ·) := by
  induction row with
  | nil => exact (congrFun List.modifyHead_id (cut text)).symm
  | cons a row ih =>
    obtain ⟨notReturn, notFeed, later⟩ := isRow_cons_iff.mp isRow
    rw [List.cons_append, cut_cons notReturn notFeed, ih later, List.modifyHead_modifyHead]
    rfl

theorem cut_break {b : LineBreak} (whole : b = .ret → text.head? ≠ some feed) :
    cut (b.symbols ++ text) = [] :: cut text := by
  have differ := (ret_ne_feed (α := α)).symm
  cases b with
  | returnFeed => simp [LineBreak.symbols, cut]
  | ret =>
    have alone := whole rfl
    cases text <;> simp_all [LineBreak.symbols, cut]
  | feed => cases text <;> simp [LineBreak.symbols, cut, differ]

theorem Woven.cut_eq (woven : Woven rows breaks text) (isRow : ∀ row ∈ rows, IsRow row) :
    cut text = rows := by
  induction woven with
  | last row =>
    have alone := cut_append (isRow row List.mem_cons_self) []
    rwa [List.append_nil, cut, List.modifyHead_cons, List.append_nil] at alone
  | next row b whole _ ih =>
    obtain ⟨first, later⟩ := List.forall_mem_cons.mp isRow
    rw [cut_append first, cut_break whole, ih later, List.modifyHead_cons, List.append_nil]

/-! ### Weaving what was cut -/

theorem exists_woven_cut (text : List α) : ∃ breaks, Woven (cut text) breaks text := by
  fun_induction cut text with
  | case1 => exact ⟨[], .last []⟩
  | case2 a lineBreak =>
    rcases lineBreak with rfl | rfl
    · exact ⟨[.ret], .next [] .ret (by simp) (.last [])⟩
    · exact ⟨[.feed], .next [] .feed (by simp) (.last [])⟩
  | case3 a plain => exact ⟨[], .last [a]⟩
  | case4 a b rest pair ih =>
    obtain ⟨breaks, woven⟩ := ih
    obtain ⟨rfl, rfl⟩ := pair
    exact ⟨.returnFeed :: breaks, .next [] .returnFeed (by simp) woven⟩
  | case5 a b rest notPair lineBreak ih =>
    obtain ⟨breaks, woven⟩ := ih
    rcases lineBreak with rfl | rfl
    · exact ⟨.ret :: breaks, .next [] .ret (by simpa using notPair) woven⟩
    · exact ⟨.feed :: breaks, .next [] .feed (by simp) woven⟩
  | case6 a b rest notPair plain ih =>
    obtain ⟨breaks, woven⟩ := ih
    exact ⟨breaks, woven.cons a⟩

theorem isRow_of_mem_cut (h : row ∈ cut text) : IsRow row := by
  have nothing : IsRow ([] : List α) := ⟨List.not_mem_nil, List.not_mem_nil⟩
  fun_induction cut text generalizing row with
  | case1 => exact List.mem_singleton.mp h ▸ nothing
  | case2 a lineBreak =>
    have empty : row = [] := by simpa using h
    exact empty ▸ nothing
  | case3 a plain =>
    rw [not_or] at plain
    rw [List.mem_singleton.mp h]
    exact isRow_cons_iff.mpr ⟨plain.1, plain.2, nothing⟩
  | case4 a b rest pair ih =>
    rcases List.mem_cons.mp h with rfl | h
    · exact nothing
    · exact ih h
  | case5 a b rest notPair lineBreak ih =>
    rcases List.mem_cons.mp h with rfl | h
    · exact nothing
    · exact ih h
  | case6 a b rest notPair plain ih =>
    rw [not_or] at plain
    cases rows : cut (b :: rest) with
    | nil => simp [rows] at h
    | cons first others =>
      rw [rows] at h ih
      rcases List.mem_cons.mp h with rfl | h
      · exact isRow_cons_iff.mpr ⟨plain.1, plain.2, ih List.mem_cons_self⟩
      · exact ih (List.mem_cons_of_mem _ h)

theorem cut_ne_nil (text : List α) : cut text ≠ [] := by
  obtain ⟨breaks, woven⟩ := exists_woven_cut text
  intro empty
  rw [empty] at woven
  nomatch woven

theorem convert_eq_intercalate (style : LineBreak) (text : List α) :
    convert style text = style.symbols.intercalate (cut text) := by
  fun_induction cut text with
  | case1 => rfl
  | case2 a lineBreak => simp [convert, lineBreak, List.intercalate_cons_cons]
  | case3 a plain => simp [convert, plain]
  | case4 a b rest pair ih =>
    rw [convert, if_pos pair, ih, List.intercalate_cons_of_ne_nil (cut_ne_nil rest)]
    rfl
  | case5 a b rest notPair lineBreak ih =>
    rw [convert, if_neg notPair, if_pos lineBreak, ih,
      List.intercalate_cons_of_ne_nil (cut_ne_nil (b :: rest))]
    rfl
  | case6 a b rest notPair plain ih =>
    rw [convert, if_neg notPair, if_neg plain, ih, intercalate_modifyHead _ _ (cut_ne_nil _)]

end Cutting

/-! ### Lines are the rows of characters -/

theorem lines_eq_cut (text : List Char) : lines text = cut text := by
  fun_induction cut text with
  | case1 => rfl
  | case2 c lineBreak => rcases lineBreak with rfl | rfl <;> rfl
  | case3 c plain =>
    rw [not_or] at plain
    exact (unbroken_nil.cons plain.1 plain.2).lines_eq
  | case4 c d rest pair ih =>
    obtain ⟨rfl, rfl⟩ := pair
    rw [← ih]
    exact lines_append_returnFeed [] rest
  | case5 c d rest notPair lineBreak ih =>
    rw [← ih]
    rcases lineBreak with rfl | rfl
    · exact lines_return fun feeds => notPair ⟨rfl, Option.some.inj feeds⟩
    · rfl
  | case6 c d rest notPair plain ih =>
    rw [not_or] at plain
    rw [← ih]
    exact lines_cons plain.1 plain.2 (d :: rest)

theorem Woven.lines_eq {rows : List (List Char)} {breaks : List LineBreak} {text : List Char}
    (woven : Woven rows breaks text) (unbroken : ∀ line ∈ rows, Unbroken line) :
    lines text = rows := by
  rw [lines_eq_cut]
  exact woven.cut_eq unbroken

theorem exists_woven_lines (text : List Char) : ∃ breaks, Woven (lines text) breaks text :=
  lines_eq_cut text ▸ exists_woven_cut text

theorem lines_intercalate (style : LineBreak) {rows : List (List Char)}
    (unbroken : ∀ line ∈ rows, Unbroken line) (nonempty : rows ≠ []) :
    lines (style.symbols.intercalate rows) = rows :=
  (woven_intercalate style unbroken nonempty).lines_eq unbroken

theorem lines_unlines {rows : List (List Char)} (unbroken : ∀ line ∈ rows, Unbroken line)
    (nonempty : rows ≠ []) : lines (unlines rows) = rows :=
  lines_intercalate .feed unbroken nonempty

theorem lines_ne_nil (text : List Char) : lines text ≠ [] := nofun

theorem lines_convert (style : LineBreak) (text : List Char) :
    lines (convert style text) = lines text := by
  rw [convert_eq_intercalate, ← lines_eq_cut]
  exact lines_intercalate style (fun _ mem => unbroken_of_mem_lines mem) (lines_ne_nil text)

end VibeLens.Text
