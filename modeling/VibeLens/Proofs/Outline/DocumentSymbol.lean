import VibeLens.Proofs.Editor.Range
import VibeLens.Proofs.Outline.BlockMatching
import VibeLens.Proofs.Outline.Opening

set_option autoImplicit false

/-!
Every outline is a tree of symbols that an editor can take. The start of a symbol comes from the
reading of its name, its end from the length of a line that may stand much further down, and the two
meet on one line when a block is closed where it is opened; the name always fits between them.
-/

namespace VibeLens.Outline

open Text

/-! ### The name on its line -/

section Name

variable {line rest word : List Char} {d : Definition}

theorem suffix_of_word? (h : word? word line = some rest) : rest <:+ line := by
  rw [eq_append_of_word? h]
  exact List.suffix_append word rest

theorem suffix_of_blanks? (h : blanks? line = some rest) : rest <:+ line := by
  obtain ⟨c, tail, rfl, -, rfl⟩ := exists_of_blanks? h
  exact (List.dropWhile_suffix isBlank).trans (List.suffix_cons c tail)

/-- What is left behind the first word of a line and the blanks after it. -/
theorem suffix_behind_word {behind : List Char} (first : word? word (skipBlanks line) = some behind)
    (blanks : blanks? behind = some rest) : rest <:+ line := by
  apply (suffix_of_blanks? blanks).trans
  apply (suffix_of_word? first).trans
  exact List.dropWhile_suffix isBlank

/-- What is left of a line starts at the column that the lengths give. -/
theorem drop_sub_length (h : rest <:+ line) : line.drop (line.length - rest.length) = rest :=
  (List.suffix_iff_eq_drop.mp h).symm

theorem Form.name_of_match? {form : Form} (h : form.match? line = some d) :
    d.name ≠ [] ∧ d.name <+: line.drop d.column := by
  simp only [Form.match?, bind, Option.bind_eq_some_iff, pure] at h
  obtain ⟨behind, keyword, rest, blanks, initial, head, -, -, -, -, found⟩ := h
  cases rest with
  | nil => cases head
  | cons c tail =>
    cases head
    cases found
    refine ⟨List.cons_ne_nil _ _, ?_⟩
    rw [drop_sub_length (suffix_behind_word keyword blanks)]
    exact List.cons_prefix_cons.mpr ⟨rfl, List.takeWhile_prefix form.inner⟩

theorem name_of_definition? (h : definition? line = some d) :
    d.name ≠ [] ∧ d.name <+: line.drop d.column := by
  obtain ⟨form, -, found⟩ := List.exists_of_findSome?_eq_some h
  exact Form.name_of_match? found

end Name

/-! ### Symbols as an editor takes them -/

structure Fits (lines : List (List Char)) (s : Symbol) : Prop where
  stop_line : s.stop.line < lines.length
  stop_column : lines[s.stop.line]?.map List.length = some s.stop.column
  /-- The name stands where the symbol starts. -/
  named : lines[s.start.line]?.map (fun line => (line.drop s.start.column).take s.name.length) =
    some s.name.toList
  forwards : s.start ≤ s.stop
  /-- The name that the editor selects lies inside the range, from its start on. -/
  selected : ∃ range selection : Range,
    (s.toEditor.member? "range").bind Json.range? = some range ∧
      range.start = s.start ∧ range.stop = s.stop ∧
      (s.toEditor.member? "selectionRange").bind Json.range? = some selection ∧
      selection.start = range.start ∧ selection.stop ≤ range.stop
  nested : s.toEditor.member? "children" = some (.arr (s.children.map Symbol.toEditor))

section Fits

variable {lines : List (List Char)} {s : Symbol}

theorem exists_line_of_mem_nodes (h : s ∈ Symbol.nodes (ofLines lines)) :
    ∃ line, lines[s.start.line]? = some line ∧ s.name.toList ≠ [] ∧
      s.name.toList <+: line.drop s.start.column := by
  obtain ⟨d, defined, name, -, column⟩ := recorded_of_mem_nodes h
  obtain ⟨line, here, found⟩ := Option.bind_eq_some_iff.mp defined
  refine ⟨line, here, ?_⟩
  rw [name, column, String.toList_ofList]
  exact name_of_definition? found

/-- A symbol ends with its own line or with a later one. -/
theorem exists_stop_eq_lineEnd (h : s ∈ Symbol.nodes (ofLines lines)) :
    ∃ j, s.start.line ≤ j ∧ j < lines.length ∧ s.stop = lineEnd lines j := by
  have inside := lineOf_lt_length h
  have stop := stop_of_mem_nodes h
  cases owning : s.kind.isScoped with
  | false =>
    rw [if_neg (by simp [owning])] at stop
    exact ⟨_, le_rfl, inside, stop⟩
  | true =>
    rw [if_pos owning] at stop
    cases closing : closingLine? lines (lineOf s) with
    | none =>
      rw [closing, Option.getD_none] at stop
      exact ⟨_, le_rfl, inside, stop⟩
    | some j =>
      rw [closing, Option.getD_some] at stop
      obtain ⟨lower, upper, -⟩ := (closingLine?_eq_some_iff.mp closing).1
      exact ⟨j, lower, upper, stop⟩

theorem nameStop_le_stop (h : s ∈ Symbol.nodes (ofLines lines)) : s.nameStop ≤ s.stop := by
  obtain ⟨line, here, nonempty, name⟩ := exists_line_of_mem_nodes h
  obtain ⟨j, lower, -, stop⟩ := exists_stop_eq_lineEnd h
  rw [stop]
  rcases lower.lt_or_eq with later | rfl
  · exact .inl later
  · -- The block closes where it opens, and the name is part of that line.
    refine .inr ⟨rfl, ?_⟩
    have fits := name.length_le
    have := List.length_pos_iff.mpr nonempty
    rw [List.length_drop, String.length_toList] at fits
    rw [String.length_toList] at this
    simp only [lineEnd, Symbol.nameStop, here, Option.getD_some]
    omega

end Fits

/-- Every symbol of an outline, at whatever depth, is one that an editor can take. -/
theorem ofContent_fits (content : Content) :
    ∀ s ∈ Symbol.nodes (ofContent content), Fits content.lines s := by
  intro s hs
  obtain ⟨line, here, -, name⟩ := exists_line_of_mem_nodes hs
  obtain ⟨j, -, inside, stop⟩ := exists_stop_eq_lineEnd hs
  have last := nameStop_le_stop hs
  constructor
  case stop_line =>
    rw [stop]
    exact inside
  case stop_column =>
    rw [stop, lineEnd, List.getElem?_eq_getElem inside]
    rfl
  case named =>
    rw [here, Option.map_some, ← String.length_toList, ← List.prefix_iff_eq_take.mp name]
  case forwards => exact Position.le_trans s.start_le_nameStop last
  case selected =>
    exact ⟨_, _, s.range?_toEditor, rfl, rfl, s.selectionRange?_toEditor, rfl, last⟩
  case nested => exact s.children?_toEditor

def oneLineMethod : Content := .text "class Tür\r\n  def größe() end\nend".toList

theorem ofContent_oneLineMethod : ofContent oneLineMethod =
    [⟨"Tür", .classType, ⟨0, 6⟩, ⟨2, 3⟩, [⟨"größe", .function, ⟨1, 6⟩, ⟨1, 17⟩, []⟩]⟩] := by
  have entries : (Scan.run oneLineMethod.lines).entries =
      [⟨"größe", .function, ⟨1, 6⟩, ⟨1, 17⟩, some 0⟩,
       ⟨"Tür", .classType, ⟨0, 6⟩, ⟨2, 3⟩, none⟩] := by
    decide +kernel
  rw [ofContent, ofLines, entries]
  rfl

theorem ofContent_fits_one_line_method :
    ⟨"größe", .function, ⟨1, 6⟩, ⟨1, 17⟩, []⟩ ∈ Symbol.nodes (ofContent oneLineMethod) ∧
      Fits oneLineMethod.lines ⟨"größe", .function, ⟨1, 6⟩, ⟨1, 17⟩, []⟩ := by
  have mem : ⟨"größe", .function, ⟨1, 6⟩, ⟨1, 17⟩, []⟩ ∈
      Symbol.nodes (ofContent oneLineMethod) := by
    rw [ofContent_oneLineMethod]
    exact .tail _ (.head _)
  exact ⟨mem, ofContent_fits oneLineMethod _ mem⟩

end VibeLens.Outline
