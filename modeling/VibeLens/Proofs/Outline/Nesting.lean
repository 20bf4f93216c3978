import VibeLens.Proofs.Outline.DocumentSymbol
import VibeLens.Proofs.Text.Encoding
import VibeLens.Proofs.Workspace.Record

set_option autoImplicit false

/-!
How deep an outline may be nested if it is to be written. A symbol stands inside two containers more
than its parent, in the index as well as in the form for an editor, and both forms have a text up to
the same number of levels. The coordinates of symbols are bounded by the length of the document.
-/

namespace VibeLens

namespace Symbol

/-! ### Levels of a forest -/

/-- Every symbol of a forest stands at one of so many levels. -/
def NestedWithin (levels : Nat) (forest : List Symbol) : Prop :=
  ∀ entry ∈ forestListing 0 forest, entry.1 < levels

instance (levels : Nat) (forest : List Symbol) : Decidable (NestedWithin levels forest) :=
  inferInstanceAs (Decidable (∀ entry ∈ forestListing 0 forest, entry.1 < levels))

theorem forestListing_succ (depth : Nat) (forest : List Symbol) :
    forestListing (depth + 1) forest =
      (forestListing depth forest).map fun entry => (entry.1 + 1, entry.2) := by
  induction forest using forest_induction generalizing depth with
  | nil => rfl
  | cons s rest below after =>
    rw [forestListing_cons, forestListing_cons, List.map_cons, List.map_append, below, after]

theorem nestedWithin_nil (levels : Nat) : NestedWithin levels [] := List.forall_mem_nil _

theorem not_nestedWithin_zero_cons (s : Symbol) (rest : List Symbol) :
    ¬ NestedWithin 0 (s :: rest) := by
  intro nested
  rw [NestedWithin, forestListing_cons] at nested
  exact Nat.not_lt_zero _ (nested _ List.mem_cons_self)

theorem nestedWithin_succ_cons {levels : Nat} {s : Symbol} {rest : List Symbol} :
    NestedWithin (levels + 1) (s :: rest) ↔
      NestedWithin levels s.children ∧ NestedWithin (levels + 1) rest := by
  simp only [NestedWithin, forestListing_cons, forestListing_succ, List.forall_mem_cons,
    List.forall_mem_append, List.forall_mem_map, Nat.add_lt_add_iff_right, Nat.zero_lt_succ,
    true_and]

/-! ### Depth of the written forms -/

section Depth

variable {render : Symbol → Json} {base : Nat}

/-- A form of symbols that puts each child into two more containers, and that is itself `base` deep
inside these two, shows in its depth how many levels there are. -/
theorem itemsDepth_map_le_iff
    (depth : ∀ s, (render s).depth = max base (Json.itemsDepth (s.children.map render)) + 2)
    (levels : Nat) (forest : List Symbol) :
    Json.itemsDepth (forest.map render) ≤ 2 * levels + base ↔ NestedWithin levels forest := by
  induction forest using forest_induction generalizing levels with
  | nil => simp [Json.itemsDepth, nestedWithin_nil]
  | cons s rest below after =>
    rw [List.map_cons, Json.itemsDepth, Nat.max_le, after, depth]
    cases levels with
    | zero =>
      have shallow : ¬ max base (Json.itemsDepth (s.children.map render)) + 2 ≤ 2 * 0 + base := by
        omega
      simp only [shallow, false_and, not_nestedWithin_zero_cons]
    | succ levels =>
      rw [nestedWithin_succ_cons, ← below levels]
      apply and_congr_left'
      omega

theorem depth_toJson (s : Symbol) :
    s.toJson.depth = max 0 (Json.itemsDepth (s.children.map toJson)) + 2 := by
  obtain ⟨name, kind, start, stop, children⟩ := s
  rw [← forestToJson_eq_map]
  simp [toJson, Position.toJson, Json.nat, Json.depth, Json.membersDepth]

theorem depth_toEditor (s : Symbol) :
    s.toEditor.depth = max 1 (Json.itemsDepth (s.children.map toEditor)) + 2 := by
  obtain ⟨name, kind, start, stop, children⟩ := s
  rw [← forestToEditor_eq_map]
  simp only [toEditor, Position.toEditor, Json.nat, Json.depth, Json.membersDepth, nameStop]
  omega

end Depth

def levelLimit : Nat := 126

theorem depth_record_le_iff (path : String) (forest : List Symbol) :
    (OutlineRecord.mk path forest).toJson.depth ≤ Json.depthLimit ↔
      NestedWithin levelLimit forest := by
  have levels : 2 * levelLimit + 0 + 2 = Json.depthLimit := rfl
  rw [← itemsDepth_map_le_iff depth_toJson, ← forestToJson_eq_map, ← levels]
  simp [OutlineRecord.toJson, Json.depth, Json.membersDepth]

theorem depth_editor_le_iff (forest : List Symbol) :
    (Json.arr (forestToEditor forest)).depth ≤ Json.depthLimit ↔
      NestedWithin levelLimit forest := by
  have levels : 2 * levelLimit + 1 + 1 = Json.depthLimit := rfl
  rw [← itemsDepth_map_le_iff depth_toEditor, ← forestToEditor_eq_map, ← levels,
    Json.depth, Nat.add_le_add_iff_right]

/-! ### Coordinates of the written forms -/

structure FitsWords (s : Symbol) : Prop where
  start_line : s.start.line < Word.size
  name_column : s.nameStop.column < Word.size
  stop_line : s.stop.line < Word.size
  stop_column : s.stop.column < Word.size

theorem FitsWords.start_column {s : Symbol} (fits : FitsWords s) : s.start.column < Word.size :=
  Nat.lt_of_le_of_lt (Nat.le_add_right _ _) fits.name_column

/-- A form of symbols fits words if that of each symbol does as soon as those of its children do. -/
theorem itemsFit_map {render : Symbol → Json} {forest : List Symbol}
    (each : ∀ s ∈ nodes forest, Json.itemsFit (s.children.map render) → (render s).integersFit) :
    Json.itemsFit (forest.map render) := by
  induction forest using forest_induction with
  | nil => rfl
  | cons s rest below after =>
    rw [nodes_cons, List.forall_mem_cons, List.forall_mem_append] at each
    obtain ⟨first, inside, later⟩ := each
    rw [List.map_cons, Json.itemsFit, Bool.and_eq_true]
    exact ⟨first (below inside), after later⟩

theorem FitsWords.integersFit_toJson {s : Symbol} (fits : FitsWords s)
    (children : Json.itemsFit (s.children.map toJson)) : s.toJson.integersFit := by
  have word {n : Nat} (small : n < Word.size) : Word.isSignedOrUnsigned (n : Int) :=
    Word.isSignedOrUnsigned_natCast.mpr small
  have startColumn := word fits.start_column
  rw [← forestToJson_eq_map] at children
  obtain ⟨name, kind, start, stop, below⟩ := s
  simp [toJson, Position.toJson, Json.nat, Json.integersFit, Json.membersFit, children,
    startColumn, word fits.start_line, word fits.stop_line, word fits.stop_column]

theorem FitsWords.integersFit_toEditor {s : Symbol} (fits : FitsWords s)
    (children : Json.itemsFit (s.children.map toEditor)) : s.toEditor.integersFit := by
  have word {n : Nat} (small : n < Word.size) : Word.isSignedOrUnsigned (n : Int) :=
    Word.isSignedOrUnsigned_natCast.mpr small
  have kind : s.kind.editorCode < Word.size := by cases s.kind <;> decide
  have nameLine : s.nameStop.line < Word.size := fits.start_line
  have startColumn := word fits.start_column
  rw [← forestToEditor_eq_map] at children
  obtain ⟨name, kind, start, stop, below⟩ := s
  simp [toEditor, Position.toEditor, Json.nat, Json.integersFit, Json.membersFit, children,
    startColumn, word kind, word nameLine, word fits.start_line, word fits.name_column,
    word fits.stop_line, word fits.stop_column]

end Symbol

namespace Outline

open Text VibeLens.Symbol

/-- The coordinates of a symbol are bounded by the lines of the document. -/
theorem fitsWords_of_mem_nodes {lines : List (List Char)} {s : Symbol}
    (few : lines.length ≤ Word.size) (short : ∀ line ∈ lines, line.length < Word.size)
    (mem : s ∈ nodes (ofLines lines)) : FitsWords s := by
  obtain ⟨line, here, nonempty, name⟩ := exists_line_of_mem_nodes mem
  obtain ⟨j, -, inside, stop⟩ := exists_stop_eq_lineEnd mem
  constructor
  case start_line => exact Nat.lt_of_lt_of_le (lineOf_lt_length mem) few
  case name_column =>
    have fits := name.length_le
    have some := List.length_pos_iff.mpr nonempty
    rw [String.length_toList] at fits some
    rw [List.length_drop] at fits
    have ends : s.start.column + s.name.length ≤ line.length := by omega
    exact Nat.lt_of_le_of_lt ends (short line (List.mem_of_getElem? here))
  case stop_line =>
    rw [stop]
    exact Nat.lt_of_lt_of_le inside few
  case stop_column =>
    rw [stop, lineEnd, List.getElem?_eq_getElem inside]
    exact short _ (List.getElem_mem inside)

theorem fitsWords_ofContent {bytes : Utf8.Bytes} (small : bytes.length < Word.size) :
    ∀ s ∈ nodes (ofContent (.bytes bytes)), FitsWords s := by
  have decoded := Utf8.length_decode_le bytes
  intro s mem
  apply fitsWords_of_mem_nodes _ _ mem
  · exact (length_lines_le _).trans (Nat.succ_le_of_lt (Nat.lt_of_le_of_lt decoded small))
  · intro line mem
    exact Nat.lt_of_le_of_lt ((length_le_of_mem_lines mem).trans decoded) small

/-- The record of a document has a line in an index unless the outline is nested too deep. -/
theorem writable_record_iff (path : String) {bytes : Utf8.Bytes}
    (small : bytes.length < Word.size) :
    (OutlineRecord.mk path (ofContent (.bytes bytes))).toJson.writable ↔
      NestedWithin levelLimit (ofContent (.bytes bytes)) := by
  have fit : (OutlineRecord.mk path (ofContent (.bytes bytes))).toJson.integersFit := by
    have items := itemsFit_map fun s mem => (fitsWords_ofContent small s mem).integersFit_toJson
    rw [← forestToJson_eq_map] at items
    simpa [OutlineRecord.toJson, Json.integersFit, Json.membersFit] using items
  rw [Json.writable, Bool.and_eq_true, decide_eq_true_eq, depth_record_le_iff]
  exact and_iff_right fit

/-- The outline of a document has a text for an editor unless it is nested too deep. -/
theorem writable_editor_iff {bytes : Utf8.Bytes} (small : bytes.length < Word.size) :
    (Json.arr (forestToEditor (ofContent (.bytes bytes)))).writable ↔
      NestedWithin levelLimit (ofContent (.bytes bytes)) := by
  have fit : (Json.arr (forestToEditor (ofContent (.bytes bytes)))).integersFit := by
    rw [forestToEditor_eq_map]
    exact itemsFit_map fun s mem => (fitsWords_ofContent small s mem).integersFit_toEditor
  rw [Json.writable, Bool.and_eq_true, decide_eq_true_eq, depth_editor_le_iff]
  exact and_iff_right fit

end Outline
end VibeLens
