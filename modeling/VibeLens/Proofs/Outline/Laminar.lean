import VibeLens.Proofs.Outline.BlockMatching
import VibeLens.Proofs.Outline.Opening

set_option autoImplicit false

/-!
The ranges of symbols form a laminar family: of two definitions the later one starts behind the end of
the earlier or ends strictly inside it. A line changes the depth by one at most, and the line of a
definition never lowers it, so no line can end a block together with one around it.
-/

namespace VibeLens.Outline

/-! ### How a line changes the depth -/

section Depth

variable {lines : List (List Char)} {i j k a b : Nat}

theorem depthAt_succ {line : List Char} (here : lines[i]? = some line) :
    depthAt lines (i + 1) = depthAfter (depthAt lines i) line := by
  rw [depthAt, List.take_add_one, here, Option.toList_some, List.foldl_append, depthAt]
  rfl

theorem le_depthAfter_succ (depth : Nat) (line : List Char) :
    depth ≤ depthAfter depth line + 1 := by
  simp only [depthAfter]
  split <;> split <;> omega

theorem depthAt_le_succ (inside : i < lines.length) :
    depthAt lines i ≤ depthAt lines (i + 1) + 1 := by
  rw [depthAt_succ (List.getElem?_eq_getElem inside)]
  exact le_depthAfter_succ _ _

theorem le_depthAfter_of_opens {depth : Nat} {line : List Char}
    (h : opens (codePortion line)) : depth ≤ depthAfter depth line := by
  simp only [depthAfter, if_pos h]
  split <;> omega

theorem depthAt_le_of_isScopedAt (h : isScopedAt lines i) :
    depthAt lines i ≤ depthAt lines (i + 1) := by
  obtain ⟨d, defined, owning⟩ := (Option.any_eq_true _ _).mp h
  obtain ⟨line, here, defines⟩ := Option.bind_eq_some_iff.mp defined
  rw [depthAt_succ here]
  exact le_depthAfter_of_opens (opens_of_definition? defines owning)

/-- A definition inside the block of a line closes before that block does. -/
theorem exists_closingLine?_lt (closing : closingLine? lines a = some j) (after : a < b)
    (inside : b ≤ j) (owning : isScopedAt lines b) :
    ∃ k, closingLine? lines b = some k ∧ k < j := by
  obtain ⟨⟨-, bound, back⟩, least⟩ := closingLine?_eq_some_iff.mp closing
  have above : ∀ m, a < m → m ≤ j → depthAt lines a < depthAt lines m := by
    intro m lower upper
    obtain ⟨m, rfl⟩ : ∃ n, m = n + 1 := ⟨m - 1, by omega⟩
    by_contra low
    have := least ⟨by omega, by omega, not_lt.mp low⟩
    omega
  have start := above b after inside
  -- Line `j` lowers the depth by one, from right above `a`, so it is not the line of `b`.
  have drop := depthAt_le_succ bound
  have strictly : b < j := by
    rcases inside.lt_or_eq with inside | rfl
    · exact inside
    · have := depthAt_le_of_isScopedAt owning
      omega
  have returns : ReturnsAt lines b (j - 1) := by
    have last : j - 1 + 1 = j := by omega
    refine ⟨by omega, by omega, ?_⟩
    rw [last]
    omega
  cases found : closingLine? lines b with
  | none =>
    have := closingLine?_eq_none_iff.mp found (j - 1) returns.1 returns.2.1
    have := returns.2.2
    omega
  | some k =>
    have := (closingLine?_eq_some_iff.mp found).2 returns
    exact ⟨k, rfl, by omega⟩

theorem Encloses.le_of_closingLine? (h : Encloses lines k i)
    (closing : closingLine? lines k = some j) : i ≤ j := by
  obtain ⟨⟨lower, -, back⟩, -⟩ := closingLine?_eq_some_iff.mp closing
  by_contra before
  have := h.2.2 j lower (by omega)
  omega

end Depth

/-! ### Ranges of symbols -/

section Ranges

variable {lines : List (List Char)} {s a b : Symbol}

theorem isScopedAt_lineOf (h : s ∈ Symbol.nodes (ofLines lines)) :
    isScopedAt lines (lineOf s) = s.kind.isScoped := by
  obtain ⟨d, defined, -, kind, -⟩ := recorded_of_mem_nodes h
  rw [isScopedAt, defined, kind, Option.any_some]

theorem stop_line_of_mem_nodes (h : s ∈ Symbol.nodes (ofLines lines))
    (owning : s.kind.isScoped) :
    s.stop.line = (closingLine? lines (lineOf s)).getD (lineOf s) := by
  rw [stop_of_mem_nodes h, if_pos owning, lineEnd]

theorem apart_or_nested (ha : a ∈ Symbol.nodes (ofLines lines))
    (hb : b ∈ Symbol.nodes (ofLines lines)) (owning_a : a.kind.isScoped)
    (owning_b : b.kind.isScoped) (before : lineOf a < lineOf b) :
    a.stop.line < lineOf b ∨ b.stop.line < a.stop.line := by
  have stop_a := stop_line_of_mem_nodes ha owning_a
  have stop_b := stop_line_of_mem_nodes hb owning_b
  cases closing : closingLine? lines (lineOf a) with
  | none =>
    rw [closing, Option.getD_none] at stop_a
    exact .inl (stop_a ▸ before)
  | some j =>
    rw [closing, Option.getD_some] at stop_a
    by_cases inside : lineOf b ≤ j
    · rw [← isScopedAt_lineOf hb] at owning_b
      obtain ⟨k, closing_b, lt⟩ := exists_closingLine?_lt closing before inside owning_b
      rw [closing_b, Option.getD_some] at stop_b
      exact .inr (by omega)
    · exact .inl (by omega)

/-- A range that ends behind the start of another keeps its block open up to there. -/
theorem encloses_of_stop_line (ha : a ∈ Symbol.nodes (ofLines lines))
    (owning : a.kind.isScoped) {i : Nat} (before : lineOf a < i) (inside : i ≤ a.stop.line) :
    Encloses lines (lineOf a) i := by
  refine ⟨before, (isScopedAt_lineOf ha).trans owning, ?_⟩
  intro m lower upper
  rw [stop_line_of_mem_nodes ha owning] at inside
  cases closing : closingLine? lines (lineOf a) with
  | none =>
    rw [closing, Option.getD_none] at inside
    omega
  | some j =>
    rw [closing, Option.getD_some] at inside
    obtain ⟨⟨-, bound, -⟩, least⟩ := closingLine?_eq_some_iff.mp closing
    by_contra low
    have := least ⟨lower, by omega, not_lt.mp low⟩
    omega

variable {parent child : Symbol}

theorem owner?_of_mem_children (hp : parent ∈ Symbol.nodes (ofLines lines))
    (hc : child ∈ parent.children) :
    child.kind.isNestable ∧
      IsGreatest {k | Encloses lines k (lineOf child)} (lineOf parent) := by
  have mem := Symbol.mem_nodes_of_mem_children hp hc
  obtain ⟨nestable, owner⟩ :=
    ((blockMatching_ofLines lines).mem_children_iff mem hp).mp hc
  exact ⟨nestable, (owner?_eq_some_iff (lineOf_lt_length mem).le).mp owner⟩

theorem isScoped_of_isNestable {kind : Kind} (h : kind.isNestable) : kind.isScoped := by
  revert h
  cases kind <;> decide

theorem child_range (hp : parent ∈ Symbol.nodes (ofLines lines))
    (hc : child ∈ parent.children) :
    lineOf parent < lineOf child ∧
      (child.stop.line < parent.stop.line ∨ parent.stop.line = lineOf parent) := by
  obtain ⟨nestable, encloses, -⟩ := owner?_of_mem_children hp hc
  have owning : parent.kind.isScoped := (isScopedAt_lineOf hp).symm.trans encloses.2.1
  refine ⟨encloses.1, ?_⟩
  rcases apart_or_nested hp (Symbol.mem_nodes_of_mem_children hp hc) owning
    (isScoped_of_isNestable nestable) encloses.1 with apart | nested
  · right
    have stop := stop_line_of_mem_nodes hp owning
    cases closing : closingLine? lines (lineOf parent) with
    | none => rwa [closing, Option.getD_none] at stop
    | some j =>
      rw [closing, Option.getD_some] at stop
      have := encloses.le_of_closingLine? closing
      omega
  · exact .inl nested

/-- If a sibling reached into the next one it would own it. -/
theorem siblings_apart (hp : parent ∈ Symbol.nodes (ofLines lines))
    (ha : a ∈ parent.children) (hb : b ∈ parent.children) (before : lineOf a < lineOf b) :
    a.stop.line < lineOf b := by
  obtain ⟨nestable_a, encloses, -⟩ := owner?_of_mem_children hp ha
  obtain ⟨nestable_b, -, greatest⟩ := owner?_of_mem_children hp hb
  have mem_a := Symbol.mem_nodes_of_mem_children hp ha
  have owning := isScoped_of_isNestable nestable_a
  by_contra reaches
  have := greatest (encloses_of_stop_line mem_a owning before (not_lt.mp reaches))
  have := encloses.1
  omega

end Ranges

/-- Of two definitions the later starts behind the earlier or ends inside it, a child ends inside
its parent unless the parent is never closed, and siblings stand one behind the other. -/
theorem ranges_laminar (content : Content) :
    (∀ a ∈ Symbol.nodes (ofContent content), ∀ b ∈ Symbol.nodes (ofContent content),
      a.kind ≠ .constant → b.kind ≠ .constant → a.start.line < b.start.line →
        a.stop.line < b.start.line ∨ b.stop.line < a.stop.line) ∧
    (∀ parent ∈ Symbol.nodes (ofContent content), ∀ child ∈ parent.children,
      parent.start.line < child.start.line ∧
        (child.stop.line < parent.stop.line ∨ parent.stop.line = parent.start.line)) ∧
    (∀ parent ∈ Symbol.nodes (ofContent content),
      parent.children.Pairwise fun a b => a.stop.line < b.start.line) := by
  refine ⟨?_, ?_, ?_⟩
  · intro a ha b hb notConstant_a notConstant_b before
    exact apart_or_nested ha hb (isScoped_iff.mpr notConstant_a)
      (isScoped_iff.mpr notConstant_b) before
  · intro parent hp child hc
    exact child_range hp hc
  · intro parent hp
    have sorted := (blockMatching_ofLines content.lines).children_sorted parent hp
    refine sorted.imp_of_mem ?_
    intro a b ha hb before
    exact siblings_apart hp ha hb before

def classInClass : Content := .text "class A\ndef f\nend\nclass B\nend\nend".toList

theorem ofContent_classInClass : ofContent classInClass =
    [⟨"A", .classType, ⟨0, 6⟩, ⟨5, 3⟩, [⟨"f", .function, ⟨1, 4⟩, ⟨2, 3⟩, []⟩]⟩,
     ⟨"B", .classType, ⟨3, 6⟩, ⟨4, 3⟩, []⟩] := by
  have entries : (Scan.run classInClass.lines).entries =
      [⟨"B", .classType, ⟨3, 6⟩, ⟨4, 3⟩, none⟩, ⟨"f", .function, ⟨1, 4⟩, ⟨2, 3⟩, some 0⟩,
       ⟨"A", .classType, ⟨0, 6⟩, ⟨5, 3⟩, none⟩] := by
    decide +kernel
  rw [ofContent, ofLines, entries]
  rfl

theorem ranges_laminar_class_in_class :
    ∃ a ∈ Symbol.nodes (ofContent classInClass), ∃ b ∈ Symbol.nodes (ofContent classInClass),
      a.name = "A" ∧ b.name = "B" ∧
        (a.stop.line < b.start.line ∨ b.stop.line < a.stop.line) ∧
        ∃ f ∈ a.children, f.name = "f" ∧ a.start.line < f.start.line := by
  obtain ⟨laminar, children, -⟩ := ranges_laminar classInClass
  rw [ofContent_classInClass] at laminar children ⊢
  refine ⟨_, .head _, _, .tail _ (.tail _ (.head _)), rfl, rfl, ?_, _, .head _, rfl, ?_⟩
  · exact laminar _ (.head _) _ (.tail _ (.tail _ (.head _))) (by decide) (by decide) (by decide)
  · exact (children _ (.head _) _ (.head _)).1

end VibeLens.Outline
