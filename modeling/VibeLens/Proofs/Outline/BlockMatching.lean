import Mathlib.Data.List.Sort
import VibeLens.Proofs.Outline.ClosedForm
import VibeLens.Proofs.Outline.Forest

set_option autoImplicit false

/-!
The outline of a document is the one forest that matches its blocks. What it means to match is said
without a scan: which lines have nodes, where a node ends and where it hangs follow from the depths
before and after the lines.
-/

namespace VibeLens.Outline

/-- A forest matches the blocks of a document. -/
structure BlockMatching (lines : List (List Char)) (forest : List Symbol) : Prop where
  /-- No line has two nodes. -/
  nodup : ((Symbol.nodes forest).map lineOf).Nodup
  /-- Every line that makes a definition has a node. -/
  complete : ∀ i d, definitionAt? lines i = some d → ∃ s ∈ Symbol.nodes forest, lineOf s = i
  /-- A node records the definition on its line. -/
  recorded : ∀ s ∈ Symbol.nodes forest, ∃ d, definitionAt? lines (lineOf s) = some d ∧
    s.name = String.ofList d.name ∧ s.kind = d.kind ∧ s.start.column = d.column
  /-- A constant ends with its line. -/
  constant : ∀ s ∈ Symbol.nodes forest, s.kind = .constant → s.stop = lineEnd lines (lineOf s)
  /-- Any other definition ends with the first line that brings the depth back. -/
  closed : ∀ s ∈ Symbol.nodes forest, s.kind ≠ .constant →
    ∀ j, IsLeast {j | ReturnsAt lines (lineOf s) j} j → s.stop = lineEnd lines j
  /-- With no such line it ends with its own. -/
  unclosed : ∀ s ∈ Symbol.nodes forest, s.kind ≠ .constant →
    (∀ j, ¬ ReturnsAt lines (lineOf s) j) → s.stop = lineEnd lines (lineOf s)
  /-- Classes, structs and constants are roots. -/
  hoisted : ∀ s ∈ Symbol.nodes forest, s.kind ≠ .function → s.kind ≠ .enumType → s ∈ forest
  /-- A function or an enum hangs below the last definition that encloses its line. -/
  nested : ∀ s ∈ Symbol.nodes forest, s.kind = .function ∨ s.kind = .enumType →
    ∀ k, IsGreatest {k | Encloses lines k (lineOf s)} k →
      ∃ parent ∈ Symbol.nodes forest, lineOf parent = k ∧ s ∈ parent.children
  /-- With no such definition it is a root. -/
  unenclosed : ∀ s ∈ Symbol.nodes forest, s.kind = .function ∨ s.kind = .enumType →
    (∀ k, ¬ Encloses lines k (lineOf s)) → s ∈ forest
  /-- Roots stand in the order of their lines. -/
  roots_sorted : forest.Pairwise fun a b => lineOf a < lineOf b
  /-- So do the children of every node. -/
  children_sorted : ∀ s ∈ Symbol.nodes forest,
    s.children.Pairwise fun a b => lineOf a < lineOf b

/-! ### The outline matches -/

section Outline

variable {lines : List (List Char)}

theorem isNestable_iff {kind : Kind} :
    kind.isNestable ↔ kind = .function ∨ kind = .enumType := by
  simp [Kind.isNestable]

theorem isScoped_iff {kind : Kind} : kind.isScoped ↔ kind ≠ .constant := by
  simp [Kind.isScoped]

theorem mem_entriesOf {e : Entry} :
    e ∈ entriesOf lines ↔ entryAt? lines e.start.line = some e := by
  rw [entriesOf, List.mem_filterMap]
  constructor
  · rintro ⟨i, -, found⟩
    rwa [start_line_of_entryAt? found]
  · intro found
    refine ⟨e.start.line, List.mem_range.mpr ?_, found⟩
    obtain ⟨d, defined, -⟩ := Option.map_eq_some_iff.mp found
    obtain ⟨line, here, -⟩ := Option.bind_eq_some_iff.mp defined
    exact (List.getElem?_eq_some_iff.mp here).1

theorem pairwise_entriesOf (lines : List (List Char)) :
    (entriesOf lines).Pairwise fun a b => a.start.line < b.start.line := by
  refine List.pairwise_lt_range.filterMap _ ?_
  intro i j before a ha b hb
  rwa [start_line_of_entryAt? ha, start_line_of_entryAt? hb]

theorem exists_entryAt? {i : Nat} {d : Definition} (h : definitionAt? lines i = some d) :
    ∃ e, entryAt? lines i = some e := ⟨_, by rw [entryAt?, h, Option.map_some]⟩

theorem exists_owner_entry {e : Entry} (he : e ∈ entriesOf lines) {k : Nat}
    (owned : e.owner = some k) : k < e.start.line ∧ ∃ o ∈ entriesOf lines, o.start.line = k := by
  have below := start_line_lt_of_mem_entriesOf he
  obtain ⟨d, -, same⟩ := Option.map_eq_some_iff.mp (mem_entriesOf.mp he)
  have owner : owner? lines e.start.line = some k := by
    rw [← same] at owned
    by_cases nestable : d.kind.isNestable
    · simpa [nestable] using owned
    · simp [nestable] at owned
  have encloses := ((owner?_eq_some_iff below.le).mp owner).1
  refine ⟨encloses.1, ?_⟩
  obtain ⟨d, defined, -⟩ := (Option.any_eq_true _ _).mp encloses.2.1
  obtain ⟨o, found⟩ := exists_entryAt? defined
  have line := start_line_of_entryAt? found
  exact ⟨o, mem_entriesOf.mpr (line ▸ found), line⟩

theorem ofLines_eq_trees (lines : List (List Char)) :
    ofLines lines = (trees (entriesOf lines)).map Prod.snd := by
  rw [ofLines, Scan.run_eq_ofDepths, Scan.ofDepths, List.reverse_reverse]
  rfl

theorem exists_grown_of_mem_nodes {s : Symbol} (h : s ∈ Symbol.nodes (ofLines lines)) :
    ∃ owner, Grown (entriesOf lines) owner s := by
  rw [ofLines_eq_trees, Symbol.nodes_eq_flatMap, List.mem_flatMap] at h
  obtain ⟨root, hr, mem⟩ := h
  obtain ⟨t, ht, rfl⟩ := List.mem_map.mp hr
  have inside : s ∈ Symbol.nodes [t.2] := by
    rwa [Symbol.nodes_cons, Symbol.nodes_nil, List.append_nil]
  exact (grown_of_mem_trees (pairwise_entriesOf lines) ht).of_mem_nodes inside

/-- A tree of the outline has no owner, since every owner is an entry that took what it owns. -/
theorem grown_of_mem_ofLines {s : Symbol} (h : s ∈ ofLines lines) :
    Grown (entriesOf lines) none s := by
  have sorted := pairwise_entriesOf lines
  rw [ofLines_eq_trees] at h
  obtain ⟨⟨owner, s⟩, ht, rfl⟩ := List.mem_map.mp h
  have grown := grown_of_mem_trees sorted ht
  cases owner with
  | none => exact grown
  | some k =>
    obtain ⟨e, he, -, owned⟩ := grown.exists_entry
    obtain ⟨-, o, ho, line⟩ := exists_owner_entry he owned
    have free := owner_ne_of_mem_trees ht ho
      (fun a ha k hk => (exists_owner_entry ha hk).1) sorted
    rw [line] at free
    exact absurd rfl free

theorem Grown.entryAt?_eq {owner : Option Nat} {s : Symbol}
    (h : Grown (entriesOf lines) owner s) :
    ∃ e, entryAt? lines (lineOf s) = some e ∧ e.Describes s ∧ e.owner = owner := by
  obtain ⟨e, he, describes, owned⟩ := h.exists_entry
  refine ⟨e, ?_, describes, owned⟩
  rw [lineOf, describes.2.2.1]
  exact mem_entriesOf.mp he

theorem Grown.owner_eq {owner : Option Nat} {s : Symbol}
    (h : Grown (entriesOf lines) owner s) :
    owner = if s.kind.isNestable then owner? lines (lineOf s) else none := by
  obtain ⟨e, entry, ⟨-, kind, -, -⟩, rfl⟩ := h.entryAt?_eq
  obtain ⟨d, -, rfl⟩ := Option.map_eq_some_iff.mp entry
  rw [kind]

theorem lineOf_lt_length {s : Symbol} (h : s ∈ Symbol.nodes (ofLines lines)) :
    lineOf s < lines.length := by
  obtain ⟨owner, grown⟩ := exists_grown_of_mem_nodes h
  obtain ⟨e, he, describes, -⟩ := grown.exists_entry
  rw [lineOf, describes.2.2.1]
  exact start_line_lt_of_mem_entriesOf he

theorem recorded_of_mem_nodes {s : Symbol} (h : s ∈ Symbol.nodes (ofLines lines)) :
    ∃ d, definitionAt? lines (lineOf s) = some d ∧
      s.name = String.ofList d.name ∧ s.kind = d.kind ∧ s.start.column = d.column := by
  obtain ⟨owner, grown⟩ := exists_grown_of_mem_nodes h
  obtain ⟨e, entry, ⟨name, kind, start, -⟩, -⟩ := grown.entryAt?_eq
  obtain ⟨d, defined, rfl⟩ := Option.map_eq_some_iff.mp entry
  exact ⟨d, defined, name, kind, by rw [start]⟩

theorem stop_of_mem_nodes {s : Symbol} (h : s ∈ Symbol.nodes (ofLines lines)) :
    s.stop = lineEnd lines
      (if s.kind.isScoped then (closingLine? lines (lineOf s)).getD (lineOf s)
        else lineOf s) := by
  obtain ⟨owner, grown⟩ := exists_grown_of_mem_nodes h
  obtain ⟨e, entry, ⟨-, kind, -, stop⟩, -⟩ := grown.entryAt?_eq
  obtain ⟨d, -, rfl⟩ := Option.map_eq_some_iff.mp entry
  rw [stop, kind]

/-- A node is a root or hangs below the owner of its line. -/
theorem place_of_mem_nodes {s : Symbol} (h : s ∈ Symbol.nodes (ofLines lines)) :
    ((if s.kind.isNestable then owner? lines (lineOf s) else none) = none ∧
        s ∈ ofLines lines) ∨
      ∃ parent ∈ Symbol.nodes (ofLines lines),
        (if s.kind.isNestable then owner? lines (lineOf s) else none) = some (lineOf parent) ∧
          s ∈ parent.children := by
  rcases Symbol.mem_or_exists_parent h with root | ⟨parent, hp, child⟩
  · exact .inl ⟨(grown_of_mem_ofLines root).owner_eq.symm, root⟩
  · obtain ⟨owner, grown⟩ := exists_grown_of_mem_nodes hp
    cases grown with
    | tree mem describes below sorted =>
      refine .inr ⟨parent, hp, ?_, child⟩
      rw [← (below s child).owner_eq, lineOf, describes.2.2.1]

theorem lines_nodes_perm (lines : List (List Char)) :
    ((Symbol.nodes (ofLines lines)).map lineOf).Perm
      ((entriesOf lines).map fun e => e.start.line) := by
  rw [ofLines_eq_trees]
  exact lines_nodes_trees_perm _

theorem blockMatching_ofLines (lines : List (List Char)) :
    BlockMatching lines (ofLines lines) where
  nodup := by
    rw [(lines_nodes_perm lines).nodup_iff]
    exact (List.pairwise_map.mpr (pairwise_entriesOf lines)).imp fun h => Nat.ne_of_lt h
  complete i d defined := by
    obtain ⟨e, entry⟩ := exists_entryAt? defined
    have line := start_line_of_entryAt? entry
    have mem : i ∈ (entriesOf lines).map fun e => e.start.line :=
      List.mem_map.mpr ⟨e, mem_entriesOf.mpr (line ▸ entry), line⟩
    exact List.mem_map.mp ((lines_nodes_perm lines).mem_iff.mpr mem)
  recorded _ hs := recorded_of_mem_nodes hs
  constant s hs constant := by
    have stop := stop_of_mem_nodes hs
    rwa [if_neg (by simp [Kind.isScoped, constant])] at stop
  closed s hs owning j least := by
    rw [stop_of_mem_nodes hs, if_pos (isScoped_iff.mpr owning),
      closingLine?_eq_some_iff.mpr least, Option.getD_some]
  unclosed s hs owning never := by
    have none_closing : closingLine? lines (lineOf s) = none := by
      rw [closingLine?_eq_none_iff]
      intro j lower upper
      by_contra back
      exact never j ⟨lower, upper, by omega⟩
    rw [stop_of_mem_nodes hs, if_pos (isScoped_iff.mpr owning), none_closing, Option.getD_none]
  hoisted s hs notFunction notEnum := by
    have apart : s.kind.isNestable = false := by
      rw [← Bool.not_eq_true, isNestable_iff, not_or]
      exact ⟨notFunction, notEnum⟩
    rcases place_of_mem_nodes hs with ⟨-, root⟩ | ⟨parent, -, owned, -⟩
    · exact root
    · simp [apart] at owned
  nested s hs kind k greatest := by
    have owner := (owner?_eq_some_iff (lineOf_lt_length hs).le).mpr greatest
    have place := place_of_mem_nodes hs
    rw [if_pos (isNestable_iff.mpr kind), owner] at place
    rcases place with ⟨absurd, -⟩ | ⟨parent, hp, line, child⟩
    · cases absurd
    · exact ⟨parent, hp, (Option.some.inj line).symm, child⟩
  unenclosed s hs kind free := by
    have owner := (owner?_eq_none_iff (lineOf_lt_length hs).le).mpr free
    have place := place_of_mem_nodes hs
    rw [if_pos (isNestable_iff.mpr kind), owner] at place
    rcases place with ⟨-, root⟩ | ⟨parent, -, owned, -⟩
    · exact root
    · cases owned
  roots_sorted := by
    rw [ofLines_eq_trees, List.pairwise_map]
    rw [← List.pairwise_map (f := fun t : Option Nat × Symbol => lineOf t.2)]
    exact (List.pairwise_map.mpr (pairwise_entriesOf lines)).sublist (lines_trees_sublist _)
  children_sorted s hs := by
    obtain ⟨owner, grown⟩ := exists_grown_of_mem_nodes hs
    cases grown with
    | tree _ _ _ sorted => exact sorted

end Outline

/-! ### Nothing else does -/

namespace BlockMatching

variable {lines : List (List Char)} {forest other : List Symbol}

theorem nodup_nodes (h : BlockMatching lines forest) : (Symbol.nodes forest).Nodup :=
  h.nodup.of_map _

theorem eq_of_lineOf_eq (h : BlockMatching lines forest) {s t : Symbol}
    (hs : s ∈ Symbol.nodes forest) (ht : t ∈ Symbol.nodes forest)
    (same : lineOf s = lineOf t) : s = t :=
  List.inj_on_of_nodup_map h.nodup hs ht same

theorem lineOf_lt (h : BlockMatching lines forest) {s : Symbol}
    (hs : s ∈ Symbol.nodes forest) : lineOf s < lines.length := by
  obtain ⟨d, defined, -⟩ := h.recorded s hs
  obtain ⟨line, here, -⟩ := Option.bind_eq_some_iff.mp defined
  exact (List.getElem?_eq_some_iff.mp here).1

theorem mem_roots_iff (h : BlockMatching lines forest) {s : Symbol}
    (hs : s ∈ Symbol.nodes forest) :
    s ∈ forest ↔ (s.kind.isNestable → owner? lines (lineOf s) = none) := by
  have inside := (h.lineOf_lt hs).le
  constructor
  · intro root nestable
    rw [Option.eq_none_iff_forall_ne_some]
    intro k owned
    obtain ⟨parent, hp, -, child⟩ := h.nested s hs (isNestable_iff.mp nestable) k
      ((owner?_eq_some_iff inside).mp owned)
    exact Symbol.notMem_children_of_mem h.nodup_nodes root hp child
  · intro free
    by_cases nestable : s.kind.isNestable
    · exact h.unenclosed s hs (isNestable_iff.mp nestable)
        ((owner?_eq_none_iff inside).mp (free nestable))
    · rw [isNestable_iff, not_or] at nestable
      exact h.hoisted s hs nestable.1 nestable.2

theorem mem_children_iff (h : BlockMatching lines forest) {s parent : Symbol}
    (hs : s ∈ Symbol.nodes forest) (hp : parent ∈ Symbol.nodes forest) :
    s ∈ parent.children ↔
      s.kind.isNestable ∧ owner? lines (lineOf s) = some (lineOf parent) := by
  have inside := (h.lineOf_lt hs).le
  have below : ∀ k, s.kind.isNestable → owner? lines (lineOf s) = some k →
      ∃ q ∈ Symbol.nodes forest, lineOf q = k ∧ s ∈ q.children := fun k nestable owned =>
    h.nested s hs (isNestable_iff.mp nestable) k ((owner?_eq_some_iff inside).mp owned)
  constructor
  · intro child
    have notRoot : s ∉ forest := fun root =>
      Symbol.notMem_children_of_mem h.nodup_nodes root hp child
    rw [h.mem_roots_iff hs, Classical.not_imp] at notRoot
    obtain ⟨nestable, owned⟩ := notRoot
    obtain ⟨k, owned⟩ := Option.ne_none_iff_exists'.mp owned
    obtain ⟨q, hq, rfl, child'⟩ := below k nestable owned
    rw [Symbol.parent_unique h.nodup_nodes hp hq child child']
    exact ⟨nestable, owned⟩
  · rintro ⟨nestable, owned⟩
    obtain ⟨q, hq, line, child⟩ := below _ nestable owned
    rwa [h.eq_of_lineOf_eq hp hq line.symm]

theorem stop_eq (h : BlockMatching lines forest) {s : Symbol} (hs : s ∈ Symbol.nodes forest) :
    s.stop = lineEnd lines
      (if s.kind.isScoped then (closingLine? lines (lineOf s)).getD (lineOf s)
        else lineOf s) := by
  by_cases owning : s.kind.isScoped
  · rw [if_pos owning]
    cases closing : closingLine? lines (lineOf s) with
    | some j =>
      exact h.closed s hs (isScoped_iff.mp owning) j (closingLine?_eq_some_iff.mp closing)
    | none =>
      refine h.unclosed s hs (isScoped_iff.mp owning) ?_
      rintro j ⟨lower, upper, back⟩
      have := closingLine?_eq_none_iff.mp closing j lower upper
      omega
  · rw [if_neg owning]
    exact h.constant s hs (by rwa [isScoped_iff, not_not] at owning)

theorem eq_of_sorted {a b : List Symbol} (ha : a.Pairwise fun s t => lineOf s < lineOf t)
    (hb : b.Pairwise fun s t => lineOf s < lineOf t) (same : ∀ s, s ∈ a ↔ s ∈ b) : a = b :=
  haveI : Std.Irrefl fun s t : Symbol => lineOf s < lineOf t := ⟨fun _ => Nat.lt_irrefl _⟩
  haveI : Std.Antisymm fun s t : Symbol => lineOf s < lineOf t :=
    ⟨fun _ _ h h' => absurd h (Nat.lt_asymm h')⟩
  ha.eq_of_mem_iff hb same

theorem children_subset (h : BlockMatching lines forest) (h' : BlockMatching lines other)
    {s t : Symbol} (hs : s ∈ Symbol.nodes forest) (ht : t ∈ Symbol.nodes other)
    (same : lineOf s = lineOf t)
    (agree : ∀ c ∈ Symbol.nodes forest, ∀ c' ∈ Symbol.nodes other,
      lineOf s < lineOf c → lineOf c = lineOf c' → c = c') :
    ∀ c ∈ s.children, c ∈ t.children := by
  intro c child
  have hc := Symbol.mem_nodes_of_mem_children hs child
  obtain ⟨nestable, owned⟩ := (h.mem_children_iff hc hs).mp child
  have encloses := ((owner?_eq_some_iff (h.lineOf_lt hc).le).mp owned).1
  obtain ⟨d, defined, -⟩ := h.recorded c hc
  obtain ⟨c', hc', line⟩ := h'.complete _ d defined
  obtain rfl := agree c hc c' hc' encloses.1 line.symm
  rw [h'.mem_children_iff hc' ht, ← same]
  exact ⟨nestable, owned⟩

/-- Two nodes on one line are equal. The induction goes from the last line upwards, since children
stand below their parents. -/
theorem agree (h : BlockMatching lines forest) (h' : BlockMatching lines other) (m : Nat) :
    ∀ s ∈ Symbol.nodes forest, ∀ t ∈ Symbol.nodes other, lineOf s = lineOf t →
      lines.length ≤ lineOf s + m → s = t := by
  induction m with
  | zero =>
    intro s hs t ht same bound
    have := h.lineOf_lt hs
    omega
  | succ m ih =>
    intro s hs t ht same bound
    obtain ⟨d, defined, name, kind, column⟩ := h.recorded s hs
    obtain ⟨d', defined', name', kind', column'⟩ := h'.recorded t ht
    obtain rfl : d = d' := Option.some.inj (by rw [← defined, ← defined', same])
    have stop : s.stop = t.stop := by
      rw [h.stop_eq hs, h'.stop_eq ht, kind, kind', same]
    have children : s.children = t.children := by
      refine eq_of_sorted (h.children_sorted s hs) (h'.children_sorted t ht) fun c => ⟨?_, ?_⟩
      · refine h.children_subset h' hs ht same ?_ c
        intro a ha b hb after line
        exact ih a ha b hb line (by omega)
      · refine h'.children_subset h ht hs same.symm ?_ c
        intro a ha b hb after line
        exact (ih b hb a ha line.symm (by omega)).symm
    obtain ⟨sname, skind, ⟨sline, scolumn⟩, sstop, schildren⟩ := s
    obtain ⟨tname, tkind, ⟨tline, tcolumn⟩, tstop, tchildren⟩ := t
    simp only at name kind column name' kind' column' stop children same
    subst name kind column name' kind' column' stop children same
    rfl

theorem roots_subset (h : BlockMatching lines forest) (h' : BlockMatching lines other) :
    ∀ s ∈ forest, s ∈ other := by
  intro s root
  have hs := Symbol.mem_nodes_of_mem root
  obtain ⟨d, defined, -⟩ := h.recorded s hs
  obtain ⟨t, ht, line⟩ := h'.complete _ d defined
  obtain rfl := h.agree h' lines.length s hs t ht line.symm (Nat.le_add_left _ _)
  rw [h'.mem_roots_iff ht]
  exact (h.mem_roots_iff hs).mp root

theorem unique (h : BlockMatching lines forest) (h' : BlockMatching lines other) :
    forest = other :=
  eq_of_sorted h.roots_sorted h'.roots_sorted fun s =>
    ⟨h.roots_subset h' s, h'.roots_subset h s⟩

end BlockMatching

/-- The outline of a document is the forest that matches its blocks, and there is only one. -/
theorem ofContent_eq_iff_blockMatching (content : Content) (forest : List Symbol) :
    ofContent content = forest ↔ BlockMatching content.lines forest := by
  constructor
  · rintro rfl
    exact blockMatching_ofLines content.lines
  · intro h
    exact (blockMatching_ofLines content.lines).unique h

end VibeLens.Outline
