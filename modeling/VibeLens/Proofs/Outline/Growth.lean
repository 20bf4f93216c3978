import Mathlib.Data.List.Forall2
import VibeLens.Proofs.Outline.BlockMatching
import VibeLens.Proofs.Text.Joining

set_option autoImplicit false

/-!
What becomes of an outline when text is appended to the document. Two runs of the scan are compared,
one that stops and one that goes on: whatever has been recorded stays where it is, only the ends of
blocks that were open can still move, and everything new comes after what was there.
-/

namespace VibeLens

namespace Symbol

/-- The symbol at a place of a forest. The symbols above it are given by their indices, from the root
down, and it itself by its index among its siblings. -/
def at? : List Symbol → (above : List Nat) → (index : Nat) → Option Symbol
  | forest, [], i => forest[i]?
  | forest, k :: above, i => forest[k]?.bind fun s => at? s.children above i

section Place

variable {s : Symbol} {forest rest : List Symbol} {above : List Nat} {i j k : Nat}

@[simp] theorem at?_nil : at? [] above i = none := by
  cases above <;> rfl

@[simp] theorem at?_root_zero : at? (s :: rest) [] 0 = some s := rfl

@[simp] theorem at?_root_succ : at? (s :: rest) [] (i + 1) = at? rest [] i := rfl

@[simp] theorem at?_below_zero : at? (s :: rest) (0 :: above) i = at? s.children above i := rfl

@[simp] theorem at?_below_succ :
    at? (s :: rest) ((k + 1) :: above) i = at? rest (k :: above) i := rfl

/-- The symbols of a forest are those that have a place in it. -/
theorem mem_nodes_iff_at? : s ∈ nodes forest ↔ ∃ above i, at? forest above i = some s := by
  constructor
  · intro h
    induction forest using forest_induction with
    | nil => simp at h
    | cons root rest below after =>
      rw [nodes_cons, List.mem_cons, List.mem_append] at h
      rcases h with rfl | h | h
      · exact ⟨[], 0, rfl⟩
      · obtain ⟨above, i, found⟩ := below h
        exact ⟨0 :: above, i, found⟩
      · obtain ⟨above, i, found⟩ := after h
        cases above with
        | nil => exact ⟨[], i + 1, found⟩
        | cons k above => exact ⟨(k + 1) :: above, i, found⟩
  · rintro ⟨above, i, found⟩
    induction above generalizing forest with
    | nil => exact mem_nodes_of_mem (List.mem_of_getElem? found)
    | cons k above ih =>
      obtain ⟨parent, hp, found⟩ := Option.bind_eq_some_iff.mp found
      rw [nodes_eq_flatMap, List.mem_flatMap]
      exact ⟨parent, List.mem_of_getElem? hp, List.mem_cons_of_mem _ (ih found)⟩

/-- A place that is free lies behind all siblings there are. -/
theorem lt_of_at?_eq_none (free : at? forest above i = none)
    (taken : at? forest above j = some s) : j < i := by
  induction above generalizing forest with
  | nil =>
    have beyond := List.getElem?_eq_none_iff.mp free
    have inside := (List.getElem?_eq_some_iff.mp taken).1
    omega
  | cons k above ih =>
    obtain ⟨parent, hp, found⟩ := Option.bind_eq_some_iff.mp taken
    rw [at?, hp, Option.bind_some] at free
    exact ih free found

end Place

end Symbol

namespace Outline

/-! ### A scan that goes on -/

structure Entry.Kept (older : Scan) (e e' : Entry) : Prop where
  name : e'.name = e.name
  kind : e'.kind = e.kind
  start : e'.start = e.start
  owner : e'.owner = e.owner
  before : e.start.line < older.line
  /-- Only the end of a block that was open has moved, to a line read since. -/
  stop : e'.stop ≠ e.stop →
    (∃ f ∈ older.frames, f.line = e.start.line) ∧ older.line ≤ e'.stop.line

namespace Scan

structure Since (older s : Scan) : Prop where
  line_le : older.line ≤ s.line
  frames : ∀ f ∈ s.frames, f ∈ older.frames ∨ older.line ≤ f.line
  entries : ∃ new kept, s.entries = new ++ kept ∧ (∀ e ∈ new, older.line ≤ e.start.line) ∧
    List.Forall₂ (Entry.Kept older) older.entries kept

namespace Since

variable {older s : Scan}

theorem refl (before : ∀ e ∈ older.entries, e.start.line < older.line) : older.Since older where
  line_le := le_rfl
  frames _ hf := .inl hf
  entries := by
    refine ⟨[], older.entries, rfl, by simp, List.forall₂_same.mpr ?_⟩
    intro e he
    exact ⟨rfl, rfl, rfl, rfl, before e he, fun moved => absurd rfl moved⟩

theorem define (h : older.Since s) (d : Definition) (length : Nat) :
    older.Since (s.define d length) where
  line_le := h.line_le
  frames := h.frames
  entries := by
    obtain ⟨new, kept, split, later, same⟩ := h.entries
    refine ⟨_ :: new, kept, by rw [Scan.define, split, List.cons_append], ?_, same⟩
    intro e he
    rcases List.mem_cons.mp he with rfl | he
    · exact h.line_le
    · exact later e he

theorem openBlock (h : older.Since s) (owned : Bool) : older.Since (s.openBlock owned) where
  line_le := h.line_le
  frames f hf := by
    cases owned with
    | false => exact h.frames f hf
    | true =>
      rcases List.mem_cons.mp hf with rfl | hf
      · exact .inr h.line_le
      · exact h.frames f hf
  entries := h.entries

/-- A frame pushed since then belongs to none of the old entries, so closing its block leaves them
alone. -/
theorem kept_moveStop {e e' : Entry} (same : e.Kept older e') {f : Frame}
    (frame : f ∈ older.frames ∨ older.line ≤ f.line) {stop : Position}
    (later : older.line ≤ stop.line) :
    e.Kept older (if e'.start.line = f.line then { e' with stop := stop } else e') := by
  split
  · rename_i closes
    rw [same.start] at closes
    refine ⟨same.name, same.kind, same.start, same.owner, same.before, fun _ => ⟨?_, later⟩⟩
    rcases frame with open_before | pushed
    · exact ⟨f, open_before, closes.symm⟩
    · have := same.before
      omega
  · exact same

theorem closeBlock (h : older.Since s) (length : Nat) : older.Since (s.closeBlock length) := by
  obtain ⟨line, depth, frames, entries⟩ := s
  cases frames with
  | nil => exact ⟨h.line_le, h.frames, h.entries⟩
  | cons frame frames =>
    simp only [Scan.closeBlock]
    split
    · refine ⟨h.line_le, fun f hf => h.frames f (List.mem_cons_of_mem _ hf), ?_⟩
      obtain ⟨new, kept, split, later, same⟩ := h.entries
      refine ⟨moveStop frame.line ⟨line, length⟩ new, moveStop frame.line ⟨line, length⟩ kept,
        ?_, ?_, ?_⟩
      · simp only [moveStop] at split ⊢
        rw [split, List.map_append]
      · intro e he
        obtain ⟨a, ha, rfl⟩ := List.mem_map.mp he
        split
        · exact later a ha
        · exact later a ha
      · rw [moveStop, List.forall₂_map_right_iff]
        refine same.imp fun e e' same => ?_
        exact kept_moveStop same (h.frames frame List.mem_cons_self) h.line_le
    · exact ⟨h.line_le, h.frames, h.entries⟩

theorem step (h : older.Since s) (line : List Char) : older.Since (s.step line) := by
  have defined : older.Since
      ((definition? line).elim s fun d => s.define d line.length) := by
    cases definition? line with
    | none => exact h
    | some d => exact h.define d line.length
  have opened (t : Scan) (ht : older.Since t) (owned : Bool) :
      older.Since (if opens (codePortion line) then t.openBlock owned else t) := by
    split
    · exact ht.openBlock owned
    · exact ht
  have closed (t : Scan) (ht : older.Since t) :
      older.Since (if closes (codePortion line) then t.closeBlock line.length else t) := by
    split
    · exact ht.closeBlock line.length
    · exact ht
  have last := closed _ (opened _ defined ((definition? line).any fun d => d.kind.isScoped))
  exact ⟨h.line_le.trans (Nat.le_succ _), last.frames, last.entries⟩

theorem foldl (h : older.Since s) (lines : List (List Char)) :
    older.Since (lines.foldl Scan.step s) := by
  induction lines generalizing s with
  | nil => exact h
  | cons line rest ih => exact ih (h.step line)

end Since

theorem since_run (upper lower : List (List Char)) :
    (run upper).Since (run (upper ++ lower)) := by
  rw [run_append]
  refine (Since.refl ?_).foldl lower
  intro e he
  rw [line_run]
  exact start_line_lt_of_mem_run he

end Scan

/-! ### Forests that grow -/

structure Kept (older : Scan) (s s' : Symbol) : Prop where
  name : s'.name = s.name
  kind : s'.kind = s.kind
  start : s'.start = s.start
  stop : s'.stop ≠ s.stop →
    (∃ f ∈ older.frames, f.line = s.start.line) ∧ older.line ≤ s'.stop.line

/-- All symbols of the tree stand on lines read since. -/
def IsNew (older : Scan) (s : Symbol) : Prop := ∀ node ∈ Symbol.nodes [s], older.line ≤ lineOf node

/-- The trees of a forest are kept in their places, as are the trees below them, and behind them new
trees may have been added. -/
inductive GrowsInto (older : Scan) : List Symbol → List Symbol → Prop
  | added {new : List Symbol} : (∀ s ∈ new, IsNew older s) → GrowsInto older [] new
  | kept {s s' : Symbol} {rest rest' : List Symbol} : Kept older s s' →
      GrowsInto older s.children s'.children → GrowsInto older rest rest' →
      GrowsInto older (s :: rest) (s' :: rest')

namespace GrowsInto

variable {older : Scan} {forest forest' : List Symbol} {above : List Nat} {i : Nat}

theorem exists_kept (h : GrowsInto older forest forest') {s : Symbol}
    (found : Symbol.at? forest above i = some s) :
    ∃ s', Symbol.at? forest' above i = some s' ∧ Kept older s s' := by
  induction h generalizing above i with
  | added => simp at found
  | @kept root root' rest rest' same _ _ below after =>
    cases above with
    | nil =>
      cases i with
      | zero =>
        cases found
        exact ⟨root', rfl, same⟩
      | succ i =>
        rw [Symbol.at?_root_succ] at found ⊢
        exact after found
    | cons k above =>
      cases k with
      | zero =>
        rw [Symbol.at?_below_zero] at found ⊢
        exact below found
      | succ k =>
        rw [Symbol.at?_below_succ] at found ⊢
        exact after found

theorem line_le_of_added (h : GrowsInto older forest forest') {s' : Symbol}
    (found : Symbol.at? forest' above i = some s') (free : Symbol.at? forest above i = none) :
    older.line ≤ lineOf s' := by
  induction h generalizing above i with
  | @added new isNew =>
    have mem := Symbol.mem_nodes_iff_at?.mpr ⟨_, _, found⟩
    rw [Symbol.nodes_eq_flatMap, List.mem_flatMap] at mem
    obtain ⟨root, hr, mem⟩ := mem
    apply isNew root hr
    rwa [Symbol.nodes_cons, Symbol.nodes_nil, List.append_nil]
  | kept same _ _ below after =>
    cases above with
    | nil =>
      cases i with
      | zero => simp at free
      | succ i =>
        rw [Symbol.at?_root_succ] at found free
        exact after found free
    | cons k above =>
      cases k with
      | zero =>
        rw [Symbol.at?_below_zero] at found free
        exact below found free
      | succ k =>
        rw [Symbol.at?_below_succ] at found free
        exact after found free

end GrowsInto

structure Beside (older : Scan) (t t' : Option Nat × Symbol) : Prop where
  owner : t'.1 = t.1
  root : Kept older t.2 t'.2
  children : GrowsInto older t.2.children t'.2.children

theorem growsInto_of_beside {older : Scan} {old kept new : List (Option Nat × Symbol)}
    (same : List.Forall₂ (Beside older) old kept) (isNew : ∀ t ∈ new, IsNew older t.2) :
    GrowsInto older (old.map Prod.snd) ((kept ++ new).map Prod.snd) := by
  induction same with
  | nil =>
    refine .added ?_
    intro s hs
    obtain ⟨t, ht, rfl⟩ := List.mem_map.mp hs
    exact isNew t ht
  | cons beside _ ih => exact .kept beside.root beside.children ih

/-- Putting kept entries in front of new trees: they take of the old trees what they took before and
of the new ones what they own. -/
theorem exists_trees_of_kept {older : Scan} {entries kept : List Entry}
    (same : List.Forall₂ (Entry.Kept older) entries kept)
    {new : List (Option Nat × Symbol)} (isNew : ∀ t ∈ new, IsNew older t.2) :
    ∃ grown left, kept.foldr adopt new = grown ++ left ∧ left ⊆ new ∧
      List.Forall₂ (Beside older) (trees entries) grown := by
  induction same with
  | nil => exact ⟨[], new, rfl, List.Subset.refl _, .nil⟩
  | @cons e e' entries kept entry _ ih =>
    obtain ⟨grown, left, split, sub, beside⟩ := ih
    have filter (p : Option Nat → Bool) : List.Forall₂ (Beside older)
        ((trees entries).filter fun t => p t.1) (grown.filter fun t => p t.1) := by
      refine List.rel_filter (fun t t' h => ?_) beside
      simp only [h.owner]
    have owned := filter (· == some e.start.line)
    have others := filter (!· == some e.start.line)
    refine ⟨(e'.owner, ⟨e'.name, e'.kind, e'.start, e'.stop,
        ((grown ++ left).filter fun t => t.1 == some e.start.line).map Prod.snd⟩) ::
        grown.filter fun t => !t.1 == some e.start.line,
      left.filter fun t => !t.1 == some e.start.line, ?_, ?_, ?_⟩
    · rw [List.foldr_cons, split, adopt_eq, entry.start, List.cons_append, ← List.filter_append]
    · exact fun t ht => sub (List.mem_filter.mp ht).1
    · rw [trees_cons, adopt_eq]
      refine .cons ⟨entry.owner, ⟨entry.name, entry.kind, entry.start, entry.stop⟩, ?_⟩ others
      rw [List.filter_append]
      refine growsInto_of_beside owned fun t ht => ?_
      exact isNew t (sub (List.mem_filter.mp ht).1)

theorem isNew_of_mem_trees {older : Scan} {entries : List Entry}
    (later : ∀ e ∈ entries, older.line ≤ e.start.line) {t : Option Nat × Symbol}
    (ht : t ∈ trees entries) : IsNew older t.2 := by
  intro node mem
  have inside : node ∈ Symbol.nodes ((trees entries).map Prod.snd) := by
    rw [Symbol.nodes_cons, Symbol.nodes_nil, List.append_nil] at mem
    rw [Symbol.nodes_eq_flatMap, List.mem_flatMap]
    exact ⟨t.2, List.mem_map_of_mem ht, mem⟩
  have line := (lines_nodes_trees_perm entries).mem_iff.mp (List.mem_map_of_mem inside)
  obtain ⟨e, he, same⟩ := List.mem_map.mp line
  rw [← same]
  exact later e he

theorem growsInto_ofLines (upper lower : List (List Char)) :
    GrowsInto (Scan.run upper) (ofLines upper) (ofLines (upper ++ lower)) := by
  obtain ⟨new, kept, split, later, same⟩ := (Scan.since_run upper lower).entries
  have isNew : ∀ t ∈ trees new.reverse, IsNew (Scan.run upper) t.2 := fun t ht =>
    isNew_of_mem_trees (fun e he => later e (List.mem_reverse.mp he)) ht
  obtain ⟨grown, left, trees_eq, sub, beside⟩ :=
    exists_trees_of_kept (List.forall₂_reverse_iff.mpr same) isNew
  have whole : ofLines (upper ++ lower) = (grown ++ left).map Prod.snd := by
    rw [ofLines, assemble, split, List.reverse_append, List.foldr_append, ← trees_eq]
    rfl
  rw [whole]
  exact growsInto_of_beside beside fun t ht => isNew t (sub ht)

theorem stop_line_lt_length {lines : List (List Char)} {s : Symbol}
    (h : s ∈ Symbol.nodes (ofLines lines)) : s.stop.line < lines.length := by
  obtain ⟨owner, grown⟩ := exists_grown_of_mem_nodes h
  obtain ⟨e, he, ⟨-, -, -, stop⟩, -⟩ := grown.exists_entry
  rw [stop]
  exact stop_line_lt_of_mem_entriesOf he

/-- Appending text never rewrites the outline already found. What was found stays in its place, and only
the end of an open block can move; what is added comes from the lower part and stands behind all
siblings that were there. -/
theorem outline_kept_by_appending {upper lower whole : Content}
    (joined : Content.Joins upper lower whole) (noReturn : upper.chars.getLast? ≠ some '\r') :
    (∀ above i s, Symbol.at? (ofContent upper) above i = some s →
      ∃ s', Symbol.at? (ofContent whole) above i = some s' ∧
        s'.name = s.name ∧ s'.kind = s.kind ∧ s'.start = s.start ∧
        (s'.stop ≠ s.stop →
          (∃ f ∈ (Scan.run upper.lines).frames, f.line = s.start.line) ∧
            upper.lines.length ≤ s'.stop.line ∧
            s'.stop.line < upper.lines.length + lower.lines.length)) ∧
    (∀ above i s', Symbol.at? (ofContent whole) above i = some s' →
      Symbol.at? (ofContent upper) above i = none →
        upper.lines.length ≤ s'.start.line ∧
          ∀ j s, Symbol.at? (ofContent upper) above j = some s → j < i) := by
  have lines_eq := joined.lines_eq noReturn
  have grows : GrowsInto (Scan.run upper.lines) (ofContent upper) (ofContent whole) := by
    rw [ofContent, ofContent, lines_eq]
    exact growsInto_ofLines upper.lines lower.lines
  have line := Scan.line_run upper.lines
  constructor
  · intro above i s found
    obtain ⟨s', found', same⟩ := grows.exists_kept found
    refine ⟨s', found', same.name, same.kind, same.start, fun moved => ?_⟩
    obtain ⟨wasOpen, later⟩ := same.stop moved
    have inside := stop_line_lt_length (Symbol.mem_nodes_iff_at?.mpr ⟨_, _, found'⟩)
    rw [lines_eq, List.length_append] at inside
    exact ⟨wasOpen, line ▸ later, inside⟩
  · intro above i s' found free
    refine ⟨line ▸ grows.line_le_of_added found free, fun j s taken => ?_⟩
    exact Symbol.lt_of_at?_eq_none free taken

def openClass : List Char := "class A\ndef f".toList

def closingLines : List Char := "end\nend\ndef g".toList

theorem ofContent_openClass : ofContent (.text openClass) =
    [⟨"A", .classType, ⟨0, 6⟩, ⟨0, 7⟩, [⟨"f", .function, ⟨1, 4⟩, ⟨1, 5⟩, []⟩]⟩] := by
  have entries : (Scan.run (Content.text openClass).lines).entries =
      [⟨"f", .function, ⟨1, 4⟩, ⟨1, 5⟩, some 0⟩, ⟨"A", .classType, ⟨0, 6⟩, ⟨0, 7⟩, none⟩] := by
    decide +kernel
  rw [ofContent, ofLines, entries]
  rfl

theorem ofContent_closedClass : ofContent (.text (openClass ++ '\n' :: closingLines)) =
    [⟨"A", .classType, ⟨0, 6⟩, ⟨3, 3⟩, [⟨"f", .function, ⟨1, 4⟩, ⟨2, 3⟩, []⟩]⟩,
     ⟨"g", .function, ⟨4, 4⟩, ⟨4, 5⟩, []⟩] := by
  have entries : (Scan.run (Content.text (openClass ++ '\n' :: closingLines)).lines).entries =
      [⟨"g", .function, ⟨4, 4⟩, ⟨4, 5⟩, none⟩, ⟨"f", .function, ⟨1, 4⟩, ⟨2, 3⟩, some 0⟩,
       ⟨"A", .classType, ⟨0, 6⟩, ⟨3, 3⟩, none⟩] := by
    decide +kernel
  rw [ofContent, ofLines, entries]
  rfl

theorem outline_kept_by_closing_lines :
    (∃ s', Symbol.at? (ofContent (.text (openClass ++ '\n' :: closingLines))) [0] 0 = some s' ∧
      s'.name = "f" ∧ s'.start = ⟨1, 4⟩ ∧ (s'.stop ≠ ⟨1, 5⟩ → 2 ≤ s'.stop.line)) ∧
    ∃ s', Symbol.at? (ofContent (.text (openClass ++ '\n' :: closingLines))) [] 1 = some s' ∧
      s'.name = "g" ∧ 2 ≤ s'.start.line := by
  obtain ⟨kept, added⟩ :=
    outline_kept_by_appending (.text openClass closingLines) (by decide)
  rw [ofContent_openClass, ofContent_closedClass] at kept added
  rw [ofContent_closedClass]
  constructor
  · obtain ⟨s', found, name, -, start, moved⟩ := kept [0] 0 _ rfl
    exact ⟨s', found, name, start, fun h => (moved h).2.1⟩
  · exact ⟨_, rfl, rfl, (added [] 1 _ rfl rfl).1⟩

end Outline
end VibeLens
