import VibeLens.Proofs.Outline.ClosedForm
import VibeLens.Proofs.Outline.Recognition

set_option autoImplicit false

/-!
The stack of the scan. Its frames lie inside one another, below the number of open blocks, and each
belongs to a definition whose end has not been moved yet. Every line keeps this, whatever it opens and
closes, so that closing a block takes at most one frame off, and the end of a definition is moved at
most once.
-/

namespace VibeLens.Outline

variable {lines : List (List Char)} {line : List Char} {s : Scan} {f : Frame} {i length : Nat}

/-- What holds of the stack at all times, where `lines` are the lines read so far: the one that is being
read is the last of them. -/
structure Scan.Stacked (lines : List (List Char)) (s : Scan) : Prop where
  depths : s.frames.Pairwise fun inner outer => outer.depth < inner.depth
  below : ∀ f ∈ s.frames, f.depth < s.depth
  starts : s.frames.Pairwise fun inner outer => outer.line < inner.line
  provisional : ∀ f ∈ s.frames, ∃ e ∈ s.entries, e.start.line = f.line ∧ e.stop = lineEnd lines f.line
  distinct : s.entries.Pairwise fun later earlier => earlier.start.line < later.start.line
  recorded : ∀ e ∈ s.entries, e.start.line < lines.length

namespace Scan

theorem stacked_start : start.Stacked [] where
  depths := .nil
  below := List.forall_mem_nil _
  starts := .nil
  provisional := List.forall_mem_nil _
  distinct := .nil
  recorded := List.forall_mem_nil _

namespace Stacked

/-! ### What one line keeps -/

theorem line_lt (stacked : s.Stacked lines) (member : f ∈ s.frames) : f.line < lines.length := by
  obtain ⟨e, recorded, same, -⟩ := stacked.provisional f member
  exact same ▸ stacked.recorded e recorded

theorem append (stacked : s.Stacked lines) (line : List Char) : s.Stacked (lines ++ [line]) where
  depths := stacked.depths
  below := stacked.below
  starts := stacked.starts
  provisional f member := by
    rw [lineEnd_append lines line (stacked.line_lt member)]
    exact stacked.provisional f member
  distinct := stacked.distinct
  recorded e member := by
    rw [List.length_append]
    exact Nat.lt_add_right _ (stacked.recorded e member)

theorem define (stacked : s.Stacked lines) (here : s.line = lines.length) (d : Definition) :
    (s.define d line.length).Stacked (lines ++ [line]) where
  depths := stacked.depths
  below := stacked.below
  starts := stacked.starts
  provisional f member := by
    obtain ⟨e, recorded, ends⟩ := (stacked.append line).provisional f member
    exact ⟨e, List.mem_cons_of_mem _ recorded, ends⟩
  distinct := List.pairwise_cons.mpr ⟨fun e member => here ▸ stacked.recorded e member, stacked.distinct⟩
  recorded := by
    refine List.forall_mem_cons.mpr ⟨?_, (stacked.append line).recorded⟩
    simp [here]

/-- A block that is opened outside of a definition, or by one that cannot own others. -/
theorem openBlock (stacked : s.Stacked lines) : (s.openBlock false).Stacked lines where
  depths := stacked.depths
  below f member := Nat.lt_succ_of_lt (stacked.below f member)
  starts := stacked.starts
  provisional := stacked.provisional
  distinct := stacked.distinct
  recorded := stacked.recorded

/-- The frame of the definition that this line makes goes on top. -/
theorem define_openBlock (stacked : s.Stacked lines) (here : s.line = lines.length) (d : Definition) :
    ((s.define d line.length).openBlock true).Stacked (lines ++ [line]) where
  depths := List.pairwise_cons.mpr ⟨stacked.below, stacked.depths⟩
  below := List.forall_mem_cons.mpr
    ⟨Nat.lt_succ_self _, fun f member => Nat.lt_succ_of_lt (stacked.below f member)⟩
  starts := List.pairwise_cons.mpr ⟨fun f member => here ▸ stacked.line_lt member, stacked.starts⟩
  provisional := by
    refine List.forall_mem_cons.mpr ⟨?_, (stacked.define here d).provisional⟩
    refine ⟨_, List.mem_cons_self, rfl, ?_⟩
    change ⟨s.line, line.length⟩ = lineEnd (lines ++ [line]) s.line
    rw [here, lineEnd_append_length]
  distinct := (stacked.define here d).distinct
  recorded := (stacked.define here d).recorded

theorem opened (stacked : s.Stacked lines) (here : s.line = lines.length) (line : List Char) :
    (s.opened line).Stacked (lines ++ [line]) := by
  unfold Scan.opened
  cases definition? line with
  | none =>
    simp only [Option.elim_none, Option.any_none]
    split
    · exact (stacked.append line).openBlock
    · exact stacked.append line
  | some d =>
    simp only [Option.elim_some, Option.any_some]
    split
    · cases d.kind.isScoped with
      | false => exact (stacked.define here d).openBlock
      | true => exact stacked.define_openBlock here d
    · exact stacked.define here d

/-! ### Closing a block -/

/-- With no block open there is nothing on the stack. -/
theorem frames_eq_nil (stacked : s.Stacked lines) (none : s.depth = 0) : s.frames = [] := by
  apply List.eq_nil_iff_forall_not_mem.mpr
  intro f member
  have below := stacked.below f member
  omega

/-- A frame that has to go lies right below the depth. -/
theorem depth_eq_of_le (stacked : s.Stacked lines) (member : f ∈ s.frames)
    (reached : s.depth - 1 ≤ f.depth) : s.depth - 1 = f.depth := by
  have below := stacked.below f member
  omega

/-- Closing a block either takes the innermost frame off, which lies right below the depth, and moves
the end of its definition, or it changes nothing but the depth. -/
theorem closeBlock_cases (stacked : s.Stacked lines) (length : Nat) :
    (∃ f rest, s.frames = f :: rest ∧ s.depth - 1 = f.depth ∧
      s.closeBlock length = ⟨s.line, s.depth - 1, rest, moveStop f.line ⟨s.line, length⟩ s.entries⟩) ∨
    ((∀ f ∈ s.frames, f.depth < s.depth - 1) ∧
      s.closeBlock length = ⟨s.line, s.depth - 1, s.frames, s.entries⟩) := by
  obtain ⟨line, depth, frames, entries⟩ := s
  cases frames with
  | nil => exact .inr ⟨List.forall_mem_nil _, rfl⟩
  | cons f rest =>
    by_cases reached : depth - 1 ≤ f.depth
    · have equal : depth - 1 = f.depth := stacked.depth_eq_of_le List.mem_cons_self reached
      refine .inl ⟨f, rest, rfl, equal, ?_⟩
      simp only [Scan.closeBlock, if_pos reached]
    · have stays : f.depth < depth - 1 := Nat.lt_of_not_le reached
      have outer := (List.pairwise_cons.mp stacked.depths).1
      refine .inr ⟨List.forall_mem_cons.mpr ⟨stays, fun g member => (outer g member).trans stays⟩, ?_⟩
      simp only [Scan.closeBlock, if_neg reached]

/-- Once a block is closed no other frame has to go. -/
theorem below_closeBlock (stacked : s.Stacked lines) (length : Nat) :
    ∀ f ∈ (s.closeBlock length).frames, f.depth < (s.closeBlock length).depth := by
  rcases stacked.closeBlock_cases length with ⟨f, rest, split, equal, closed⟩ | ⟨below, closed⟩
  · rw [closed]
    have outer := (List.pairwise_cons.mp (split ▸ stacked.depths)).1
    exact fun g member => equal ▸ outer g member
  · rw [closed]
    exact below

theorem closeBlock (stacked : s.Stacked lines) (length : Nat) :
    (s.closeBlock length).Stacked lines := by
  have below := stacked.below_closeBlock length
  rcases stacked.closeBlock_cases length with ⟨f, rest, split, -, closed⟩ | ⟨-, closed⟩
  · rw [closed] at below ⊢
    obtain ⟨outer, starts⟩ := List.pairwise_cons.mp (split ▸ stacked.starts)
    refine ⟨(List.pairwise_cons.mp (split ▸ stacked.depths)).2, below, starts, ?_, ?_, ?_⟩
    · -- The definitions of the frames that stay are on other lines.
      intro g member
      obtain ⟨e, recorded, same, ends⟩ := stacked.provisional g (split ▸ List.mem_cons_of_mem _ member)
      have other : e.start.line ≠ f.line := by
        rw [same]
        exact (outer g member).ne
      exact ⟨e, List.mem_map.mpr ⟨e, recorded, if_neg other⟩, same, ends⟩
    · refine List.pairwise_map.mpr (stacked.distinct.imp fun before => ?_)
      split_ifs <;> exact before
    · refine List.forall_mem_map.mpr fun e member => ?_
      split_ifs <;> exact stacked.recorded e member
  · rw [closed] at below ⊢
    exact ⟨stacked.depths, below, stacked.starts, stacked.provisional, stacked.distinct,
      stacked.recorded⟩

theorem step (stacked : s.Stacked lines) (here : s.line = lines.length) (line : List Char) :
    (s.step line).Stacked (lines ++ [line]) := by
  have opened := stacked.opened here line
  have closed : (if closes (codePortion line) then (s.opened line).closeBlock line.length
      else s.opened line).Stacked (lines ++ [line]) := by
    split
    · exact opened.closeBlock line.length
    · exact opened
  rw [step_eq_opened]
  exact ⟨closed.depths, closed.below, closed.starts, closed.provisional, closed.distinct, closed.recorded⟩

end Stacked

theorem stacked_run (lines : List (List Char)) : (run lines).Stacked lines := by
  induction lines using List.reverseRecOn with
  | nil => exact stacked_start
  | append_singleton lines line ih =>
    rw [run_append]
    exact ih.step (line_run lines) line

/-! ### Ends are moved once -/

def closing? (s : Scan) : Option Nat :=
  match s.frames with
  | f :: _ => if s.depth - 1 ≤ f.depth then some f.line else none
  | [] => none

def moved? (s : Scan) (line : List Char) : Option Nat :=
  if closes (codePortion line) then (s.opened line).closing? else none

theorem closing?_eq_some_iff : s.closing? = some i ↔
    ∃ f rest, s.frames = f :: rest ∧ s.depth - 1 ≤ f.depth ∧ f.line = i := by
  obtain ⟨line, depth, frames, entries⟩ := s
  cases frames with
  | nil => simp [closing?]
  | cons f rest => simp [closing?]

theorem entries_closeBlock (s : Scan) (length : Nat) :
    (s.closeBlock length).entries = s.entries.map fun e =>
      if s.closing? = some e.start.line then { e with stop := ⟨s.line, length⟩ } else e := by
  obtain ⟨line, depth, frames, entries⟩ := s
  cases frames with
  | nil => simp [closeBlock, closing?]
  | cons f rest =>
    by_cases reached : depth - 1 ≤ f.depth
    · simp only [closeBlock, closing?, if_pos reached, moveStop, Option.some.injEq, eq_comm]
    · simp [closeBlock, closing?, reached]

theorem frames_closeBlock_sublist (s : Scan) (length : Nat) :
    (s.closeBlock length).frames.Sublist s.frames := by
  obtain ⟨line, depth, frames, entries⟩ := s
  cases frames with
  | nil => exact .refl _
  | cons f rest =>
    simp only [closeBlock]
    split
    · exact List.sublist_cons_self f rest
    · exact .refl _

theorem line_opened (s : Scan) (line : List Char) : (s.opened line).line = s.line := by
  unfold opened
  cases definition? line with
  | none => dsimp only [Option.elim_none]; split <;> rfl
  | some d => dsimp only [Option.elim_some]; split <;> rfl

/-- What a line does to the ends of definitions recorded up to its own: it moves at most one of them,
to where the line ends. -/
theorem entries_step (s : Scan) (line : List Char) :
    (s.step line).entries = (s.opened line).entries.map fun e =>
      if s.moved? line = some e.start.line then { e with stop := ⟨s.line, line.length⟩ } else e := by
  rw [step_eq_opened, moved?]
  split
  · rw [← s.line_opened line]
    exact entries_closeBlock _ _
  · simp

theorem frames_step_sublist (s : Scan) (line : List Char) :
    (s.step line).frames.Sublist (s.opened line).frames := by
  rw [step_eq_opened]
  split
  · exact frames_closeBlock_sublist _ _
  · exact .refl _

/-- A line above that has no frame on the stack will never have one again. -/
structure Settled (i : Nat) (s : Scan) : Prop where
  above : i < s.line
  noFrame : ∀ f ∈ s.frames, f.line ≠ i

namespace Settled

theorem opened (settled : s.Settled i) (line : List Char) :
    ∀ f ∈ (s.opened line).frames, f.line ≠ i := by
  rw [frames_opened]
  split
  · exact List.forall_mem_cons.mpr ⟨settled.above.ne', settled.noFrame⟩
  · exact settled.noFrame

theorem step (settled : s.Settled i) (line : List Char) : (s.step line).Settled i where
  above := Nat.lt_succ_of_lt settled.above
  noFrame f member := settled.opened line f ((s.frames_step_sublist line).subset member)

theorem foldl_step (settled : s.Settled i) (more : List (List Char)) :
    (more.foldl Scan.step s).Settled i := by
  induction more generalizing s with
  | nil => exact settled
  | cons line more ih => exact ih (settled.step line)

theorem moved?_ne (settled : s.Settled i) (line : List Char) : s.moved? line ≠ some i := by
  intro moved
  unfold moved? at moved
  split at moved
  · obtain ⟨f, rest, split, -, same⟩ := closing?_eq_some_iff.mp moved
    exact settled.opened line f (split ▸ List.mem_cons_self) same
  · cases moved

end Settled

/-- A definition whose end was moved is off the stack. -/
theorem Stacked.settled (stacked : s.Stacked lines) (here : s.line = lines.length)
    (moved : s.moved? line = some i) : (s.step line).Settled i := by
  have opened := stacked.opened here line
  unfold moved? at moved
  split at moved
  · rename_i closes
    obtain ⟨f, rest, split, reached, rfl⟩ := closing?_eq_some_iff.mp moved
    constructor
    · have above := opened.line_lt (split ▸ List.mem_cons_self)
      rwa [List.length_append, List.length_singleton, ← here] at above
    · have left : (s.step line).frames = rest := by
        rw [step_eq_opened, if_pos closes, Scan.closeBlock, split]
        simp only [if_pos reached]
      rw [left]
      exact fun g member => ((List.pairwise_cons.mp (split ▸ opened.starts)).1 g member).ne
  · cases moved

structure ClosesOnce (s : Scan) : Prop where
  floor : s.depth = 0 → s.frames = []
  /-- A frame is reached by falling to its depth, never by falling below it. -/
  reached : ∀ f ∈ s.frames, s.depth - 1 ≤ f.depth → s.depth - 1 = f.depth
  single : ∀ length,
    (s.closeBlock length).frames = s.frames ∨ (s.closeBlock length).frames = s.frames.tail
  enough : ∀ length, ∀ f ∈ (s.closeBlock length).frames, f.depth < (s.closeBlock length).depth

theorem Stacked.closesOnce (stacked : s.Stacked lines) : s.ClosesOnce where
  floor := stacked.frames_eq_nil
  reached _ := stacked.depth_eq_of_le
  single length := by
    rcases stacked.closeBlock_cases length with ⟨f, rest, split, -, closed⟩ | ⟨-, closed⟩
    · exact .inr (by rw [closed, split]; rfl)
    · exact .inl (by rw [closed])
  enough := stacked.below_closeBlock

end Scan

open Scan in
/-- After any lines the frames on the stack lie strictly inside one another, below the number of open
blocks and in the order of their definitions, and all these definitions still end with their own lines;
so it is in the middle of the next line too. Without an open block the stack is therefore empty, and
closing a block takes off at most the innermost frame, which lies right at the new depth. The end of a
definition is moved only when its frame goes, and never again. -/
theorem stack_discipline (lines : List (List Char)) :
    (run lines).Stacked lines ∧ (run lines).ClosesOnce ∧
    ∀ line : List Char,
      ((run lines).opened line).Stacked (lines ++ [line]) ∧ ((run lines).opened line).ClosesOnce ∧
      run (lines ++ [line]) =
        { (if closes (codePortion line) then ((run lines).opened line).closeBlock line.length
            else (run lines).opened line) with line := lines.length + 1 } ∧
      (run (lines ++ [line])).entries = ((run lines).opened line).entries.map (fun e =>
        if (run lines).moved? line = some e.start.line then
          { e with stop := ⟨lines.length, line.length⟩ } else e) ∧
      ∀ i, (run lines).moved? line = some i →
        (∃ f ∈ ((run lines).opened line).frames, f.line = i) ∧
        ∀ more other, (run (lines ++ line :: more)).moved? other ≠ some i := by
  have stacked := stacked_run lines
  have here := line_run lines
  refine ⟨stacked, stacked.closesOnce, fun line => ?_⟩
  have opened := stacked.opened here line
  have next : run (lines ++ [line]) = (run lines).step line := run_append lines [line]
  refine ⟨opened, opened.closesOnce, ?_, ?_, fun i moved => ⟨?_, fun more other => ?_⟩⟩
  · rw [next, step_eq_opened, here]
  · rw [next, entries_step, here]
  · unfold moved? at moved
    split at moved
    · obtain ⟨f, rest, split, -, same⟩ := closing?_eq_some_iff.mp moved
      exact ⟨f, split ▸ List.mem_cons_self, same⟩
    · cases moved
  · rw [run_append]
    exact ((stacked.settled here moved).foldl_step more).moved?_ne other

end VibeLens.Outline
