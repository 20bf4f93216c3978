import Mathlib.Tactic.MkIffOfInductiveProp
import VibeLens.Proofs.Outline.BlockMatching
import VibeLens.Proofs.Outline.Relocation
import VibeLens.Proofs.Text.Breaks

set_option autoImplicit false

/-!
Code that defines nothing and closes what it opens does not show in the outline. Wherever it stands,
every frame lies below the depth at which it starts, and it never comes down to that depth before it
is over, so it leaves the stack and the entries as they are. What comes after it is read as before,
further down by as many lines as it has.
-/

namespace VibeLens

namespace Relocation

def gap (top height : Nat) : Relocation where
  line i := if i < top then i else i + height
  injective i j same := by
    simp only at same
    split_ifs at same <;> omega
  startColumn _ column := column
  stopColumn _ column := column

variable {top height i : Nat}

theorem gap_line_of_lt (above : i < top) : (gap top height).line i = i := if_pos above

theorem gap_line_of_le (below : top ≤ i) : (gap top height).line i = i + height :=
  if_neg (Nat.not_lt.mpr below)

theorem gap_start_of_lt {p : Position} (above : p.line < top) : (gap top height).start p = p := by
  rw [start, gap_line_of_lt above]
  rfl

theorem gap_stop_of_lt {p : Position} (above : p.line < top) : (gap top height).stop p = p := by
  rw [stop, gap_line_of_lt above]
  rfl

end Relocation

namespace Outline

open Text

/-! ### Balanced code -/

/-- By how much a line changes the number of open blocks, if there is one to close. -/
def change (line : List Char) : Int :=
  (if opens (codePortion line) then 1 else 0) - (if closes (codePortion line) then 1 else 0)

def balance : List (List Char) → Int
  | [] => 0
  | line :: lines => change line + balance lines

/-- Code that closes no block which it has not opened, and leaves none open. -/
@[mk_iff]
structure Balanced (lines : List (List Char)) : Prop where
  above : ∀ k ≤ lines.length, 0 ≤ balance (lines.take k)
  level : balance lines = 0

instance (lines : List (List Char)) : Decidable (Balanced lines) :=
  decidable_of_iff' _ (balanced_iff lines)

section Balance

variable {line : List Char} {lines : List (List Char)}

@[simp] theorem balance_nil : balance [] = 0 := rfl

@[simp] theorem balance_cons : balance (line :: lines) = change line + balance lines := rfl

theorem depthAfter_eq {depth : Nat} (above : 0 ≤ depth + change line) :
    (depthAfter depth line : Int) = depth + change line := by
  simp only [depthAfter, change] at above ⊢
  split_ifs at above ⊢ <;> omega

end Balance

/-! ### The scan of balanced code -/

namespace Scan

/-- Closing a block ends no definition while every frame lies below the new depth. -/
theorem closeBlock_of_above {s : Scan} (above : ∀ f ∈ s.frames, f.depth < s.depth - 1)
    (length : Nat) : s.closeBlock length = { s with depth := s.depth - 1 } := by
  obtain ⟨line, depth, frames, entries⟩ := s
  cases frames with
  | nil => rfl
  | cons frame frames =>
    have kept : ¬ depth - 1 ≤ frame.depth := Nat.not_le.mpr (above frame List.mem_cons_self)
    simp only [closeBlock, if_neg kept]

/-- A line that defines nothing changes the depth alone, if all frames lie below the new one. -/
theorem step_of_plain {s : Scan} {line : List Char} (plain : definition? line = none)
    (above : ∀ f ∈ s.frames, f.depth < depthAfter s.depth line) :
    s.step line = { s with line := s.line + 1, depth := depthAfter s.depth line } := by
  have opened : (if opens (codePortion line) then s.openBlock false else s) =
      { s with depth := if opens (codePortion line) then s.depth + 1 else s.depth } := by
    split <;> rfl
  simp only [step, plain, Option.elim_none, Option.any_none, opened]
  simp only [depthAfter] at above ⊢
  by_cases closing : closes (codePortion line)
  · rw [if_pos closing] at above ⊢
    rw [closeBlock_of_above above, if_pos closing]
  · rw [if_neg closing, if_neg closing]

/-- What balanced code does to a state whose frames all lie below a depth to which the code never
comes down. -/
theorem foldl_step_of_plain {base : Nat} {s : Scan} {lines : List (List Char)}
    (below : ∀ f ∈ s.frames, f.depth < base) (plain : ∀ line ∈ lines, definition? line = none)
    (above : ∀ k ≤ lines.length, (base : Int) ≤ s.depth + balance (lines.take k)) :
    lines.foldl step s =
      { s with line := s.line + lines.length, depth := (s.depth + balance lines).toNat } := by
  induction lines generalizing s with
  | nil => simp
  | cons line lines ih =>
    obtain ⟨here, later⟩ := List.forall_mem_cons.mp plain
    have first := above 1 (by simp)
    rw [List.take_succ_cons, List.take_zero, balance_cons, balance_nil, Int.add_zero] at first
    have depth : (depthAfter s.depth line : Int) = s.depth + change line :=
      depthAfter_eq (by omega)
    have step : s.step line = { s with line := s.line + 1, depth := depthAfter s.depth line } := by
      apply step_of_plain here
      intro f hf
      have := below f hf
      omega
    have after : ∀ k ≤ lines.length,
        (base : Int) ≤ depthAfter s.depth line + balance (lines.take k) := by
      intro k inside
      have next := above (k + 1) (Nat.succ_le_succ inside)
      rw [List.take_succ_cons, balance_cons] at next
      omega
    have rest := ih (s := { s with line := s.line + 1, depth := depthAfter s.depth line }) below later
      after
    rw [List.foldl_cons, step, rest]
    simp only [depth, balance_cons, List.length_cons]
    congr 1
    · omega
    · omega

/-- Balanced code without definitions moves the scan on by its lines and does nothing else. -/
theorem foldl_step_of_balanced {s : Scan} {chunk : List (List Char)}
    (below : ∀ f ∈ s.frames, f.depth < s.depth) (plain : ∀ line ∈ chunk, definition? line = none)
    (balanced : Balanced chunk) :
    chunk.foldl step s = { s with line := s.line + chunk.length } := by
  have above : ∀ k ≤ chunk.length, (s.depth : Int) ≤ s.depth + balance (chunk.take k) := by
    intro k inside
    have := balanced.above k inside
    omega
  rw [foldl_step_of_plain below plain above, balanced.level, Int.add_zero, Int.toNat_natCast]

/-! ### What comes after it -/

/-- Everything that the scan has found so far stands above the gap. -/
theorem relocate_gap_run (upper : List (List Char)) (height : Nat) :
    (run upper).relocate (.gap upper.length height) [] =
      { run upper with line := upper.length + height } := by
  have frames : (openFrames upper).map (Frame.relocate (.gap upper.length height)) =
      openFrames upper := by
    refine (List.map_congr_left fun f hf => ?_).trans (List.map_id _)
    rw [Frame.relocate, Relocation.gap_line_of_lt (mem_openFrames.mp hf).1.1, id]
  have entries : (entriesOf upper).map (Entry.relocate (.gap upper.length height)) =
      entriesOf upper := by
    refine (List.map_congr_left fun e he => ?_).trans (List.map_id _)
    have begins := start_line_lt_of_mem_entriesOf he
    have owner : e.owner.map (Relocation.gap upper.length height).line = e.owner := by
      cases owned : e.owner with
      | none => rfl
      | some k =>
        have before := (exists_owner_entry he owned).1
        rw [Option.map_some, Relocation.gap_line_of_lt (before.trans begins)]
    rw [Entry.relocate, Relocation.gap_start_of_lt begins,
      Relocation.gap_stop_of_lt (stop_line_lt_of_mem_entriesOf he), owner, id]
  simp only [run_eq_ofDepths, ofDepths, relocate, Relocation.gap_line_of_le le_rfl, frames,
    List.map_reverse, entries, List.append_nil]

theorem run_insert {upper chunk : List (List Char)}
    (plain : ∀ line ∈ chunk, definition? line = none) (balanced : Balanced chunk)
    (lower : List (List Char)) :
    run (upper ++ (chunk ++ lower)) =
      (run (upper ++ lower)).relocate (.gap upper.length chunk.length) [] := by
  have passed : chunk.foldl step (run upper) =
      (run upper).relocate (.gap upper.length chunk.length) [] := by
    rw [relocate_gap_run, foldl_step_of_balanced (fun _ => depth_lt_of_mem_frames_run) plain balanced,
      line_run]
  have reads : List.Forall₂ (fun line other =>
        Reads (.gap upper.length chunk.length) line.2 line.1 other)
      (lower.zipIdx (run upper).line) lower := by
    apply forall₂_zipIdx_self
    intro i line below
    rw [line_run] at below
    refine .refl (fun _ => rfl) (fun _ => rfl) ?_ line
    rw [Relocation.gap_line_of_le below, Relocation.gap_line_of_le (Nat.le_succ_of_le below)]
    omega
  rw [run_append, List.foldl_append, passed, foldl_relocate (List.forall_mem_nil _) reads,
    ← run_append]

end Scan

theorem ofLines_insert {upper chunk : List (List Char)}
    (plain : ∀ line ∈ chunk, definition? line = none) (balanced : Balanced chunk)
    (lower : List (List Char)) :
    ofLines (upper ++ (chunk ++ lower)) =
      Symbol.forestRelocate (.gap upper.length chunk.length) (ofLines (upper ++ lower)) :=
  ofLines_of_run_relocate (Scan.run_insert plain balanced lower)

theorem ofContent_insert {upper chunk lower : List (List Char)}
    (plain : ∀ line ∈ chunk, definition? line = none) (balanced : Balanced chunk)
    {document grown : Content} (before : document.lines = upper ++ lower)
    (after : grown.lines = upper ++ (chunk ++ lower)) :
    ofContent grown =
      Symbol.forestRelocate (.gap upper.length chunk.length) (ofContent document) := by
  rw [ofContent, after, ofContent, before]
  exact ofLines_insert plain balanced lower

/-- Code that defines nothing and closes what it opens is invisible: put between two lines, it moves
what is below it down and changes nothing else. -/
theorem balanced_code_is_invisible {upper chunk lower : List (List Char)}
    (unbroken : ∀ line ∈ upper ++ (chunk ++ lower), Unbroken line) (nonempty : upper ++ lower ≠ [])
    (plain : ∀ line ∈ chunk, definition? line = none) (balanced : Balanced chunk) :
    ofContent (.text (unlines (upper ++ (chunk ++ lower)))) =
      Symbol.forestRelocate (.gap upper.length chunk.length)
        (ofContent (.text (unlines (upper ++ lower)))) ∧
    ∀ document grown : Content, document.lines = upper ++ lower →
      grown.lines = upper ++ (chunk ++ lower) →
      ofContent grown =
        Symbol.forestRelocate (.gap upper.length chunk.length) (ofContent document) := by
  have kept : (upper ++ lower).Sublist (upper ++ (chunk ++ lower)) :=
    (List.sublist_append_right chunk lower).append_left upper
  have longer : upper ++ (chunk ++ lower) ≠ [] := by
    intro empty
    rw [empty] at kept
    exact nonempty (List.sublist_nil.mp kept)
  refine ⟨?_, fun document grown before after => ofContent_insert plain balanced before after⟩
  apply ofContent_insert plain balanced
  · exact lines_unlines (fun line mem => unbroken line (kept.subset mem)) nonempty
  · exact lines_unlines unbroken longer

def guardedLoop : List (List Char) :=
  ["if ready", "  run = fn(x) x", "  while x do end", "", "  end # end", "end"].map String.toList

/-- The class and the function around it end six lines further down. -/
theorem guardedLoop_is_invisible :
    let upper := ["class A".toList, "  def f".toList]
    let lower := ["  end".toList, "end".toList]
    (∀ line ∈ guardedLoop, definition? line = none) ∧ Balanced guardedLoop ∧
      ofContent (.text (unlines (upper ++ lower))) =
        [⟨"A", .classType, ⟨0, 6⟩, ⟨3, 3⟩, [⟨"f", .function, ⟨1, 6⟩, ⟨2, 5⟩, []⟩]⟩] ∧
      ofContent (.text (unlines (upper ++ (guardedLoop ++ lower)))) =
        [⟨"A", .classType, ⟨0, 6⟩, ⟨9, 3⟩, [⟨"f", .function, ⟨1, 6⟩, ⟨8, 5⟩, []⟩]⟩] := by
  intro upper lower
  have plain : ∀ line ∈ guardedLoop, definition? line = none := by decide +kernel
  have balanced : Balanced guardedLoop := by decide +kernel
  have unbroken : ∀ line ∈ upper ++ (guardedLoop ++ lower), Unbroken line := by
    simp only [Unbroken]
    decide +kernel
  have entries : (Scan.run (Content.text (unlines (upper ++ lower))).lines).entries =
      [⟨"f", .function, ⟨1, 6⟩, ⟨2, 5⟩, some 0⟩, ⟨"A", .classType, ⟨0, 6⟩, ⟨3, 3⟩, none⟩] := by
    decide +kernel
  have before : ofContent (.text (unlines (upper ++ lower))) =
      [⟨"A", .classType, ⟨0, 6⟩, ⟨3, 3⟩, [⟨"f", .function, ⟨1, 6⟩, ⟨2, 5⟩, []⟩]⟩] := by
    rw [ofContent, ofLines, entries]
    rfl
  refine ⟨plain, balanced, before, ?_⟩
  rw [(balanced_code_is_invisible unbroken (by decide) plain balanced).1, before]
  rfl

end Outline
end VibeLens
