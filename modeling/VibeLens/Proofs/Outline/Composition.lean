import VibeLens.Proofs.Outline.ClosedForm
import VibeLens.Proofs.Outline.Relocation
import VibeLens.Proofs.Text.Joining

set_option autoImplicit false

/-!
Outlines of documents put one below the other. A scan does not depend on the line at which it starts:
begun further down, with an empty stack, it does the same with every line number moved. A document
whose blocks are all closed leaves an empty stack, since every frame lies below the depth, so what
comes after it is outlined as if it stood alone.
-/

namespace VibeLens

def Position.moveDown (n : Nat) (p : Position) : Position := ⟨n + p.line, p.column⟩

def Relocation.down (n : Nat) : Relocation where
  line := (n + ·)
  injective _ _ := Nat.add_left_cancel
  startColumn _ column := column
  stopColumn _ column := column

namespace Symbol

mutual

def moveDown (n : Nat) : Symbol → Symbol
  | ⟨name, kind, start, stop, children⟩ =>
    ⟨name, kind, start.moveDown n, stop.moveDown n, forestMoveDown n children⟩

def forestMoveDown (n : Nat) : List Symbol → List Symbol
  | [] => []
  | s :: rest => s.moveDown n :: forestMoveDown n rest

end

theorem forestMoveDown_eq_relocate (n : Nat) (forest : List Symbol) :
    forestMoveDown n forest = forestRelocate (.down n) forest := by
  induction forest using forest_induction with
  | nil => rfl
  | cons s rest below after =>
    obtain ⟨name, kind, start, stop, children⟩ := s
    rw [forestMoveDown, moveDown, below, after]
    rfl

theorem moveDown_eq_relocate (n : Nat) (s : Symbol) : s.moveDown n = s.relocate (.down n) := by
  obtain ⟨name, kind, start, stop, children⟩ := s
  rw [moveDown, forestMoveDown_eq_relocate]
  rfl

end Symbol

namespace Outline

/-! ### The scan further down -/

namespace Entry

def moveDown (n : Nat) (e : Entry) : Entry :=
  { e with
    start := e.start.moveDown n
    stop := e.stop.moveDown n
    owner := e.owner.map (n + ·) }

end Entry

def Frame.moveDown (n : Nat) (f : Frame) : Frame := ⟨n + f.line, f.depth⟩

namespace Scan

/-- The state of a scan begun at line `n`, below entries that are complete. -/
def below (n : Nat) (above : List Entry) (s : Scan) : Scan where
  line := n + s.line
  depth := s.depth
  frames := s.frames.map (Frame.moveDown n)
  entries := s.entries.map (Entry.moveDown n) ++ above

theorem foldl_below {n : Nat} {above : List Entry} (earlier : ∀ e ∈ above, e.start.line < n)
    (s : Scan) (lines : List (List Char)) :
    lines.foldl step (s.below n above) = (lines.foldl step s).below n above := by
  have apart : ∀ e ∈ above, ∀ i, e.start.line ≠ (Relocation.down n).line i := by
    intro e he i
    have := earlier e he
    simp only [Relocation.down]
    omega
  apply foldl_relocate (r := .down n) apart
  apply forall₂_zipIdx_self
  intro i line _
  exact .refl (fun _ => rfl) (fun _ => rfl) rfl line

/-- With no block open there is no frame, and a scan that goes on starts afresh. -/
theorem run_eq_below_start {lines : List (List Char)} (balanced : (run lines).depth = 0) :
    run lines = start.below lines.length (run lines).entries := by
  have noFrame : (run lines).frames = [] := by
    rw [List.eq_nil_iff_forall_not_mem]
    intro f hf
    have := depth_lt_of_mem_frames_run hf
    omega
  calc run lines
    _ = ⟨(run lines).line, (run lines).depth, (run lines).frames, (run lines).entries⟩ := rfl
    _ = start.below lines.length (run lines).entries := by
      rw [line_run, balanced, noFrame]
      rfl

theorem entries_run_append {upper : List (List Char)} (balanced : (run upper).depth = 0)
    (lower : List (List Char)) :
    (run (upper ++ lower)).entries =
      (run lower).entries.map (Entry.moveDown upper.length) ++ (run upper).entries := by
  have earlier : ∀ e ∈ (run upper).entries, e.start.line < upper.length :=
    fun e he => start_line_lt_of_mem_run he
  rw [run_append, run_eq_below_start balanced, foldl_below earlier]
  rfl

end Scan

/-! ### Forests side by side -/

def moveTree (n : Nat) (t : Option Nat × Symbol) : Option Nat × Symbol :=
  (t.1.map (n + ·), t.2.moveDown n)

theorem trees_moveDown (n : Nat) (entries : List Entry) :
    trees (entries.map (Entry.moveDown n)) = (trees entries).map (moveTree n) := by
  have same : moveTree n = relocateTree (.down n) := by
    funext t
    rw [moveTree, Symbol.moveDown_eq_relocate]
    rfl
  rw [same]
  exact trees_relocate (r := .down n) entries

theorem foldr_adopt_append {entries : List Entry} {others : List (Option Nat × Symbol)}
    (free : ∀ t ∈ others, ∀ e ∈ entries, t.1 ≠ some e.start.line) :
    entries.foldr adopt others = trees entries ++ others := by
  induction entries with
  | nil => rfl
  | cons e entries ih =>
    have later := ih fun t ht a ha => free t ht a (List.mem_cons_of_mem _ ha)
    have notOwned : ∀ t ∈ others, (t.1 == some e.start.line) = false := fun t ht => by
      simpa using free t ht e List.mem_cons_self
    have none_owned : others.filter (fun t => t.1 == some e.start.line) = [] := by
      rw [List.filter_eq_nil_iff]
      intro t ht
      simp [notOwned t ht]
    have all_left : others.filter (fun t => !(t.1 == some e.start.line)) = others := by
      rw [List.filter_eq_self]
      intro t ht
      simp [notOwned t ht]
    rw [List.foldr_cons, later, adopt_eq, List.filter_append, List.filter_append, none_owned,
      all_left, List.append_nil, trees_cons, adopt_eq, List.cons_append]

theorem ofLines_append {upper : List (List Char)} (balanced : (Scan.run upper).depth = 0)
    (lower : List (List Char)) :
    ofLines (upper ++ lower) =
      ofLines upper ++ Symbol.forestMoveDown upper.length (ofLines lower) := by
  have free : ∀ t ∈ (trees (Scan.run lower).entries.reverse).map (moveTree upper.length),
      ∀ e ∈ (Scan.run upper).entries.reverse, t.1 ≠ some e.start.line := by
    intro t ht e he owned
    obtain ⟨t, -, rfl⟩ := List.mem_map.mp ht
    obtain ⟨k, -, line⟩ := Option.map_eq_some_iff.mp owned
    have := Scan.start_line_lt_of_mem_run (List.mem_reverse.mp he)
    omega
  rw [ofLines, assemble, Scan.entries_run_append balanced, List.reverse_append,
    ← List.map_reverse, List.foldr_append, ← trees, trees_moveDown, foldr_adopt_append free,
    List.map_append, List.map_map, Symbol.forestMoveDown_eq_relocate,
    Symbol.forestRelocate_eq_map, ofLines, assemble, ofLines, assemble, List.map_map]
  congr 1
  apply List.map_congr_left
  intro t _
  exact t.2.moveDown_eq_relocate upper.length

/-- The outline of a document whose upper part closes all its blocks is the outline of that part and
then the outline of the lower part, moved down. -/
theorem ofContent_append_of_balanced {upper lower whole : Content}
    (joined : Content.Joins upper lower whole) (noReturn : upper.chars.getLast? ≠ some '\r')
    (balanced : (Scan.run upper.lines).depth = 0) :
    ofContent whole =
      ofContent upper ++ Symbol.forestMoveDown upper.lines.length (ofContent lower) := by
  rw [ofContent, joined.lines_eq noReturn]
  exact ofLines_append balanced lower.lines

def surplusEnd : List Char := "end\ndef f\nend".toList

def wholeClass : List Char := "class A\ndef g\nend\nend".toList

theorem ofContent_append_below_surplus_end :
    ofContent (.text (surplusEnd ++ '\n' :: wholeClass)) =
      ofContent (.text surplusEnd) ++ Symbol.forestMoveDown 3 (ofContent (.text wholeClass)) :=
  ofContent_append_of_balanced (.text surplusEnd wholeClass) (by decide) (by decide +kernel)

end Outline
end VibeLens
