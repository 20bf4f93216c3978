import VibeLens.Proofs.Outline.Forest

set_option autoImplicit false

/-!
Outlines of documents that say the same in other places. Lines may stand further down, names further
to the right and lines end elsewhere: if each line of one document reads like a line of another up to
that, every state of one scan is a state of the other with its positions moved, and so is the forest.
-/

namespace VibeLens

/-- Where the positions of one document are found in another. Columns are moved line by line, and
starts and ends of symbols apart. -/
structure Relocation where
  line : Nat → Nat
  injective : Function.Injective line
  startColumn : (line column : Nat) → Nat
  stopColumn : (line column : Nat) → Nat

namespace Relocation

def start (r : Relocation) (p : Position) : Position :=
  ⟨r.line p.line, r.startColumn p.line p.column⟩

def stop (r : Relocation) (p : Position) : Position :=
  ⟨r.line p.line, r.stopColumn p.line p.column⟩

end Relocation

namespace Symbol

mutual

def relocate (r : Relocation) : Symbol → Symbol
  | ⟨name, kind, start, stop, children⟩ =>
    ⟨name, kind, r.start start, r.stop stop, forestRelocate r children⟩

def forestRelocate (r : Relocation) : List Symbol → List Symbol
  | [] => []
  | s :: rest => s.relocate r :: forestRelocate r rest

end

theorem forestRelocate_eq_map (r : Relocation) (forest : List Symbol) :
    forestRelocate r forest = forest.map (relocate r) := by
  induction forest with
  | nil => rfl
  | cons s rest ih => rw [forestRelocate, ih, List.map_cons]

end Symbol

namespace Outline

variable {r : Relocation} {above : List Entry}

def Definition.relocate (r : Relocation) (line : Nat) (d : Definition) : Definition :=
  { d with column := r.startColumn line d.column }

/-- A line reads like line `i` of another document, and stands where that line is moved to. -/
structure Reads (r : Relocation) (i : Nat) (line other : List Char) : Prop where
  definition : definition? other = (definition? line).map (Definition.relocate r i)
  opens : opens (codePortion other) = opens (codePortion line)
  closes : closes (codePortion other) = closes (codePortion line)
  length : other.length = r.stopColumn i line.length
  next : r.line (i + 1) = r.line i + 1

/-- A line reads like itself where columns stay as they are. -/
theorem Reads.refl {i : Nat} (start : ∀ column, r.startColumn i column = column)
    (stop : ∀ column, r.stopColumn i column = column) (next : r.line (i + 1) = r.line i + 1)
    (line : List Char) : Reads r i line line where
  definition := by cases definition? line <;> simp [Definition.relocate, start]
  opens := rfl
  closes := rfl
  length := (stop line.length).symm
  next := next

/-! ### The scan -/

def Entry.relocate (r : Relocation) (e : Entry) : Entry :=
  { e with start := r.start e.start, stop := r.stop e.stop, owner := e.owner.map r.line }

def Frame.relocate (r : Relocation) (f : Frame) : Frame := ⟨r.line f.line, f.depth⟩

namespace Scan

def relocate (r : Relocation) (above : List Entry) (s : Scan) : Scan where
  line := r.line s.line
  depth := s.depth
  frames := s.frames.map (Frame.relocate r)
  entries := s.entries.map (Entry.relocate r) ++ above

theorem define_relocate (s : Scan) (d : Definition) (length : Nat) :
    (s.relocate r above).define (d.relocate r s.line) (r.stopColumn s.line length) =
      (s.define d length).relocate r above := by
  have owner : (s.relocate r above).frames.head?.map Frame.line =
      (s.frames.head?.map Frame.line).map r.line := by
    simp only [relocate, List.head?_map, Option.map_map]
    rfl
  simp only [define, owner]
  cases nested : d.kind.isNestable <;>
    simp [relocate, Definition.relocate, nested, Entry.relocate, Relocation.start, Relocation.stop]

theorem openBlock_relocate (s : Scan) (owned : Bool) :
    (s.relocate r above).openBlock owned = (s.openBlock owned).relocate r above := by
  cases owned <;> rfl

/-- Moving the end of a symbol does not reach the entries above. -/
theorem moveStop_relocate (apart : ∀ e ∈ above, ∀ i, e.start.line ≠ r.line i) (line : Nat)
    (stop : Position) (entries : List Entry) :
    moveStop (r.line line) (r.stop stop) (entries.map (Entry.relocate r) ++ above) =
      (moveStop line stop entries).map (Entry.relocate r) ++ above := by
  rw [moveStop, List.map_append, List.map_map, moveStop, List.map_map]
  congr 1
  · apply List.map_congr_left
    intro e _
    by_cases same : e.start.line = line
    · simp [same, Entry.relocate, Relocation.start]
    · simp [same, Entry.relocate, Relocation.start, r.injective.eq_iff]
  · conv_rhs => rw [← List.map_id above]
    apply List.map_congr_left
    intro e he
    rw [if_neg (apart e he line), id]

theorem closeBlock_relocate (apart : ∀ e ∈ above, ∀ i, e.start.line ≠ r.line i) (s : Scan)
    (length : Nat) :
    (s.relocate r above).closeBlock (r.stopColumn s.line length) =
      (s.closeBlock length).relocate r above := by
  obtain ⟨line, depth, frames, entries⟩ := s
  cases frames with
  | nil => rfl
  | cons frame frames =>
    by_cases closes : depth - 1 ≤ frame.depth
    · have moved := moveStop_relocate apart frame.line ⟨line, length⟩ entries
      simp only [Relocation.stop] at moved
      simp [closeBlock, relocate, Frame.relocate, closes, moved]
    · simp [closeBlock, relocate, Frame.relocate, closes]

theorem step_relocate (apart : ∀ e ∈ above, ∀ i, e.start.line ≠ r.line i) {s : Scan}
    {line other : List Char} (reads : Reads r s.line line other) :
    (s.relocate r above).step other = (s.step line).relocate r above := by
  have defined : ((definition? other).elim (s.relocate r above)
        fun d => (s.relocate r above).define d other.length) =
      ((definition? line).elim s fun d => s.define d line.length).relocate r above := by
    rw [reads.definition, reads.length]
    cases definition? line with
    | none => rfl
    | some d => exact define_relocate s d line.length
  have owned : ((definition? other).any fun d => d.kind.isScoped) =
      (definition? line).any fun d => d.kind.isScoped := by
    rw [reads.definition, Option.any_map]
    rfl
  let opened : Scan :=
    let s := (definition? line).elim s fun d => s.define d line.length
    if opens (codePortion line) then s.openBlock ((definition? line).any fun d => d.kind.isScoped)
    else s
  have here : opened.line = s.line := by
    simp only [opened]
    cases definition? line <;> split <;> rfl
  have closed := closeBlock_relocate apart opened line.length
  rw [here, ← reads.length] at closed
  simp only [step, defined, owned, reads.opens, reads.closes, openBlock_relocate,
    ← apply_ite (relocate r above)]
  rw [closed, ← apply_ite (relocate r above)]
  simp only [relocate, reads.next]
  rfl

theorem forall₂_zipIdx_self {i : Nat} (reads : ∀ j line, i ≤ j → Reads r j line line)
    (lines : List (List Char)) :
    List.Forall₂ (fun line other => Reads r line.2 line.1 other) (lines.zipIdx i) lines := by
  induction lines generalizing i with
  | nil => exact .nil
  | cons line lines ih =>
    refine .cons (reads i line (Nat.le_refl i)) (ih ?_)
    intro j line later
    exact reads j line (Nat.le_of_succ_le later)

/-- A whole run: the lines are given with their numbers. -/
theorem foldl_relocate (apart : ∀ e ∈ above, ∀ i, e.start.line ≠ r.line i) {s : Scan}
    {lines others : List (List Char)}
    (reads : List.Forall₂ (fun line other => Reads r line.2 line.1 other) (lines.zipIdx s.line)
      others) :
    others.foldl step (s.relocate r above) = (lines.foldl step s).relocate r above := by
  induction lines generalizing s others with
  | nil =>
    cases reads
    rfl
  | cons line lines ih =>
    rw [List.zipIdx_cons] at reads
    cases reads with
    | cons first later =>
      rw [List.foldl_cons, step_relocate apart first, List.foldl_cons]
      exact ih later

theorem run_relocate (top : r.line 0 = 0) {lines others : List (List Char)}
    (reads : List.Forall₂ (fun line other => Reads r line.2 line.1 other) lines.zipIdx others) :
    run others = (run lines).relocate r [] := by
  have begins : start.relocate r [] = start := by simp [relocate, start, top]
  rw [run, ← begins]
  exact foldl_relocate (List.forall_mem_nil _) reads

end Scan

/-! ### The forest -/

def relocateTree (r : Relocation) (t : Option Nat × Symbol) : Option Nat × Symbol :=
  (t.1.map r.line, t.2.relocate r)

theorem adopt_relocate (e : Entry) (others : List (Option Nat × Symbol)) :
    adopt (e.relocate r) (others.map (relocateTree r)) =
      (adopt e others).map (relocateTree r) := by
  have owned (t : Option Nat × Symbol) :
      ((relocateTree r t).1 == some (e.relocate r).start.line) = (t.1 == some e.start.line) := by
    cases owner : t.1 <;>
      simp [relocateTree, owner, Entry.relocate, Relocation.start, r.injective.eq_iff]
  simp only [adopt_eq, List.filter_map, Function.comp_def, owned, List.map_cons, List.map_map]
  simp only [relocateTree, Symbol.relocate, Symbol.forestRelocate_eq_map, List.map_map]
  rfl

theorem trees_relocate (entries : List Entry) :
    trees (entries.map (Entry.relocate r)) = (trees entries).map (relocateTree r) := by
  induction entries with
  | nil => rfl
  | cons e entries ih => rw [List.map_cons, trees_cons, ih, adopt_relocate, trees_cons]

/-- Where the scan ends in the same state, with positions moved, so is the outline. -/
theorem ofLines_of_run_relocate {lines others : List (List Char)}
    (moved : Scan.run others = (Scan.run lines).relocate r []) :
    ofLines others = Symbol.forestRelocate r (ofLines lines) := by
  have entries : (Scan.run others).entries = (Scan.run lines).entries.map (Entry.relocate r) := by
    rw [moved]
    exact List.append_nil _
  rw [ofLines, assemble, entries, ← List.map_reverse, ← trees, trees_relocate,
    Symbol.forestRelocate_eq_map, ofLines, assemble, ← trees, List.map_map, List.map_map]
  rfl

theorem ofLines_relocate (top : r.line 0 = 0) {lines others : List (List Char)}
    (reads : List.Forall₂ (fun line other => Reads r line.2 line.1 other) lines.zipIdx others) :
    ofLines others = Symbol.forestRelocate r (ofLines lines) :=
  ofLines_of_run_relocate (Scan.run_relocate top reads)

end Outline
end VibeLens
