import Mathlib.Data.List.Basic
import Mathlib.Data.List.Induction
import VibeLens.Proofs.Outline.Depth

set_option autoImplicit false

/-!
The state of the scan in closed form. After any lines the stack holds exactly the definitions whose
blocks are still open, the innermost first, and every definition found so far is recorded with the
owner and the end that the depths give it.
-/

namespace VibeLens.Outline

/-- The frames of the definitions that are still open, the innermost first. -/
def openFrames (lines : List (List Char)) : List Frame :=
  ((List.range lines.length).reverse.filter (isOpen lines)).map fun i => ⟨i, depthAt lines i⟩

/-- What the depths say of the definition on a line. -/
def entryAt? (lines : List (List Char)) (i : Nat) : Option Entry :=
  (definitionAt? lines i).map fun d =>
    ⟨String.ofList d.name, d.kind, ⟨i, d.column⟩,
     lineEnd lines (if d.kind.isScoped then (closingLine? lines i).getD i else i),
     if d.kind.isNestable then owner? lines i else none⟩

def entriesOf (lines : List (List Char)) : List Entry :=
  (List.range lines.length).filterMap (entryAt? lines)

/-! ### The stack -/

theorem mem_openFrames {lines : List (List Char)} {f : Frame} :
    f ∈ openFrames lines ↔
      Encloses lines f.line lines.length ∧ f.depth = depthAt lines f.line := by
  simp only [openFrames, List.mem_map, List.mem_filter, List.mem_reverse, List.mem_range,
    isOpen_iff]
  constructor
  · rintro ⟨i, ⟨-, encloses⟩, rfl⟩
    exact ⟨encloses, rfl⟩
  · rintro ⟨encloses, depth⟩
    exact ⟨f.line, ⟨encloses.1, encloses⟩, by rw [← depth]⟩

theorem depth_lt_of_mem_openFrames {lines : List (List Char)} {f : Frame}
    (h : f ∈ openFrames lines) : f.depth < depthAt lines lines.length := by
  obtain ⟨encloses, depth⟩ := mem_openFrames.mp h
  rw [depth]
  exact encloses.depth_lt encloses.1 le_rfl

theorem pairwise_line_openFrames (lines : List (List Char)) :
    (openFrames lines).Pairwise fun f g => g.line < f.line := by
  rw [openFrames, List.pairwise_map]
  apply List.Pairwise.filter
  rw [List.pairwise_reverse]
  exact List.pairwise_lt_range

theorem pairwise_depth_openFrames (lines : List (List Char)) :
    (openFrames lines).Pairwise fun f g => g.depth < f.depth := by
  refine (pairwise_line_openFrames lines).imp_of_mem ?_
  intro f g hf hg below
  obtain ⟨inner, depth_f⟩ := mem_openFrames.mp hf
  obtain ⟨outer, depth_g⟩ := mem_openFrames.mp hg
  rw [depth_f, depth_g]
  exact outer.depth_lt below inner.1.le

theorem openFrames_append (lines : List (List Char)) (line : List Char) :
    openFrames (lines ++ [line]) =
      (if isOpen (lines ++ [line]) lines.length
        then [⟨lines.length, depthAt lines lines.length⟩] else []) ++
      (openFrames lines).filter
        fun f => f.depth < depthAt (lines ++ [line]) (lines.length + 1) := by
  have range : (List.range (lines ++ [line]).length).reverse =
      lines.length :: (List.range lines.length).reverse := by
    simp [List.range_succ]
  have old : ((List.range lines.length).reverse.filter (isOpen (lines ++ [line]))).map
        (fun i => Frame.mk i (depthAt (lines ++ [line]) i)) =
      (openFrames lines).filter
        fun f => f.depth < depthAt (lines ++ [line]) (lines.length + 1) := by
    rw [openFrames, List.filter_map, List.filter_filter]
    have kept : (List.range lines.length).reverse.filter (isOpen (lines ++ [line])) =
        (List.range lines.length).reverse.filter fun i =>
          decide (depthAt lines i < depthAt (lines ++ [line]) (lines.length + 1)) &&
            isOpen lines i := by
      apply List.filter_congr
      intro i hi
      rw [isOpen_append lines line (by simpa using hi), Bool.and_comm]
    rw [kept]
    apply List.map_congr_left
    intro i hi
    have below : i < lines.length := by simpa using (List.mem_filter.mp hi).1
    rw [depthAt_append lines line below.le]
  rw [openFrames, range, List.filter_cons, ← old]
  split <;> simp [depthAt_append]

theorem head?_openFrames (lines : List (List Char)) :
    (openFrames lines).head?.map Frame.line = owner? lines lines.length := by
  rw [openFrames, List.head?_map, List.head?_filter, owner?, List.take_length, Option.map_map]
  exact Option.map_id'

/-- Closing a block, where every frame lies below the depth and the frames are in order: the frames
left are those below the new depth, and the definitions of the others end here. -/
theorem Scan.closeBlock_eq (s : Scan) (length : Nat)
    (ordered : s.frames.Pairwise fun f g => g.depth < f.depth)
    (below : ∀ f ∈ s.frames, f.depth < s.depth) :
    s.closeBlock length =
      { s with
        depth := s.depth - 1
        frames := s.frames.filter fun f => f.depth < s.depth - 1
        entries := s.entries.map fun e =>
          if ∃ f ∈ s.frames, f.line = e.start.line ∧ s.depth - 1 ≤ f.depth
            then { e with stop := ⟨s.line, length⟩ } else e } := by
  obtain ⟨line, depth, frames, entries⟩ := s
  cases frames with
  | nil => simp [closeBlock]
  | cons frame frames =>
    simp only [List.pairwise_cons, List.mem_cons, forall_eq_or_imp] at ordered below
    simp only [closeBlock, moveStop]
    split
    · -- The innermost frame lies right below the depth, so the others stay below the new one.
      rename_i popped
      have rest : ∀ f ∈ frames, f.depth < depth - 1 := fun f hf => by
        have := ordered.1 f hf
        omega
      congr 1
      · rw [List.filter_cons_of_neg (by simpa using popped), List.filter_eq_self.mpr]
        simpa using rest
      · apply List.map_congr_left
        intro e _
        congr 1
        rw [eq_iff_iff]
        constructor
        · intro same
          exact ⟨frame, by simp, same.symm, popped⟩
        · rintro ⟨f, hf, same, high⟩
          rcases List.mem_cons.mp hf with rfl | hf
          · exact same.symm
          · have := rest f hf
            omega
    · rename_i kept
      have all : ∀ f ∈ frame :: frames, f.depth < depth - 1 := fun f hf => by
        rcases List.mem_cons.mp hf with rfl | hf
        · omega
        · have := ordered.1 f hf
          omega
      congr 1
      · rw [List.filter_eq_self.mpr]
        simpa using all
      · conv_lhs => rw [← List.map_id entries]
        apply List.map_congr_left
        intro e _
        rw [if_neg, id]
        rintro ⟨f, hf, -, high⟩
        have := all f hf
        omega

/-! ### The entries -/

theorem start_line_of_entryAt? {lines : List (List Char)} {i : Nat} {e : Entry}
    (h : entryAt? lines i = some e) : e.start.line = i := by
  obtain ⟨d, -, rfl⟩ := Option.map_eq_some_iff.mp h
  rfl

def closeAt (lines : List (List Char)) (line : List Char) (e : Entry) : Entry :=
  if ∃ f ∈ openFrames lines,
      f.line = e.start.line ∧ depthAt (lines ++ [line]) (lines.length + 1) ≤ f.depth
    then { e with stop := ⟨lines.length, line.length⟩ } else e

theorem closes_iff (lines : List (List Char)) (line : List Char) (i : Nat) :
    (∃ f ∈ openFrames lines,
        f.line = i ∧ depthAt (lines ++ [line]) (lines.length + 1) ≤ f.depth) ↔
      isOpen lines i ∧
        depthAt (lines ++ [line]) (lines.length + 1) ≤ depthAt lines i := by
  simp only [mem_openFrames, isOpen_iff]
  constructor
  · rintro ⟨f, ⟨encloses, depth⟩, rfl, back⟩
    exact ⟨encloses, depth ▸ back⟩
  · rintro ⟨encloses, back⟩
    exact ⟨⟨i, depthAt lines i⟩, ⟨encloses, rfl⟩, rfl, back⟩

theorem entryAt?_append (lines : List (List Char)) (line : List Char) {i : Nat}
    (h : i < lines.length) :
    entryAt? (lines ++ [line]) i = (entryAt? lines i).map (closeAt lines line) := by
  rw [entryAt?, entryAt?, definitionAt?_append lines line h, Option.map_map]
  refine Option.map_congr fun d hd => ?_
  have owning : isScopedAt lines i = d.kind.isScoped := by
    rw [isScopedAt, Option.mem_def.mp hd, Option.any_some]
  simp only [Function.comp_apply, closeAt, closes_iff, isOpen, owning, owner?_append lines line h.le,
    closingLine?_append lines line h.le]
  cases d.kind.isScoped with
  | false => simp [lineEnd_append lines line h]
  | true =>
    cases closing : closingLine? lines i with
    | some j =>
      have before := (closingLine?_eq_some_iff.mp closing).1.2.1
      simp [lineEnd_append lines line before]
    | none =>
      by_cases back : depthAt (lines ++ [line]) (lines.length + 1) ≤ depthAt lines i
      · simp [back, lineEnd_append_length]
      · simp [back, lineEnd_append lines line h]

/-- The new line's own definition ends with it, whether or not its block is closed at once. -/
theorem entryAt?_append_length (lines : List (List Char)) (line : List Char) :
    entryAt? (lines ++ [line]) lines.length =
      (definition? line).map fun d =>
        ⟨String.ofList d.name, d.kind, ⟨lines.length, d.column⟩, ⟨lines.length, line.length⟩,
         if d.kind.isNestable then owner? lines lines.length else none⟩ := by
  have stop : (closingLine? (lines ++ [line]) lines.length).getD lines.length =
      lines.length := by
    have none_before : closingLine? lines lines.length = none := by simp [closingLine?]
    rw [closingLine?_append lines line le_rfl, none_before, Option.none_or]
    split <;> rfl
  rw [entryAt?, definitionAt?_append_length, stop, owner?_append lines line le_rfl]
  simp only [ite_self, lineEnd_append_length]

theorem entriesOf_append (lines : List (List Char)) (line : List Char) :
    entriesOf (lines ++ [line]) =
      (entriesOf lines).map (closeAt lines line) ++
        (entryAt? (lines ++ [line]) lines.length).toList := by
  have old : (List.range lines.length).filterMap (entryAt? (lines ++ [line])) =
      (entriesOf lines).map (closeAt lines line) := by
    rw [entriesOf, List.map_filterMap]
    apply List.filterMap_congr
    intro i hi
    exact entryAt?_append lines line (List.mem_range.mp hi)
  have range : List.range (lines ++ [line]).length =
      List.range lines.length ++ [lines.length] := by simp [List.range_succ]
  rw [entriesOf, range, List.filterMap_append, old]
  cases h : entryAt? (lines ++ [line]) lines.length <;> simp [h]

theorem start_line_lt_of_mem_entriesOf {lines : List (List Char)} {e : Entry}
    (h : e ∈ entriesOf lines) : e.start.line < lines.length := by
  obtain ⟨i, hi, found⟩ := List.mem_filterMap.mp h
  rw [start_line_of_entryAt? found]
  exact List.mem_range.mp hi

theorem stop_line_lt_of_mem_entriesOf {lines : List (List Char)} {e : Entry}
    (h : e ∈ entriesOf lines) : e.stop.line < lines.length := by
  obtain ⟨i, hi, found⟩ := List.mem_filterMap.mp h
  have inside := List.mem_range.mp hi
  obtain ⟨d, -, rfl⟩ := Option.map_eq_some_iff.mp found
  simp only [lineEnd]
  split
  · cases closing : closingLine? lines i with
    | none => exact inside
    | some j => exact (closingLine?_eq_some_iff.mp closing).1.2.1
  · exact inside

/-! ### The whole state -/

/-- The state in which the depths say the scan must be after some lines. -/
def Scan.ofDepths (lines : List (List Char)) : Scan :=
  ⟨lines.length, depthAt lines lines.length, openFrames lines, (entriesOf lines).reverse⟩

namespace Scan

theorem define_ofDepths (lines : List (List Char)) (line : List Char) :
    ((definition? line).elim (ofDepths lines) fun d => (ofDepths lines).define d line.length) =
      { ofDepths lines with
        entries := (entryAt? (lines ++ [line]) lines.length).toList ++
          (entriesOf lines).reverse } := by
  rw [entryAt?_append_length]
  cases definition? line with
  | none => rfl
  | some d => simp [define, ofDepths, head?_openFrames]

theorem closeAt_eq_self (lines : List (List Char)) (line : List Char)
    (h : depthAt lines lines.length ≤ depthAt (lines ++ [line]) (lines.length + 1))
    (e : Entry) : closeAt lines line e = e := by
  rw [closeAt, if_neg]
  rintro ⟨f, hf, -, back⟩
  have := depth_lt_of_mem_openFrames hf
  omega

theorem filter_openFrames_eq_self (lines : List (List Char)) (depth : Nat)
    (h : depthAt lines lines.length ≤ depth) :
    (openFrames lines).filter (fun f => f.depth < depth) = openFrames lines := by
  rw [List.filter_eq_self]
  intro f hf
  have := depth_lt_of_mem_openFrames hf
  simp only [decide_eq_true_eq]
  omega

/-- A new entry already ends where closing its block would put its end. -/
theorem closeAt_entries (lines : List (List Char)) (line : List Char) (frames : List Frame)
    (old : ∀ f, f.line ≠ lines.length → (f ∈ frames ↔ f ∈ openFrames lines)) :
    ((entryAt? (lines ++ [line]) lines.length).toList ++ (entriesOf lines).reverse).map
        (fun e => if ∃ f ∈ frames, f.line = e.start.line ∧
            depthAt (lines ++ [line]) (lines.length + 1) ≤ f.depth
          then { e with stop := ⟨lines.length, line.length⟩ } else e) =
      (entriesOf (lines ++ [line])).reverse := by
  rw [entriesOf_append, List.reverse_append, List.map_append, List.map_reverse]
  congr 1
  · rw [entryAt?_append_length]
    cases definition? line <;> simp
  · congr 1
    apply List.map_congr_left
    intro e he
    have before := start_line_lt_of_mem_entriesOf he
    rw [closeAt]
    congr 1
    rw [eq_iff_iff]
    refine exists_congr fun f => and_congr_left fun ⟨same, _⟩ => old f (by omega)

def midLine (lines : List (List Char)) (line : List Char) : Scan where
  line := lines.length
  depth :=
    if opens (codePortion line) then depthAt lines lines.length + 1
    else depthAt lines lines.length
  frames :=
    if opens (codePortion line) ∧ (definition? line).any (·.kind.isScoped) then
      ⟨lines.length, depthAt lines lines.length⟩ :: openFrames lines
    else openFrames lines
  entries := (entryAt? (lines ++ [line]) lines.length).toList ++ (entriesOf lines).reverse

theorem step_eq_midLine (lines : List (List Char)) (line : List Char) :
    (ofDepths lines).step line =
      { (if closes (codePortion line) then (midLine lines line).closeBlock line.length
          else midLine lines line) with line := lines.length + 1 } := by
  have opened :
      (if opens (codePortion line) then
        ({ ofDepths lines with entries := (midLine lines line).entries } : Scan).openBlock
          ((definition? line).any fun d => d.kind.isScoped)
      else { ofDepths lines with entries := (midLine lines line).entries }) =
        midLine lines line := by
    by_cases opening : opens (codePortion line)
    · simp [openBlock, midLine, ofDepths, opening]
    · simp [midLine, ofDepths, opening]
  simp only [step, define_ofDepths]
  rw [← opened]
  rfl

theorem depth_lt_of_mem_frames_midLine {lines : List (List Char)} {line : List Char} {f : Frame}
    (h : f ∈ (midLine lines line).frames) : f.depth < (midLine lines line).depth := by
  simp only [midLine] at h ⊢
  split at h
  · rename_i opening
    rw [if_pos opening.1]
    rcases List.mem_cons.mp h with rfl | h
    · exact Nat.lt_succ_self _
    · exact Nat.lt_succ_of_lt (depth_lt_of_mem_openFrames h)
  · have := depth_lt_of_mem_openFrames h
    split <;> omega

theorem pairwise_depth_midLine (lines : List (List Char)) (line : List Char) :
    (midLine lines line).frames.Pairwise fun f g => g.depth < f.depth := by
  simp only [midLine]
  split
  · exact List.pairwise_cons.mpr
      ⟨fun f hf => depth_lt_of_mem_openFrames hf, pairwise_depth_openFrames lines⟩
  · exact pairwise_depth_openFrames lines

theorem mem_frames_midLine {lines : List (List Char)} {line : List Char} (f : Frame)
    (h : f.line ≠ lines.length) :
    f ∈ (midLine lines line).frames ↔ f ∈ openFrames lines := by
  simp only [midLine]
  split
  · rw [List.mem_cons, or_iff_right]
    rintro rfl
    exact h rfl
  · rfl

theorem depthAt_of_closes {lines : List (List Char)} {line : List Char}
    (h : closes (codePortion line)) :
    depthAt (lines ++ [line]) (lines.length + 1) = (midLine lines line).depth - 1 := by
  rw [depthAt_append_length, depthAfter, if_pos h, midLine]

theorem depthAt_of_not_closes {lines : List (List Char)} {line : List Char}
    (h : ¬ closes (codePortion line)) :
    depthAt (lines ++ [line]) (lines.length + 1) = (midLine lines line).depth := by
  rw [depthAt_append_length, depthAfter, if_neg h, midLine]

theorem openFrames_append_of_closes {lines : List (List Char)} {line : List Char}
    (h : closes (codePortion line)) :
    openFrames (lines ++ [line]) =
      (midLine lines line).frames.filter fun f => f.depth < (midLine lines line).depth - 1 := by
  have stays : isOpen (lines ++ [line]) lines.length = false := by
    rw [isOpen_append_length, depthAt_of_closes h, midLine]
    simp only [Bool.and_eq_false_imp, decide_eq_false_iff_not]
    intro _
    split <;> omega
  rw [openFrames_append, stays, depthAt_of_closes h, if_neg Bool.false_ne_true,
    List.nil_append]
  by_cases pushed : opens (codePortion line) ∧ (definition? line).any (·.kind.isScoped)
  · simp [midLine, pushed]
  · simp [midLine, pushed]

theorem openFrames_append_of_not_closes {lines : List (List Char)} {line : List Char}
    (h : ¬ closes (codePortion line)) :
    openFrames (lines ++ [line]) = (midLine lines line).frames := by
  rw [openFrames_append, isOpen_append_length, depthAt_of_not_closes h]
  by_cases opening : opens (codePortion line)
  · have grown : (midLine lines line).depth = depthAt lines lines.length + 1 := by
      simp [midLine, opening]
    rw [grown, filter_openFrames_eq_self lines _ (Nat.le_succ _)]
    simp only [midLine, opening, true_and]
    cases (definition? line).any (·.kind.isScoped) <;> simp
  · have same : (midLine lines line).depth = depthAt lines lines.length := by
      simp [midLine, opening]
    rw [same, filter_openFrames_eq_self lines _ le_rfl]
    simp [midLine, opening]

theorem step_ofDepths (lines : List (List Char)) (line : List Char) :
    (ofDepths lines).step line = ofDepths (lines ++ [line]) := by
  rw [step_eq_midLine]
  by_cases closing : closes (codePortion line)
  · rw [if_pos closing, closeBlock_eq _ _ (pairwise_depth_midLine lines line)
      fun f hf => depth_lt_of_mem_frames_midLine hf]
    have entries := closeAt_entries lines line (midLine lines line).frames
      fun f hf => mem_frames_midLine f hf
    rw [depthAt_of_closes closing] at entries
    simp only [ofDepths, List.length_append, List.length_singleton,
      openFrames_append_of_closes closing, depthAt_of_closes closing, ← entries]
    rfl
  · rw [if_neg closing]
    have grows : depthAt lines lines.length ≤
        depthAt (lines ++ [line]) (lines.length + 1) := by
      rw [depthAt_of_not_closes closing]
      simp only [midLine]
      split <;> omega
    have entries : (entriesOf lines).map (closeAt lines line) = entriesOf lines := by
      rw [List.map_congr_left fun e _ => closeAt_eq_self lines line grows e, List.map_id']
    simp only [ofDepths, List.length_append, List.length_singleton, entriesOf_append, entries,
      openFrames_append_of_not_closes closing, depthAt_of_not_closes closing,
      List.reverse_append]
    simp only [midLine]
    cases entryAt? (lines ++ [line]) lines.length <;> rfl

theorem run_eq_ofDepths (lines : List (List Char)) : run lines = ofDepths lines := by
  induction lines using List.reverseRecOn with
  | nil => rfl
  | append_singleton lines line ih =>
    rw [run, List.foldl_append, List.foldl_cons, List.foldl_nil, ← run, ih, step_ofDepths]

theorem line_run (lines : List (List Char)) : (run lines).line = lines.length := by
  rw [run_eq_ofDepths, ofDepths]

theorem depth_lt_of_mem_frames_run {lines : List (List Char)} {f : Frame}
    (h : f ∈ (run lines).frames) : f.depth < (run lines).depth := by
  rw [run_eq_ofDepths] at h ⊢
  exact depth_lt_of_mem_openFrames h

theorem start_line_lt_of_mem_run {lines : List (List Char)} {e : Entry}
    (h : e ∈ (run lines).entries) : e.start.line < lines.length := by
  rw [run_eq_ofDepths, ofDepths, List.mem_reverse] at h
  exact start_line_lt_of_mem_entriesOf h

theorem run_append (upper lower : List (List Char)) :
    run (upper ++ lower) = lower.foldl step (run upper) := List.foldl_append

end Scan

end VibeLens.Outline
