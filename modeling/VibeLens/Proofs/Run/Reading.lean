import Mathlib.Data.List.Basic
import VibeLens.Run.Interpreter

set_option autoImplicit false

/-!
The error text of a run is read in chunks, as the system happens to give them. In which chunks it
comes does not matter: either all of it is read, or so much that it is known to be too long. So a run
is refused exactly if it wrote more than is accepted, and what is accepted is complete.
-/

namespace VibeLens

open Text (Utf8.Bytes Utf8.decode)

variable {limit n m : Nat} {buffer output : Utf8.Bytes} {reads : List Utf8.Bytes}

/-- The chunks in which an output can be read. None of them is empty, since reading nothing means that
the output is over, and none is longer than what is asked for. -/
structure Chunking (output : Utf8.Bytes) (reads : List Utf8.Bytes) : Prop where
  whole : reads.flatten = output
  sizes : ∀ chunk ∈ reads, chunk ≠ [] ∧ chunk.length ≤ chunkSize

/-- What was written is cut into chunks in which it can be read. -/
theorem chunking_chunks (written : Utf8.Bytes) : Chunking written (chunks written) := by
  fun_induction chunks written with
  | case1 written empty => exact ⟨by simpa using empty.symm, List.forall_mem_nil _⟩
  | case2 written nonempty ih =>
    refine ⟨?_, List.forall_mem_cons.mpr ⟨⟨?_, List.length_take_le ..⟩, ih.sizes⟩⟩
    · rw [List.flatten_cons, ih.whole, List.take_append_drop]
    · have some : chunkSize ≠ 0 := by decide
      simpa [List.take_eq_nil_iff, some] using nonempty

/-! ### Rounds of reading -/

structure Reader where
  buffer : Utf8.Bytes
  coming : List Utf8.Bytes

namespace Reader

variable {r next last other : Reader}

/-- One round. A reader that has more than the limit is done, and so is one that reads nothing. -/
def round? (limit : Nat) (r : Reader) : Option Reader :=
  match r.coming with
  | [] => none
  | chunk :: rest =>
    if r.buffer.length ≤ limit ∧ chunk ≠ [] then some ⟨r.buffer ++ chunk, rest⟩ else none

inductive StopsAfter (limit : Nat) : Nat → Reader → Reader → Prop where
  | done {r : Reader} : r.round? limit = none → StopsAfter limit 0 r r
  | round {n : Nat} {r next last : Reader} :
      r.round? limit = some next → StopsAfter limit n next last → StopsAfter limit (n + 1) r last

theorem round?_eq_some_iff : r.round? limit = some next ↔
    ∃ chunk rest, r.coming = chunk :: rest ∧ r.buffer.length ≤ limit ∧ chunk ≠ [] ∧
      next = ⟨r.buffer ++ chunk, rest⟩ := by
  obtain ⟨buffer, coming⟩ := r
  cases coming with
  | nil => simp [round?]
  | cons chunk rest => simp [round?, eq_comm, and_assoc]

/-- A reader is done in no more rounds than there are chunks. -/
theorem exists_stopsAfter (limit : Nat) (r : Reader) :
    ∃ n last, n ≤ r.coming.length ∧ StopsAfter limit n r last := by
  obtain ⟨buffer, coming⟩ := r
  induction coming generalizing buffer with
  | nil => exact ⟨0, _, Nat.le_refl _, .done rfl⟩
  | cons chunk rest ih =>
    cases step : round? limit ⟨buffer, chunk :: rest⟩ with
    | none => exact ⟨0, _, Nat.zero_le _, .done step⟩
    | some next =>
      obtain ⟨_, _, same, -, -, rfl⟩ := round?_eq_some_iff.mp step
      obtain ⟨rfl, rfl⟩ := List.cons_eq_cons.mp same
      obtain ⟨n, last, bound, stops⟩ := ih (buffer ++ chunk)
      exact ⟨n + 1, last, Nat.succ_le_succ bound, .round step stops⟩

/-- What the rounds collect is what draining gives. -/
theorem StopsAfter.buffer_eq (stops : StopsAfter limit n r last) :
    last.buffer = drain limit r.buffer r.coming := by
  induction stops with
  | @done r ended =>
    obtain ⟨buffer, coming⟩ := r
    cases coming with
    | nil => rfl
    | cons chunk rest =>
      rw [drain, if_neg]
      rintro ⟨room, nonempty⟩
      cases ended.symm.trans (round?_eq_some_iff.mpr ⟨chunk, rest, rfl, room, nonempty, rfl⟩)
  | @round n r next last step _ ih =>
    obtain ⟨buffer, coming⟩ := r
    obtain ⟨chunk, rest, rfl, room, nonempty, rfl⟩ := round?_eq_some_iff.mp step
    rw [drain, if_pos ⟨room, nonempty⟩]
    exact ih

/-- What holds of a reader of an output: nothing is lost, and it never has more than one chunk too
much. -/
structure Follows (limit : Nat) (output : Utf8.Bytes) (r : Reader) : Prop where
  whole : r.buffer ++ r.coming.flatten = output
  sizes : ∀ chunk ∈ r.coming, chunk ≠ [] ∧ chunk.length ≤ chunkSize
  bounded : r.buffer.length ≤ limit + chunkSize

theorem follows_start (chunking : Chunking output reads) : Follows limit output ⟨[], reads⟩ :=
  ⟨chunking.whole, chunking.sizes, Nat.zero_le _⟩

theorem Follows.round (follows : r.Follows limit output) (step : r.round? limit = some next) :
    next.Follows limit output := by
  obtain ⟨chunk, rest, coming, room, -, rfl⟩ := round?_eq_some_iff.mp step
  obtain ⟨⟨-, small⟩, sizes⟩ := List.forall_mem_cons.mp (coming ▸ follows.sizes)
  refine ⟨?_, sizes, ?_⟩
  · rw [← follows.whole, coming, List.flatten_cons, List.append_assoc]
  · rw [List.length_append]
    omega

theorem Follows.stopsAfter (follows : r.Follows limit output) (stops : StopsAfter limit n r last) :
    last.Follows limit output ∧ last.round? limit = none := by
  induction stops with
  | done ended => exact ⟨follows, ended⟩
  | round step _ ih => exact ih (follows.round step)

/-- A reader is done because it has all of the output, or because it has too much of it. -/
theorem Follows.ended (follows : r.Follows limit output) (ended : r.round? limit = none) :
    r.buffer = output ∨ limit < r.buffer.length := by
  by_contra unfinished
  obtain ⟨incomplete, room⟩ := not_or.mp unfinished
  obtain ⟨buffer, coming⟩ := r
  cases coming with
  | nil =>
    have whole := follows.whole
    simp only [List.flatten_nil, List.append_nil] at whole
    exact incomplete whole
  | cons chunk rest =>
    have nonempty : chunk ≠ [] := (follows.sizes chunk List.mem_cons_self).1
    have step := round?_eq_some_iff.mpr ⟨chunk, rest, rfl, Nat.le_of_not_lt room, nonempty, rfl⟩
    rw [ended] at step
    cases step

end Reader

/-! ### What is read -/

theorem exists_stopsAfter_drain (limit : Nat) (reads : List Utf8.Bytes) :
    ∃ n left, n ≤ reads.length ∧
      Reader.StopsAfter limit n ⟨[], reads⟩ ⟨drain limit [] reads, left⟩ := by
  obtain ⟨n, ⟨buffer, left⟩, bound, stops⟩ := Reader.exists_stopsAfter limit ⟨[], reads⟩
  obtain rfl : buffer = drain limit [] reads := stops.buffer_eq
  exact ⟨n, left, bound, stops⟩

section Drained

variable (limit) (chunking : Chunking output reads)

include chunking

/-- What is drained is the front of the output, and either all of it or more than the limit. -/
theorem drain_cases :
    drain limit [] reads <+: output ∧ (drain limit [] reads).length ≤ limit + chunkSize ∧
      (drain limit [] reads = output ∨ limit < (drain limit [] reads).length) := by
  obtain ⟨n, left, -, stops⟩ := exists_stopsAfter_drain limit reads
  obtain ⟨follows, ended⟩ := (Reader.follows_start chunking).stopsAfter stops
  exact ⟨⟨_, follows.whole⟩, follows.bounded, follows.ended ended⟩

theorem drain_eq_of_length_le (fits : output.length ≤ limit) : drain limit [] reads = output := by
  obtain ⟨front, -, complete | exceeds⟩ := drain_cases limit chunking
  · exact complete
  · have shorter := front.length_le
    omega

theorem limit_lt_length_drain_iff : limit < (drain limit [] reads).length ↔ limit < output.length := by
  obtain ⟨front, -, complete | exceeds⟩ := drain_cases limit chunking
  · rw [complete]
  · exact iff_of_true exceeds (Nat.lt_of_lt_of_le exceeds front.length_le)

end Drained

namespace Checking

variable {c : Checking} {child : Child} {r : RunResult}

/-- A run can be used if it was in time and wrote no more than is accepted; what is kept of it is all
that it wrote. -/
theorem resultRead?_eq_some_iff (chunking : Chunking child.errors reads) :
    c.resultRead? child reads = some r ↔
      ∃ time, child.duration = some time ∧ c.inTime time ∧ child.errors.length ≤ c.outputLimit ∧
        r = ⟨child.code, Utf8.decode child.errors⟩ := by
  cases ended : child.duration with
  | none => simp [resultRead?, ended]
  | some time =>
    simp only [resultRead?, ended, Option.some.injEq, exists_eq_left']
    by_cases fits : child.errors.length ≤ c.outputLimit
    · rw [drain_eq_of_length_le _ chunking fits]
      simp [fits, eq_comm (a := r)]
    · have exceeds : ¬ (drain c.outputLimit [] reads).length ≤ c.outputLimit := by
        rw [Nat.not_le] at fits ⊢
        exact (limit_lt_length_drain_iff _ chunking).mpr fits
      simp [exceeds, fits]

/-- The chunks in which a run was read leave no trace in its result. -/
theorem resultRead?_eq (chunking : Chunking child.errors reads) :
    c.resultRead? child reads = c.result? child := by
  apply Option.ext
  intro r
  rw [result?, resultRead?_eq_some_iff chunking, resultRead?_eq_some_iff (chunking_chunks _)]

end Checking

/-- However the error text of a run is cut into chunks, reading it comes to an end after no more rounds
than there are chunks. If it is not longer than the limit all of it is read, and otherwise so much of
its front that it is longer, by no more than a chunk. So the run counts as having written too much
exactly if it has, its result does not depend on the chunks, and a result always holds the whole text. -/
theorem reading_independent_of_chunks (limit : Nat) (output : Utf8.Bytes) (reads : List Utf8.Bytes)
    (chunking : Chunking output reads) :
    (∃ n left, n ≤ reads.length ∧
      Reader.StopsAfter limit n ⟨[], reads⟩ ⟨drain limit [] reads, left⟩) ∧
    (output.length ≤ limit → drain limit [] reads = output) ∧
    (limit < output.length → drain limit [] reads <+: output ∧
      limit < (drain limit [] reads).length ∧ (drain limit [] reads).length ≤ limit + chunkSize) ∧
    (limit < (drain limit [] reads).length ↔ limit < output.length) ∧
    (∀ (c : Checking) (child : Child), child.errors = output →
      c.resultRead? child reads = c.result? child ∧
      ∀ r, c.result? child = some r ↔
        ∃ time, child.duration = some time ∧ c.inTime time ∧ output.length ≤ c.outputLimit ∧
          r = ⟨child.code, Utf8.decode output⟩) ∧
    ∀ (h after : Host) (s : Settings) (document : Path) (r : RunResult),
      h.check s document = .ok (after, some r) →
      ∃ child, h.startInterpreter s document = .ok (after, child) ∧
        child.errors.length ≤ s.checking.outputLimit ∧ r.errors = Utf8.decode child.errors := by
  have exceeding := limit_lt_length_drain_iff limit chunking
  refine ⟨exists_stopsAfter_drain limit reads, drain_eq_of_length_le limit chunking, ?_, exceeding,
    ?_, ?_⟩
  · intro exceeds
    obtain ⟨front, bounded, -⟩ := drain_cases limit chunking
    exact ⟨front, exceeding.mpr exceeds, bounded⟩
  · rintro c child rfl
    exact ⟨Checking.resultRead?_eq chunking, fun r =>
      Checking.resultRead?_eq_some_iff (chunking_chunks child.errors)⟩
  · intro h after s document r checked
    unfold Host.check at checked
    split at checked
    · cases checked
    · cases checked
    · rename_i child started
      split at checked
      · obtain ⟨rfl, used⟩ := Prod.mk.inj (Except.ok.inj checked)
        obtain ⟨time, -, -, fits, rfl⟩ :=
          (Checking.resultRead?_eq_some_iff (chunking_chunks child.errors)).mp used
        exact ⟨child, started, fits, rfl⟩
      · cases checked

/-- Reads that go past the limit inside a chunk, and reads that end right at it. -/
theorem reading_across_and_at_limit :
    (Chunking [1, 2, 3, 4, 5, 6] [[1, 2], [3, 4, 5], [6]] ∧
      drain 4 [] [[1, 2], [3, 4, 5], [6]] <+: [1, 2, 3, 4, 5, 6] ∧
      4 < (drain 4 [] [[1, 2], [3, 4, 5], [6]]).length) ∧
    Chunking [1, 2, 3, 4] [[1], [2, 3, 4]] ∧ drain 4 [] [[1], [2, 3, 4]] = [1, 2, 3, 4] := by
  have across : Chunking [1, 2, 3, 4, 5, 6] [[1, 2], [3, 4, 5], [6]] := ⟨rfl, by decide⟩
  have upTo : Chunking [1, 2, 3, 4] [[1], [2, 3, 4]] := ⟨rfl, by decide⟩
  obtain ⟨-, -, exceeding, -⟩ := reading_independent_of_chunks 4 _ _ across
  obtain ⟨front, exceeds, -⟩ := exceeding (by decide)
  obtain ⟨-, complete, -⟩ := reading_independent_of_chunks 4 _ _ upTo
  exact ⟨⟨across, front, exceeds⟩, upTo, complete (by decide)⟩

end VibeLens
