import VibeLens.Store

set_option autoImplicit false

/-!
Histories of a store. The number of the latest run of a document counts the requests that supersede
its runs: every start of a run and every time the document is forgotten. A result is therefore
accepted exactly if no such request came after the start of its run.
-/

namespace VibeLens.Store

def after (s : Store) (requests : List Request) : Store :=
  requests.foldl (fun s r => (s.handle r).1) s

@[simp] theorem after_nil (s : Store) : s.after [] = s := rfl

@[simp] theorem after_cons (s : Store) (r : Request) (rest : List Request) :
    s.after (r :: rest) = (s.handle r).1.after rest := rfl

theorem after_append (s : Store) (first second : List Request) :
    s.after (first ++ second) = (s.after first).after second := List.foldl_append

/-- The number of the latest run of a document, zero if there never was one. -/
def generation (s : Store) (doc : String) : Nat := (s.generations.get? doc).getD 0

/-- The request makes every run of the document that is under way out of date. -/
def Request.Supersedes (doc : String) (r : Request) : Prop := r = .begin doc ∨ r = .forget doc

instance (doc : String) : DecidablePred (Request.Supersedes doc) := fun r =>
  inferInstanceAs (Decidable (r = .begin doc ∨ r = .forget doc))

theorem get?_generations_handle (s : Store) (r : Request) (doc : String) :
    (s.handle r).1.generations.get? doc =
      if r = .begin doc then some (s.generation doc + 1)
      else if r = .forget doc then (s.generations.get? doc).map (· + 1)
      else s.generations.get? doc := by
  cases r with
  | begin d =>
    by_cases same : d = doc
    · simp [handle, begin, generation, same]
    · simp [handle, begin, same]
  | replace d diagnostics number =>
    by_cases accepted : s.accepts d number
    · by_cases none : diagnostics.isEmpty <;> simp [handle, replace, set, clear, accepted, none]
    · simp [handle, replace, accepted]
  | clear d => simp [handle, clear]
  | forget d =>
    by_cases same : d = doc
    · subst same
      cases known : s.generations.get? d <;> simp [handle, forget, clear, known]
    · cases known : s.generations.get? d <;> simp [handle, forget, clear, known, same]
  | get d => simp [handle]
  | contains d => simp [handle]

/-- Once a document has a number, it counts the requests that supersede its runs. -/
theorem get?_generations_after {s : Store} {doc : String} {g : Nat}
    (known : s.generations.get? doc = some g) (requests : List Request) :
    (s.after requests).generations.get? doc =
      some (g + requests.countP (Request.Supersedes doc)) := by
  induction requests generalizing s g with
  | nil => exact known
  | cons r rest ih =>
    have step : (s.handle r).1.generations.get? doc =
        some (if r.Supersedes doc then g + 1 else g) := by
      rw [get?_generations_handle, known, generation, known]
      by_cases begins : r = .begin doc
      · simp [begins, Request.Supersedes]
      · by_cases forgets : r = .forget doc
        · simp [forgets, Request.Supersedes]
        · simp [begins, forgets, Request.Supersedes]
    rw [after_cons, ih step, List.countP_cons]
    by_cases supersedes : r.Supersedes doc
    · simp only [supersedes, if_true, decide_true]
      congr 1
      omega
    · simp [supersedes]

theorem get?_generations_begin (s : Store) (doc : String) :
    (s.begin doc).1.generations.get? doc = some (s.begin doc).2 := by
  simp [begin]

/-! ### Numbers are issued in increasing order -/

def Reply.generation? : Reply → Option Nat
  | generation n => some n
  | _ => none

/-- The numbers given to the runs of a document, in the order in which they start. -/
def issued (doc : String) (s : Store) : List Request → List Nat
  | [] => []
  | r :: rest =>
    (if r = .begin doc then (s.handle r).2.generation?.toList else []) ++
      issued doc (s.handle r).1 rest

theorem generation_le_handle (s : Store) (r : Request) (doc : String) :
    s.generation doc ≤ (s.handle r).1.generation doc := by
  simp only [generation, get?_generations_handle]
  split
  · exact Nat.le_succ _
  · split
    · cases s.generations.get? doc <;> simp
    · exact Nat.le_refl _

theorem generation_lt_of_mem_issued {s : Store} {doc : String} {requests : List Request}
    {n : Nat} (h : n ∈ issued doc s requests) : s.generation doc < n := by
  induction requests generalizing s with
  | nil => simp [issued] at h
  | cons r rest ih =>
    rw [issued, List.mem_append] at h
    rcases h with h | h
    · split at h
      · rename_i begins
        subst begins
        simp only [handle, Reply.generation?, begin, Option.toList_some, List.mem_singleton] at h
        simp only [generation]
        omega
      · simp at h
    · exact Nat.lt_of_le_of_lt (generation_le_handle s r doc) (ih h)

theorem pairwise_issued (doc : String) (s : Store) (requests : List Request) :
    (issued doc s requests).Pairwise (· < ·) := by
  induction requests generalizing s with
  | nil => exact List.Pairwise.nil
  | cons r rest ih =>
    rw [issued, List.pairwise_append]
    refine ⟨?_, ih _, ?_⟩
    · split
      · cases (s.handle r).2.generation? <;> simp
      · exact List.Pairwise.nil
    · intro n hn m hm
      have later := generation_lt_of_mem_issued hm
      split at hn
      · rename_i begins
        subst begins
        simp only [handle, Reply.generation?, Option.toList_some, List.mem_singleton] at hn
        subst hn
        simpa [generation, handle, get?_generations_begin] using later
      · simp at hn

/-! ### Results are accepted as long as they are current -/

theorem replace_snd (s : Store) (doc : String) (diagnostics : List Diagnostic)
    (number : Option Int) :
    (s.replace doc diagnostics number).2 = s.accepts doc number := by
  rw [replace]
  split <;> simp_all

theorem accepts_iff (s : Store) (doc : String) (g : Nat) :
    s.accepts doc (some g) ↔ s.generations.get? doc = some g := by
  simp only [accepts, beq_iff_eq, Option.map_eq_some_iff]
  constructor
  · rintro ⟨n, known, same⟩
    rw [known, Int.ofNat.inj same]
  · exact fun known => ⟨g, known, rfl⟩

theorem accepts_after_begin_iff (s : Store) (doc : String) (between : List Request) :
    ((s.begin doc).1.after between).accepts doc (some (s.begin doc).2) ↔
      ∀ r ∈ between, ¬ r.Supersedes doc := by
  rw [accepts_iff, get?_generations_after (get?_generations_begin s doc)]
  simp [List.countP_eq_zero]

theorem replace_of_refused {s : Store} {doc : String} {diagnostics : List Diagnostic}
    {number : Option Int} (refused : (s.replace doc diagnostics number).2 = false) :
    (s.replace doc diagnostics number).1 = s := by
  rw [replace_snd] at refused
  rw [replace, refused, if_neg Bool.false_ne_true]

theorem get_set (s : Store) (doc other : String) (diagnostics : List Diagnostic) :
    (s.set doc diagnostics).get other = if doc = other then diagnostics else s.get other := by
  by_cases none : diagnostics.isEmpty
  · simp only [set, none, if_true, clear, get, Table.get?_erase]
    split
    · simpa using none
    · rfl
  · simp only [set, none, get, Table.get?_put, Bool.false_eq_true, if_false]
    split <;> rfl

theorem contains_set (s : Store) (doc : String) (diagnostics : List Diagnostic) :
    (s.set doc diagnostics).contains doc = true ↔ diagnostics ≠ [] := by
  cases diagnostics <;> simp [set, clear, contains]

theorem get?_entries_replace (s : Store) (doc other : String) (diagnostics : List Diagnostic)
    (number : Option Int) (h : doc ≠ other) :
    (s.replace doc diagnostics number).1.entries.get? other = s.entries.get? other := by
  by_cases accepted : s.accepts doc number
  · by_cases none : diagnostics.isEmpty <;> simp [replace, set, clear, accepted, none, h]
  · simp [replace, accepted]

theorem generations_replace (s : Store) (doc : String) (diagnostics : List Diagnostic)
    (number : Option Int) : (s.replace doc diagnostics number).1.generations = s.generations := by
  by_cases accepted : s.accepts doc number
  · by_cases none : diagnostics.isEmpty <;> simp [replace, set, clear, accepted, none]
  · simp [replace, accepted]

end VibeLens.Store
