import VibeLens.Proofs.Store.Generations

set_option autoImplicit false

/-!
Documents in a store do not interfere. A request is answered from the entry and the number of its own
document and changes nothing else, so two stores that agree about a document go on to agree about it,
whatever is asked about other documents in one of them only.
-/

namespace VibeLens.Store

def entryAfter (s : Store) : Request → Option (List Diagnostic)
  | .replace doc diagnostics number =>
    if s.accepts doc number then if diagnostics.isEmpty then none else some diagnostics
    else s.entries.get? doc
  | .clear _ | .forget _ => none
  | .begin doc | .get doc | .contains doc => s.entries.get? doc

theorem get?_entries_handle_self (s : Store) (r : Request) :
    (s.handle r).1.entries.get? r.document = s.entryAfter r := by
  cases r with
  | replace doc diagnostics number =>
    simp only [handle, replace, entryAfter, Request.document]
    split
    · rw [set]
      split <;> simp [clear]
    · rfl
  | clear doc => simp [handle, clear, entryAfter, Request.document]
  | forget doc =>
    simp only [handle, forget, clear, entryAfter, Request.document]
    split <;> simp
  | begin doc => rfl
  | get doc => rfl
  | contains doc => rfl

theorem get?_entries_handle_of_ne (s : Store) {r : Request} {doc : String}
    (other : r.document ≠ doc) : (s.handle r).1.entries.get? doc = s.entries.get? doc := by
  cases r with
  | replace d diagnostics number => exact get?_entries_replace s d doc diagnostics number other
  | clear d => exact (Table.get?_erase ..).trans (if_neg other)
  | forget d =>
    simp only [handle, forget, clear]
    split <;> exact (Table.get?_erase ..).trans (if_neg other)
  | begin d => rfl
  | get d => rfl
  | contains d => rfl

structure AgreesAt (doc : String) (s s' : Store) : Prop where
  entry : s.entries.get? doc = s'.entries.get? doc
  number : s.generations.get? doc = s'.generations.get? doc

namespace AgreesAt

variable {doc : String} {s s' : Store} {r : Request}

theorem refl (doc : String) (s : Store) : AgreesAt doc s s := ⟨rfl, rfl⟩

theorem get_eq (h : AgreesAt doc s s') : s.get doc = s'.get doc := by
  rw [Store.get, h.entry, Store.get]

theorem accepts_eq (h : AgreesAt doc s s') (number : Option Int) :
    s.accepts doc number = s'.accepts doc number := by
  cases number with
  | none => rfl
  | some g => rw [Store.accepts, h.number, Store.accepts]

/-- A request about another document leaves what is known of this one as it is. -/
theorem handle_left (h : AgreesAt doc s s') (other : r.document ≠ doc) :
    AgreesAt doc (s.handle r).1 s' where
  entry := by rw [get?_entries_handle_of_ne s other, h.entry]
  number := by
    have notBegun : r ≠ .begin doc := fun same => other (same ▸ rfl)
    have notForgotten : r ≠ .forget doc := fun same => other (same ▸ rfl)
    rw [get?_generations_handle, if_neg notBegun, if_neg notForgotten, h.number]

theorem entryAfter_eq (h : AgreesAt r.document s s') : s.entryAfter r = s'.entryAfter r := by
  cases r with
  | replace d diagnostics number =>
    have accepts := h.accepts_eq number
    have entry := h.entry
    simp only [Request.document] at accepts entry
    rw [entryAfter, accepts, entry, entryAfter]
  | begin d => exact h.entry
  | get d => exact h.entry
  | contains d => exact h.entry
  | clear d => rfl
  | forget d => rfl

theorem reply_eq (h : AgreesAt r.document s s') : (s.handle r).2 = (s'.handle r).2 := by
  cases r with
  | begin d => exact congrArg (fun known => Reply.generation (known.getD 0 + 1)) h.number
  | replace d diagnostics number =>
    simp only [handle, replace_snd]
    exact congrArg Reply.truth (h.accepts_eq number)
  | get d => exact congrArg Reply.diagnostics h.get_eq
  | contains d => exact congrArg (fun entry => Reply.truth entry.isSome) h.entry
  | clear d => rfl
  | forget d => rfl

/-- A request about the document itself has the same effect on it. -/
theorem handle_both (h : AgreesAt r.document s s') :
    AgreesAt r.document (s.handle r).1 (s'.handle r).1 where
  entry := by rw [get?_entries_handle_self, get?_entries_handle_self, h.entryAfter_eq]
  number := by
    rw [get?_generations_handle, get?_generations_handle, generation, h.number, generation]

end AgreesAt

/-- The requests of a history, each with its reply. -/
def replies (s : Store) : List Request → List (Request × Reply)
  | [] => []
  | r :: rest => (r, (s.handle r).2) :: (s.handle r).1.replies rest

/-- The requests of a history that are about a document. -/
def about (doc : String) (requests : List Request) : List Request :=
  requests.filter (·.document = doc)

/-- A store that handles all requests, and one that handles only those about a document, give the
same replies about it and agree about it in the end. -/
theorem AgreesAt.replies_about {doc : String} {s s' : Store} (h : AgreesAt doc s s')
    (requests : List Request) :
    (s.replies requests).filter (·.1.document = doc) = s'.replies (about doc requests) ∧
      AgreesAt doc (s.after requests) (s'.after (about doc requests)) := by
  induction requests generalizing s s' with
  | nil => exact ⟨rfl, h⟩
  | cons r rest ih =>
    by_cases own : r.document = doc
    · subst own
      obtain ⟨later, final⟩ := ih h.handle_both
      have kept : about r.document (r :: rest) = r :: about r.document rest :=
        List.filter_cons_of_pos (by simp)
      rw [kept, replies, List.filter_cons_of_pos (by simp), later, h.reply_eq]
      exact ⟨rfl, final⟩
    · obtain ⟨later, final⟩ := ih (h.handle_left own)
      have dropped : about doc (r :: rest) = about doc rest :=
        List.filter_cons_of_neg (by simpa using own)
      rw [dropped, replies, List.filter_cons_of_neg (by simpa using own)]
      exact ⟨later, final⟩

theorem agreesAt_after_of_ne {doc : String} {requests : List Request}
    (others : ∀ r ∈ requests, r.document ≠ doc) (s : Store) :
    AgreesAt doc (s.after requests) s := by
  have none_about : about doc requests = [] := by
    rw [about, List.filter_eq_nil_iff]
    intro r hr
    simpa using others r hr
  have agree := ((AgreesAt.refl doc s).replies_about requests).2
  rwa [none_about] at agree

end VibeLens.Store
