import VibeLens.Proofs.Store.Isolation
import VibeLens.Proofs.Text.Order

set_option autoImplicit false

/-!
What a store shows of itself is of one piece. Every request leaves each document in the table of
entries at most once and never with an empty entry, so looking a document up, asking for its
diagnostics, listing the documents and counting them all give the same account.
-/

namespace VibeLens.Store

structure Sound (s : Store) : Prop where
  distinct : s.entries.keys.Nodup
  nonempty : ∀ doc diagnostics, s.entries.get? doc = some diagnostics → diagnostics ≠ []

theorem sound_empty : empty.Sound := ⟨List.nodup_nil, nofun⟩

namespace Sound

variable {s : Store}

theorem entryAfter_ne_nil (h : s.Sound) {r : Request} {diagnostics : List Diagnostic}
    (kept : s.entryAfter r = some diagnostics) : diagnostics ≠ [] := by
  cases r with
  | replace doc given number =>
    simp only [entryAfter] at kept
    split at kept
    · split at kept
      · cases kept
      · rename_i some_given
        rintro rfl
        exact some_given (List.isEmpty_iff.mpr (Option.some.inj kept))
    · exact h.nonempty doc diagnostics kept
  | clear doc => cases kept
  | forget doc => cases kept
  | begin doc => exact h.nonempty doc diagnostics kept
  | get doc => exact h.nonempty doc diagnostics kept
  | contains doc => exact h.nonempty doc diagnostics kept

theorem distinct_set (h : s.Sound) (doc : String) (diagnostics : List Diagnostic) :
    (s.set doc diagnostics).entries.keys.Nodup := by
  rw [set]
  split
  · exact Table.nodup_keys_erase h.distinct doc
  · exact Table.nodup_keys_put h.distinct doc diagnostics

theorem handle (h : s.Sound) (r : Request) : (s.handle r).1.Sound where
  distinct := by
    cases r with
    | replace doc diagnostics number =>
      simp only [Store.handle, replace]
      split
      · exact h.distinct_set doc diagnostics
      · exact h.distinct
    | clear doc => exact Table.nodup_keys_erase h.distinct doc
    | forget doc =>
      simp only [Store.handle, forget, Store.clear]
      split <;> exact Table.nodup_keys_erase h.distinct doc
    | begin doc => exact h.distinct
    | get doc => exact h.distinct
    | contains doc => exact h.distinct
  nonempty doc diagnostics kept := by
    by_cases own : r.document = doc
    · rw [← own, get?_entries_handle_self] at kept
      exact h.entryAfter_ne_nil kept
    · rw [get?_entries_handle_of_ne s own] at kept
      exact h.nonempty doc diagnostics kept

theorem after (h : s.Sound) (requests : List Request) : (s.after requests).Sound := by
  induction requests generalizing s with
  | nil => exact h
  | cons r rest ih => exact ih (h.handle r)

theorem contains_iff (h : s.Sound) (doc : String) : s.contains doc = true ↔ s.get doc ≠ [] := by
  rw [contains, get]
  cases entry : s.entries.get? doc with
  | none => simp
  | some diagnostics => simpa using h.nonempty doc diagnostics entry

end Sound

theorem mem_documents_iff (s : Store) (doc : String) :
    doc ∈ s.documents ↔ s.contains doc = true := by
  rw [documents, List.mem_mergeSort, Table.mem_keys_iff, contains]

theorem length_documents (s : Store) : s.documents.length = s.size := by
  rw [documents, List.length_mergeSort, Table.keys, List.length_map, size]

theorem Sound.pairwise_documents {s : Store} (h : s.Sound) :
    s.documents.Pairwise fun a b => Text.codePoints a < Text.codePoints b := by
  have increasing := Text.pairwise_mergeSort_lt (fun doc => doc) h.distinct fun _ _ _ _ same => same
  exact increasing.imp Text.codePoints_lt

/-- What a store shows of itself when all ways of asking agree. -/
structure Observed (s : Store) : Prop where
  nonempty : ∀ doc diagnostics, s.entries.get? doc = some diagnostics → diagnostics ≠ []
  contained : ∀ doc, s.contains doc = true ↔ s.get doc ≠ []
  increasing : s.documents.Pairwise fun a b => Text.codePoints a < Text.codePoints b
  listed : ∀ doc, doc ∈ s.documents ↔ s.get doc ≠ []
  counted : s.size = s.documents.length

theorem Sound.observed {s : Store} (h : s.Sound) : s.Observed where
  nonempty := h.nonempty
  contained := h.contains_iff
  increasing := h.pairwise_documents
  listed doc := (s.mem_documents_iff doc).trans (h.contains_iff doc)
  counted := s.length_documents.symm

/-- After any history the ways of asking a store agree, and the number that a document has once been
given stays and never goes back. -/
theorem observers_agree (history : List Request) :
    (empty.after history).Observed ∧
      ∀ (later : List Request) (doc : String) (g : Nat),
        (empty.after history).generations.get? doc = some g →
          ∃ g', (empty.after (history ++ later)).generations.get? doc = some g' ∧ g ≤ g' := by
  refine ⟨(sound_empty.after history).observed, ?_⟩
  intro later doc g known
  rw [after_append, get?_generations_after known]
  exact ⟨_, rfl, Nat.le_add_right g _⟩

def forgottenInFlight : List Request :=
  [.begin "a", .replace "a" [⟨1, 2, "x"⟩] (some 1), .replace "b" [⟨0, 0, "y"⟩] none, .begin "a",
   .forget "a"]

theorem observers_agree_once_forgotten :
    "a" ∉ (empty.after forgottenInFlight).documents ∧
      "b" ∈ (empty.after forgottenInFlight).documents ∧
      (empty.after forgottenInFlight).generations.get? "a" = some 3 ∧
      ∃ g, (empty.after (forgottenInFlight ++ [.clear "a"])).generations.get? "a" = some g ∧
        3 ≤ g := by
  obtain ⟨observed, kept⟩ := observers_agree forgottenInFlight
  rw [observed.listed, observed.listed]
  exact ⟨by decide, by decide, by decide, kept [.clear "a"] "a" 3 (by decide)⟩

end VibeLens.Store
