import VibeLens.Proofs.Session.Supersession
import VibeLens.Proofs.Store.Isolation

set_option autoImplicit false

/-!
A save is not disturbed by other documents. While its run is in flight other documents are saved and
closed, runs of theirs end, and settings and server change; the store still knows the same of the
document, and the settings are read before the run only, so the save ends as if it had been alone.
-/

namespace VibeLens

/-- The document that an event is about. Settings and server are about none. -/
def SessionEvent.document? : SessionEvent → Option String
  | .save document | .close document | .put document _ => some document
  | .finish pending _ => some pending.document
  | .configure _ | .serve _ => none

namespace Traffic

variable {t : Traffic} {document : String}

theorem document?_of_mem_requests {e : SessionEvent} {r : Store.Request}
    (h : r ∈ t.requests e) : e.document? = some r.document := by
  cases e with
  | save document =>
    rw [requests, List.mem_singleton] at h
    subst h
    split <;> rfl
  | finish pending result =>
    rw [requests] at h
    split at h
    · rw [List.mem_singleton.mp h]
      rfl
    · cases h
  | close document =>
    rw [List.mem_singleton.mp h]
    rfl
  | put document diagnostics =>
    rw [List.mem_singleton.mp h]
    rfl
  | configure settings => cases h
  | serve server => cases h

theorem document_ne_of_mem_allRequests {events : List SessionEvent}
    (others : ∀ e ∈ events, e.document? ≠ some document) {r : Store.Request}
    (h : r ∈ t.allRequests events) : r.document ≠ document := by
  induction events generalizing t with
  | nil => cases h
  | cons e rest ih =>
    rcases List.mem_append.mp h with now | later
    · rintro rfl
      exact others e List.mem_cons_self (document?_of_mem_requests now)
    · exact ih (fun e he => others e (List.mem_cons_of_mem _ he)) later

/-- Events about other documents leave what the store knows of this one. -/
theorem agreesAt_after {events : List SessionEvent}
    (others : ∀ e ∈ events, e.document? ≠ some document) :
    Store.AgreesAt document (t.after events).session.store t.session.store := by
  rw [store_after]
  exact Store.agreesAt_after_of_ne (fun r hr => document_ne_of_mem_allRequests others hr) _

/-- The session after a save, with what happens during the run and the result that the run gives. A
save that runs nothing is over at once. -/
def saveDuring (t : Traffic) (document : String) (during : List SessionEvent)
    (result : Option RunResult) : Session :=
  match (t.session.beginSave document).2 with
  | some pending => ((t.step (.save document)).after during).session.endSave pending result
  | none => (t.step (.save document)).session

theorem agreesAt_saveDuring {during : List SessionEvent}
    (others : ∀ e ∈ during, e.document? ≠ some document) (result : Option RunResult) :
    Store.AgreesAt document (t.saveDuring document during result).store
      (t.saveDuring document [] result).store := by
  cases begun : (t.session.beginSave document).2 with
  | none =>
    simp only [saveDuring, begun]
    exact .refl document _
  | some pending =>
    simp only [saveDuring, begun, after_nil]
    have same := agreesAt_after (t := t.step (.save document)) others
    obtain ⟨-, rfl⟩ := Session.of_beginSave_eq_some begun
    exact same.handle_both (r := .replace document (Session.reported result) (some _))

end Traffic

/-- A save that waits for its run is a save during which nothing happens. -/
theorem Host.save_eq_saveDuring (h : Host) (s : Session) (path : Path) :
    h.save s path = (do
      let key ← Failure.ofPath (h.documentKey path.toString)
      let (h, result) ← if s.checksSaves then h.check s.settings path else .ok (h, none)
      let saved := (Traffic.mk s []).saveDuring key [] result
      return (h, saved, saved.diagnostics key)) := by
  rw [save]
  congr 1
  funext key
  by_cases checks : s.checksSaves
  · simp [Traffic.saveDuring, Traffic.step, Session.beginSave, checks]
  · simp only [Traffic.saveDuring, Traffic.step, Session.beginSave, checks, if_false,
      Bool.false_eq_true, Session.diagnostics, Store.get, Store.clear, Table.get?_erase, if_true,
      Option.getD_none, ok_bind]

/-- What is kept and replied about a document depends on nothing that concerns other documents. -/
theorem documents_do_not_interfere :
    (∀ (history : List Store.Request) (doc : String),
      (Store.empty.replies history).filter (·.1.document = doc) =
          Store.empty.replies (Store.about doc history) ∧
        (Store.empty.after history).get doc =
          (Store.empty.after (Store.about doc history)).get doc) ∧
    (∀ (t : Traffic) (document : String) (during : List SessionEvent)
        (result : Option RunResult), (∀ e ∈ during, e.document? ≠ some document) →
      (t.saveDuring document during result).diagnostics document =
          (t.saveDuring document [] result).diagnostics document ∧
        (t.saveDuring document during result).store.entries.get? document =
          (t.saveDuring document [] result).store.entries.get? document) ∧
    ∀ (h : Host) (s : Session) (path : Path),
      h.save s path = (do
        let key ← Failure.ofPath (h.documentKey path.toString)
        let (h, result) ← if s.checksSaves then h.check s.settings path else .ok (h, none)
        let saved := (Traffic.mk s []).saveDuring key [] result
        return (h, saved, saved.diagnostics key)) := by
  refine ⟨?_, ?_, ?_⟩
  · intro history doc
    obtain ⟨replies, agree⟩ := (Store.AgreesAt.refl doc .empty).replies_about history
    exact ⟨replies, agree.get_eq⟩
  · intro t document during result others
    have agree := Traffic.agreesAt_saveDuring (t := t) others result
    exact ⟨agree.get_eq, agree.entry⟩
  · intro h s path
    exact Host.save_eq_saveDuring h s path

def interlude : List SessionEvent :=
  [.save "b",
   .configure { Settings.default with checking := { Checking.default with enabled := false } },
   .finish ⟨"b", 1⟩ (some ⟨1, "[9:9] not here".toList⟩),
   .save "c", .close "b", .serve (some (Path.ofString "/bin/vibe-lsp"))]

theorem save_undisturbed_by_interlude :
    (∀ e ∈ interlude, e.document? ≠ some "a") ∧
      ((Traffic.mk .default []).saveDuring "a" interlude
        (some ⟨1, "[3:5] unexpected token".toList⟩)).diagnostics "a" =
          [⟨2, 4, "unexpected token"⟩] := by
  have others : ∀ e ∈ interlude, e.document? ≠ some "a" := by decide
  refine ⟨others, ?_⟩
  rw [(documents_do_not_interfere.2.1 _ "a" interlude _ others).1]
  decide +kernel

end VibeLens
