import VibeLens.Proofs.Store.Generations
import VibeLens.Session

set_option autoImplicit false

/-!
Sessions in which saves overlap. Any number of runs can be in flight, of any documents, and they end
in any order, while documents are saved again and closed and settings change. A session acts on its
store by requests only, so what holds of histories of a store holds of histories of a session: a run
is published exactly if neither a newer run of its document began nor the document was closed while
it was in flight.
-/

namespace VibeLens

/-- A save that waits for a run has begun it under a number of its own. -/
theorem Session.of_beginSave_eq_some {s : Session} {document : String} {p : PendingSave}
    (begun : (s.beginSave document).2 = some p) :
    s.checksSaves ∧ p = ⟨document, (s.store.begin document).2⟩ := by
  cases checks : s.checksSaves with
  | true => exact ⟨rfl, by simpa [beginSave, checks] using begun.symm⟩
  | false => simp [beginSave, checks] at begun

inductive SessionEvent where
  | save (document : String)
  | finish (pending : PendingSave) (result : Option RunResult)
  | close (document : String)
  | put (document : String) (diagnostics : List Diagnostic)
  | configure (settings : Settings)
  | serve (server : Option Path)

structure Traffic where
  session : Session
  inFlight : List PendingSave

namespace Traffic

/-- What happens on an event. Only a run that is in flight can end. -/
def step (t : Traffic) : SessionEvent → Traffic
  | .save document =>
    ⟨(t.session.beginSave document).1,
      (t.session.beginSave document).2.toList ++ t.inFlight⟩
  | .finish pending result =>
    if pending ∈ t.inFlight then
      ⟨t.session.endSave pending result, t.inFlight.erase pending⟩
    else t
  | .close document => { t with session := t.session.close document }
  | .put document diagnostics =>
    { t with session := { t.session with
        store := (t.session.store.replace document diagnostics none).1 } }
  | .configure settings => { t with session := { t.session with settings := settings } }
  | .serve server => { t with session := { t.session with server := server } }

def after (t : Traffic) (events : List SessionEvent) : Traffic := events.foldl step t

@[simp] theorem after_nil (t : Traffic) : t.after [] = t := rfl

@[simp] theorem after_cons (t : Traffic) (e : SessionEvent) (rest : List SessionEvent) :
    t.after (e :: rest) = (t.step e).after rest := rfl

def Reachable (t : Traffic) : Prop := ∃ s events, t = (Traffic.mk s []).after events

/-- Whether the store takes the result of a run that ends now. -/
def publishes (t : Traffic) (p : PendingSave) (result : Option RunResult) : Bool :=
  (t.session.store.replace p.document (Session.reported result) (some p.generation)).2

def Always (P : Traffic → SessionEvent → Prop) (t : Traffic) : List SessionEvent → Prop
  | [] => True
  | e :: rest => P t e ∧ Always P (t.step e) rest

def BeginsRun (document : String) (t : Traffic) (e : SessionEvent) : Prop :=
  e = .save document ∧ t.session.checksSaves

/-- The event makes the runs of the document that are in flight out of date. -/
def Supersedes (document : String) (t : Traffic) (e : SessionEvent) : Prop :=
  t.BeginsRun document e ∨ e = .close document

/-! ### Sessions act by requests -/

def requests (t : Traffic) : SessionEvent → List Store.Request
  | .save document => [if t.session.checksSaves then .begin document else .clear document]
  | .finish pending result =>
    if pending ∈ t.inFlight then
      [.replace pending.document (Session.reported result) (some pending.generation)]
    else []
  | .close document => [.forget document]
  | .put document diagnostics => [.replace document diagnostics none]
  | .configure _ | .serve _ => []

theorem store_step (t : Traffic) (e : SessionEvent) :
    (t.step e).session.store = t.session.store.after (t.requests e) := by
  cases e with
  | save document =>
    by_cases checks : t.session.checksSaves <;>
      simp [step, requests, Session.beginSave, checks, Store.handle]
  | finish pending result =>
    by_cases flying : pending ∈ t.inFlight <;>
      simp [step, requests, Session.endSave, flying, Store.handle]
  | close document => rfl
  | put document diagnostics => rfl
  | configure settings => rfl
  | serve server => rfl

theorem exists_supersedes_iff (t : Traffic) (e : SessionEvent) (document : String) :
    (∃ r ∈ t.requests e, r.Supersedes document) ↔ t.Supersedes document e := by
  cases e with
  | save other =>
    by_cases checks : t.session.checksSaves <;>
      simp [requests, Supersedes, BeginsRun, Store.Request.Supersedes, checks]
  | finish pending result =>
    by_cases flying : pending ∈ t.inFlight <;>
      simp [requests, Supersedes, BeginsRun, Store.Request.Supersedes, flying]
  | close other => simp [requests, Supersedes, BeginsRun, Store.Request.Supersedes]
  | put other diagnostics => simp [requests, Supersedes, BeginsRun, Store.Request.Supersedes]
  | configure settings => simp [requests, Supersedes, BeginsRun]
  | serve server => simp [requests, Supersedes, BeginsRun]

def allRequests (t : Traffic) : List SessionEvent → List Store.Request
  | [] => []
  | e :: rest => t.requests e ++ (t.step e).allRequests rest

theorem store_after (t : Traffic) (events : List SessionEvent) :
    (t.after events).session.store = t.session.store.after (t.allRequests events) := by
  induction events generalizing t with
  | nil => rfl
  | cons e rest ih => rw [after_cons, ih, store_step, allRequests, Store.after_append]

theorem forall_not_supersedes_iff (t : Traffic) (events : List SessionEvent)
    (document : String) :
    (∀ r ∈ t.allRequests events, ¬ r.Supersedes document) ↔
      t.Always (fun t e => ¬ t.Supersedes document e) events := by
  induction events generalizing t with
  | nil => simp [allRequests, Always]
  | cons e rest ih =>
    rw [Always, ← ih, allRequests, ← exists_supersedes_iff]
    simp only [List.mem_append, or_imp, forall_and, not_exists, not_and]

/-! ### Runs in flight -/

/-- A run in flight has a number that was given to its document. -/
def Issued (t : Traffic) : Prop :=
  ∀ p ∈ t.inFlight, ∃ g, t.session.store.generations.get? p.document = some g ∧
    p.generation ≤ g

theorem mem_inFlight_step {t : Traffic} {e : SessionEvent} {p : PendingSave}
    (h : p ∈ (t.step e).inFlight) :
    p ∈ t.inFlight ∨ (t.BeginsRun p.document e ∧
      (t.step e).session.store.generations.get? p.document = some p.generation) := by
  cases e with
  | save document =>
    by_cases checks : t.session.checksSaves
    · simp only [step, Session.beginSave, checks, if_true, Option.toList_some,
        List.singleton_append, List.mem_cons] at h
      rcases h with rfl | h
      · right
        simp [BeginsRun, checks, step, Session.beginSave, Store.get?_generations_begin]
      · exact .inl h
    · simp only [step, Session.beginSave, checks, Bool.false_eq_true, if_false,
        Option.toList_none, List.nil_append] at h
      exact .inl h
  | finish pending result =>
    by_cases flying : pending ∈ t.inFlight
    · simp only [step, flying, if_true] at h
      exact .inl (List.mem_of_mem_erase h)
    · simp only [step, flying, if_false] at h
      exact .inl h
  | close document => exact .inl h
  | put document diagnostics => exact .inl h
  | configure settings => exact .inl h
  | serve server => exact .inl h

theorem Issued.step {t : Traffic} (issued : t.Issued) (e : SessionEvent) :
    (t.step e).Issued := by
  intro p hp
  rcases mem_inFlight_step hp with old | ⟨-, known⟩
  · obtain ⟨g, known, le⟩ := issued p old
    have grown := Store.get?_generations_after known (t.requests e)
    rw [← store_step] at grown
    exact ⟨_, grown, Nat.le_add_right_of_le le⟩
  · exact ⟨p.generation, known, Nat.le_refl _⟩

theorem Issued.after {t : Traffic} (issued : t.Issued) (events : List SessionEvent) :
    (t.after events).Issued := by
  induction events generalizing t with
  | nil => exact issued
  | cons e rest ih => exact ih (issued.step e)

theorem Reachable.issued {t : Traffic} (h : t.Reachable) : t.Issued := by
  obtain ⟨s, events, rfl⟩ := h
  refine Issued.after ?_ events
  intro p hp
  simp at hp

/-- The result of a run is current at its end exactly if nothing superseded it on the way. -/
theorem accepts_iff_always {t : Traffic} {document : String} {p : PendingSave}
    (begun : (t.session.beginSave document).2 = some p) (during : List SessionEvent) :
    ((t.step (.save document)).after during).session.store.accepts p.document
        (some p.generation) ↔
      (t.step (.save document)).Always (fun t e => ¬ t.Supersedes document e) during := by
  obtain ⟨checks, number⟩ := Session.of_beginSave_eq_some begun
  have store : (t.step (.save document)).session.store = (t.session.store.begin document).1 := by
    simp [step, Session.beginSave, checks]
  rw [number, store_after, store, Store.accepts_after_begin_iff, forall_not_supersedes_iff]

theorem get?_generations_close {t : Traffic} {document : String} {g : Nat}
    (known : t.session.store.generations.get? document = some g) :
    (t.step (.close document)).session.store.generations.get? document = some (g + 1) := by
  rw [store_step, Store.get?_generations_after known]
  simp [requests, Store.Request.Supersedes]

theorem not_accepts_of_closed {t : Traffic} (issued : t.Issued) {p : PendingSave}
    (flying : p ∈ t.inFlight) (later : List SessionEvent) :
    ¬ ((t.step (.close p.document)).after later).session.store.accepts p.document
        (some p.generation) := by
  obtain ⟨g, known, le⟩ := issued p flying
  rw [Store.accepts_iff, store_after,
    Store.get?_generations_after (get?_generations_close known)]
  intro same
  have := Option.some.inj same
  omega

/-! ### A closed document stays closed -/

/-- The document has no entry, and every run of it that is in flight is out of date. -/
def Retired (document : String) (t : Traffic) : Prop :=
  t.session.store.entries.get? document = none ∧
    ∀ p ∈ t.inFlight, p.document = document →
      ∃ g, t.session.store.generations.get? document = some g ∧ p.generation < g

theorem retired_of_close {t : Traffic} (issued : t.Issued) (document : String) :
    (t.step (.close document)).Retired document := by
  constructor
  · simp only [step, Session.close, Store.forget, Store.clear]
    split <;> simp
  · rintro p flying rfl
    obtain ⟨g, known, le⟩ := issued p flying
    exact ⟨g + 1, get?_generations_close known, Nat.lt_succ_of_le le⟩

/-- Only a current result or one without a number brings an entry back. -/
theorem get?_entries_step_eq_none {t : Traffic} {document : String}
    (absent : t.session.store.entries.get? document = none) (e : SessionEvent)
    (refused : ∀ p ∈ t.inFlight, p.document = document → ∀ result, e = .finish p result →
      t.session.store.accepts document (some p.generation) = false)
    (noPut : ∀ diagnostics, e ≠ .put document diagnostics) :
    (t.step e).session.store.entries.get? document = none := by
  cases e with
  | save other =>
    by_cases checks : t.session.checksSaves <;>
      simp [step, Session.beginSave, checks, Store.begin, Store.clear, absent]
  | finish p result =>
    by_cases flying : p ∈ t.inFlight
    · simp only [step, flying, if_true, Session.endSave]
      by_cases same : p.document = document
      · rw [Store.replace_of_refused]
        · exact absent
        · rw [Store.replace_snd, same, refused p flying same result rfl]
      · rw [Store.get?_entries_replace _ _ _ _ _ same, absent]
    · simpa [step, flying] using absent
  | close other =>
    simp only [step, Session.close, Store.forget, Store.clear]
    split <;> simp [absent]
  | put other diagnostics =>
    have other_ne : other ≠ document := by
      rintro rfl
      exact noPut diagnostics rfl
    simp only [step]
    rw [Store.get?_entries_replace _ _ _ _ _ other_ne, absent]
  | configure settings => exact absent
  | serve server => exact absent

theorem Retired.step {t : Traffic} {document : String} (retired : t.Retired document)
    {e : SessionEvent} (noRun : ¬ t.BeginsRun document e)
    (noPut : ∀ diagnostics, e ≠ .put document diagnostics) :
    (t.step e).Retired document := by
  obtain ⟨absent, spent⟩ := retired
  constructor
  · refine get?_entries_step_eq_none absent e ?_ noPut
    intro p flying same _ _
    obtain ⟨g, known, lt⟩ := spent p flying same
    rw [← Bool.not_eq_true, Store.accepts_iff, known]
    intro current
    have := Option.some.inj current
    omega
  · rintro p flying rfl
    rcases mem_inFlight_step flying with old | ⟨begins, -⟩
    · obtain ⟨g, known, lt⟩ := spent p old rfl
      have grown := Store.get?_generations_after known (t.requests e)
      rw [← store_step] at grown
      exact ⟨_, grown, Nat.lt_add_right _ lt⟩
    · exact absurd begins noRun

theorem Retired.after {t : Traffic} {document : String} (retired : t.Retired document)
    {events : List SessionEvent}
    (quiet : t.Always (fun t e => ¬ t.BeginsRun document e ∧
      ∀ diagnostics, e ≠ .put document diagnostics) events) :
    (t.after events).Retired document := by
  induction events generalizing t with
  | nil => exact retired
  | cons e rest ih => exact ih (retired.step quiet.1.1 quiet.1.2) quiet.2

end Traffic

end VibeLens
