import VibeLens.Proofs.Session.Supersession

set_option autoImplicit false

/-!
A save that comes while an earlier save of the document is still running. If it runs the interpreter
too, the earlier result is out of date for good. If it only clears the entry, because diagnostics
are switched off or a server has them, it leaves the number of the run as it is: the earlier result
is still taken when it comes, and the entry that was cleared is back.
-/

namespace VibeLens

/-- Two saves of a document, the later one begun before the run of the earlier one ends. -/
structure Overlap where
  first : Traffic
  document : String
  pending : PendingSave
  begun : (first.session.beginSave document).2 = some pending
  between : List SessionEvent
  after : List SessionEvent

namespace Overlap

def begins (o : Overlap) : Traffic := o.first.step (.save o.document)

/-- The state in which the later save begins. -/
def later (o : Overlap) : Traffic := o.begins.after o.between

/-- The state in which the earlier run ends. -/
def last (o : Overlap) : Traffic := (o.later.step (.save o.document)).after o.after

/-- Apart from the later save itself nothing supersedes the earlier run. -/
def Unsuperseded (o : Overlap) : Prop :=
  o.begins.Always (fun t e => ¬ t.Supersedes o.document e) o.between ∧
    (o.later.step (.save o.document)).Always (fun t e => ¬ t.Supersedes o.document e) o.after

end Overlap

namespace Traffic

/-- The event neither supersedes nor ends the given run, nor does it set diagnostics of its
document from outside. -/
def Spares (p : PendingSave) (t : Traffic) (e : SessionEvent) : Prop :=
  ¬ t.Supersedes p.document e ∧ (∀ diagnostics, e ≠ .put p.document diagnostics) ∧
    ∀ result, e ≠ .finish p result

theorem always_append {P : Traffic → SessionEvent → Prop} {t : Traffic}
    {first second : List SessionEvent} :
    t.Always P (first ++ second) ↔ t.Always P first ∧ (t.after first).Always P second := by
  induction first generalizing t with
  | nil => simp [Always]
  | cons e rest ih => simp only [List.cons_append, Always, after_cons, ih, and_assoc]

theorem Always.imp {P Q : Traffic → SessionEvent → Prop} (h : ∀ t e, P t e → Q t e)
    {t : Traffic} {events : List SessionEvent} (always : t.Always P events) :
    t.Always Q events := by
  induction events generalizing t with
  | nil => trivial
  | cons e rest ih => exact ⟨h t e always.1, ih always.2⟩

theorem after_append (t : Traffic) (first second : List SessionEvent) :
    t.after (first ++ second) = (t.after first).after second := List.foldl_append

/-- The document has no entry, and the given run would still bring one. -/
def Awaits (p : PendingSave) (t : Traffic) : Prop :=
  t.session.store.entries.get? p.document = none ∧
    t.session.store.generations.get? p.document = some p.generation

theorem Awaits.step {t : Traffic} {p : PendingSave} (awaits : t.Awaits p) {e : SessionEvent}
    (spares : t.Spares p e) : (t.step e).Awaits p := by
  obtain ⟨absent, current⟩ := awaits
  obtain ⟨notSuperseded, noPut, notEnded⟩ := spares
  constructor
  · refine get?_entries_step_eq_none absent e ?_ noPut
    rintro q - same result rfl
    -- Another run of the document has another number.
    rw [← Bool.not_eq_true, Store.accepts_iff, current]
    intro number
    have : q = p := by
      obtain ⟨document, generation⟩ := q
      cases same
      cases Option.some.inj number
      rfl
    exact notEnded result (this ▸ rfl)
  · have none_supersedes : (t.requests e).countP (Store.Request.Supersedes p.document) = 0 := by
      rw [List.countP_eq_zero]
      intro r hr supersedes
      exact notSuperseded ((exists_supersedes_iff t e p.document).mp
        ⟨r, hr, of_decide_eq_true supersedes⟩)
    rw [store_step, Store.get?_generations_after current, none_supersedes, Nat.add_zero]

theorem Awaits.after {t : Traffic} {p : PendingSave} (awaits : t.Awaits p)
    {events : List SessionEvent} (spares : t.Always (Spares p) events) :
    (t.after events).Awaits p := by
  induction events generalizing t with
  | nil => exact awaits
  | cons e rest ih => exact ih (awaits.step spares.1) spares.2

end Traffic

namespace Overlap

variable (o : Overlap)

theorem document_pending : o.pending.document = o.document := by
  rw [(Session.of_beginSave_eq_some o.begun).2]

/-- The earlier result is current at its end exactly if nothing superseded it, the later save
included. -/
theorem accepts_last_iff :
    o.last.session.store.accepts o.pending.document (some o.pending.generation) ↔
      o.Unsuperseded ∧ o.later.session.checksSaves = false := by
  have during : o.last = o.begins.after (o.between ++ .save o.document :: o.after) := by
    rw [Traffic.after_append, Traffic.after_cons]
    rfl
  have save : o.later.Supersedes o.document (.save o.document) ↔
      o.later.session.checksSaves = true := by
    simp [Traffic.Supersedes, Traffic.BeginsRun]
  rw [during, begins, Traffic.accepts_iff_always o.begun, Traffic.always_append,
    Traffic.Always, ← begins, ← later, save, Bool.not_eq_true, Unsuperseded]
  constructor
  · rintro ⟨between, clears, after⟩
    exact ⟨⟨between, after⟩, clears⟩
  · rintro ⟨⟨between, after⟩, clears⟩
    exact ⟨between, clears, after⟩

theorem endSave_eq_self (result : Option RunResult)
    (stale : ¬ (o.Unsuperseded ∧ o.later.session.checksSaves = false)) :
    o.last.session.endSave o.pending result = o.last.session := by
  rw [← accepts_last_iff, Bool.not_eq_true,
    ← Store.replace_snd _ _ (Session.reported result)] at stale
  rw [Session.endSave, Store.replace_of_refused stale]

theorem store_endSave (result : Option RunResult) (current : o.Unsuperseded)
    (clears : o.later.session.checksSaves = false) :
    (o.last.session.endSave o.pending result).store =
      o.last.session.store.set o.document (Session.reported result) := by
  have accepted := o.accepts_last_iff.mpr ⟨current, clears⟩
  rw [Session.endSave, Store.replace, if_pos accepted, document_pending]

/-- Right after a later save that clears, the entry is away and the earlier run is current. -/
theorem awaits_of_clears (clears : o.later.session.checksSaves = false)
    (between : o.begins.Always (fun t e => ¬ t.Supersedes o.document e) o.between) :
    (o.later.step (.save o.document)).Awaits o.pending := by
  have step : (o.later.step (.save o.document)).session.store =
      o.later.session.store.clear o.document := by
    simp [Traffic.step, Session.beginSave, clears]
  rw [Traffic.Awaits, step, document_pending]
  constructor
  · simp [Store.clear]
  · have current := (Traffic.accepts_iff_always o.begun o.between).mpr between
    rw [Store.accepts_iff, document_pending] at current
    exact current

theorem Unsuperseded.of_spares {o : Overlap}
    (between : o.begins.Always (fun t e => ¬ t.Supersedes o.document e) o.between)
    (after : (o.later.step (.save o.document)).Always (Traffic.Spares o.pending) o.after) :
    o.Unsuperseded := by
  refine ⟨between, Traffic.Always.imp ?_ after⟩
  intro t e spares
  rw [← o.document_pending]
  exact spares.1

end Overlap

/-- A later save makes an earlier run out of date if it runs the interpreter itself. If it only
clears the entry, the earlier result becomes the entry all the same: the entry is away until the earlier
run ends, and comes back if that reports anything. -/
theorem endSave_under_later_save (o : Overlap) (result : Option RunResult) :
    (o.later.session.checksSaves = true ∨ ¬ o.Unsuperseded →
      o.last.session.endSave o.pending result = o.last.session) ∧
    (o.later.session.checksSaves = false → o.Unsuperseded →
      (o.last.session.endSave o.pending result).diagnostics o.document =
        Session.reported result) ∧
    (o.later.session.checksSaves = false →
      o.begins.Always (fun t e => ¬ t.Supersedes o.document e) o.between →
      (o.later.step (.save o.document)).Always (Traffic.Spares o.pending) o.after →
        o.last.session.store.contains o.document = false ∧
        ((o.last.session.endSave o.pending result).store.contains o.document = true ↔
          Session.reported result ≠ [])) := by
  refine ⟨?_, ?_, ?_⟩
  · intro stale
    apply o.endSave_eq_self
    rintro ⟨current, clears⟩
    rcases stale with runs | superseded
    · exact Bool.false_ne_true (clears.symm.trans runs)
    · exact superseded current
  · intro clears current
    rw [Session.diagnostics, o.store_endSave result current clears, Store.get_set, if_pos rfl]
  · intro clears between after
    have current := Overlap.Unsuperseded.of_spares between after
    have awaits := (o.awaits_of_clears clears between).after after
    have absent : o.last.session.store.entries.get? o.document = none :=
      o.document_pending ▸ awaits.1
    refine ⟨by rw [Store.contains, absent, Option.isSome_none], ?_⟩
    rw [o.store_endSave result current clears]
    exact Store.contains_set _ _ _

namespace Overlap

def switchedOff : Settings :=
  { Settings.default with checking := { Checking.default with enabled := false } }

def cleared : Overlap where
  first := ⟨.default, []⟩
  document := "a"
  pending := ⟨"a", 1⟩
  begun := by decide
  between := [.configure switchedOff]
  after := []

/-- A document is saved twice, with diagnostics on. -/
def rerun : Overlap where
  first := ⟨.default, []⟩
  document := "a"
  pending := ⟨"a", 1⟩
  begun := by decide
  between := []
  after := [.finish ⟨"a", 2⟩ none]

def complaint : Option RunResult := some ⟨1, "[3:5] unexpected token".toList⟩

end Overlap

open Overlap in
theorem endSave_under_rerun_and_under_clear :
    rerun.last.session.endSave rerun.pending complaint = rerun.last.session ∧
      cleared.last.session.store.contains "a" = false ∧
      (cleared.last.session.endSave cleared.pending complaint).diagnostics "a" =
        Session.reported complaint := by
  have between : cleared.begins.Always (fun t e => ¬ t.Supersedes "a" e) cleared.between :=
    ⟨by simp [Traffic.Supersedes, Traffic.BeginsRun], trivial⟩
  obtain ⟨-, taken, away⟩ := endSave_under_later_save cleared complaint
  refine ⟨(endSave_under_later_save rerun complaint).1 (.inl (by decide)), ?_, ?_⟩
  · exact (away (by decide) between trivial).1
  · exact taken (by decide) ⟨between, trivial⟩

/-- The later save has cleared the entry and is over; the end of the earlier one brings it back. -/
theorem endSave_restores_cleared_entry :
    Overlap.cleared.last.session.diagnostics "a" = [] ∧
      (Overlap.cleared.last.session.endSave Overlap.cleared.pending
        Overlap.complaint).diagnostics "a" = [⟨2, 4, "unexpected token"⟩] := by
  decide +kernel

end VibeLens
