import VibeLens.Proofs.Diagnostic.Messages
import VibeLens.Proofs.Files.Grounded
import VibeLens.Proofs.Session.Isolation
import VibeLens.Proofs.Text.Breaks

set_option autoImplicit false

/-!
What a save leaves. A run left errors if it failed and its error text holds more than blanks. Line
breaks are blank themselves, so such a text has a line that is not blank, and a diagnostic for it.
Whether errors were left is asked of the text as a whole, and diagnostics are found line by line, but
both agree on what is empty.
-/

namespace VibeLens

namespace Text

/-! ### Blank text and blank lines -/

theorem hasInk_symbols (b : LineBreak) : hasInk b.symbols = false := by
  cases b <;> decide

theorem hasInk_append (front behind : List Char) :
    hasInk (front ++ behind) = (hasInk front || hasInk behind) := List.any_append

/-- Nothing between the rows of a text is more than blank. -/
theorem Woven.hasInk_eq {rows : List (List Char)} {breaks : List LineBreak} {text : List Char}
    (woven : Woven rows breaks text) : hasInk text = rows.any hasInk := by
  induction woven with
  | last row => simp
  | next row b _ _ ih =>
    rw [hasInk_append, hasInk_append, hasInk_symbols, Bool.false_or, ih, List.any_cons]

theorem hasInk_eq_any_lines (text : List Char) : hasInk text = (lines text).any hasInk := by
  obtain ⟨breaks, woven⟩ := exists_woven_lines text
  exact woven.hasInk_eq

end Text

open Text

theorem Diagnostic.locate_eq_nil_iff (content : Content) :
    locate content = [] ↔ trim content.chars = [] := by
  rw [locate_eq_map, List.map_eq_nil_iff, Content.inkedLines, List.filter_eq_nil_iff,
    trim_eq_nil_iff, hasInk_eq_any_lines, List.any_eq_false, Content.lines]

/-! ### The errors of a run -/

namespace RunResult

structure LeftErrors (r : RunResult) : Prop where
  failed : r.code ≠ 0
  ink : ∃ c ∈ r.errors, isBlank c = false

theorem hasErrors_iff (r : RunResult) : r.hasErrors = true ↔ r.LeftErrors := by
  have ink : (trim r.errors).isEmpty = false ↔ ∃ c ∈ r.errors, isBlank c = false := by
    rw [← Bool.not_eq_true, List.isEmpty_iff, trim_eq_nil_iff, hasInk_eq_false_iff]
    simp
  rw [hasErrors, Bool.and_eq_true, Bool.not_eq_true', ink, failed, decide_eq_true_iff]
  exact ⟨fun ⟨failed, ink⟩ => ⟨failed, ink⟩, fun left => ⟨left.failed, left.ink⟩⟩

theorem LeftErrors.locate_ne_nil {r : RunResult} (left : r.LeftErrors) :
    Diagnostic.locate (.text r.errors) ≠ [] := by
  rw [Ne, Diagnostic.locate_eq_nil_iff, Content.chars_text, trim_eq_nil_iff, hasInk_eq_false_iff]
  obtain ⟨c, mem, ink⟩ := left.ink
  intro blank
  exact Bool.false_ne_true (ink.symm.trans (blank c mem))

end RunResult

namespace Session

structure Reflects (s : Session) (document : String) (result : Option RunResult) : Prop where
  contains_iff : s.store.contains document = true ↔ ∃ r, result = some r ∧ r.LeftErrors
  located : ∀ r, result = some r → r.LeftErrors →
    s.diagnostics document = Diagnostic.locate (.text r.errors)
  cleared : (¬ ∃ r, result = some r ∧ r.LeftErrors) →
    s.store.entries.get? document = none ∧ s.diagnostics document = []

theorem reported_of_leftErrors {r : RunResult} (left : r.LeftErrors) :
    reported (some r) = Diagnostic.locate (.text r.errors) :=
  if_pos (r.hasErrors_iff.mpr left)

theorem reported_eq_nil {result : Option RunResult}
    (clean : ¬ ∃ r, result = some r ∧ r.LeftErrors) : reported result = [] := by
  cases result with
  | none => rfl
  | some r => exact if_neg fun errors => clean ⟨r, rfl, r.hasErrors_iff.mp errors⟩

theorem reflects_of_set {s : Session} {store : Store} {document : String}
    {result : Option RunResult} (kept : s.store = store.set document (reported result)) :
    s.Reflects document result := by
  have shown : s.diagnostics document = reported result := by
    rw [diagnostics, kept, Store.get_set, if_pos rfl]
  have entry : s.store.contains document = true ↔ reported result ≠ [] := by
    rw [kept]
    exact Store.contains_set store document _
  refine ⟨?_, ?_, ?_⟩
  · rw [entry]
    constructor
    · intro some
      by_contra clean
      exact some (reported_eq_nil clean)
    · rintro ⟨r, rfl, left⟩
      rw [reported_of_leftErrors left]
      exact left.locate_ne_nil
  · rintro r rfl left
    rw [shown, reported_of_leftErrors left]
  · intro clean
    have empty := reported_eq_nil clean
    refine ⟨?_, shown.trans empty⟩
    rw [kept, empty]
    simp [Store.set, Store.clear]

end Session

/-! ### Saves -/

/-- A run that nothing supersedes decides alone what is kept of its document. -/
theorem Traffic.reflects_saveDuring {t : Traffic} {document : String}
    (checks : t.session.checksSaves) (during : List SessionEvent)
    (current : (t.step (.save document)).Always (fun t e => ¬ t.Supersedes document e) during)
    (result : Option RunResult) :
    (t.saveDuring document during result).Reflects document result := by
  have begun : (t.session.beginSave document).2 =
      some ⟨document, (t.session.store.begin document).2⟩ := by
    simp [Session.beginSave, checks]
  have accepted := (accepts_iff_always begun during).mpr current
  simp only [saveDuring, begun]
  apply Session.reflects_of_set
  rw [Session.endSave, Store.replace, if_pos accepted]

namespace Host

variable {h h' : Host} {s saved : Session} {path : Path} {shown : List Diagnostic}

/-- A save ends if its document has a name and its run ends. -/
theorem save_eq_ok_iff (checks : s.checksSaves) :
    h.save s path = .ok (h', saved, shown) ↔
      ∃ key result, h.documentKey path.toString = .ok key ∧
        h.check s.settings path = .ok (h', result) ∧
        saved = (Traffic.mk s []).saveDuring key [] result ∧ shown = saved.diagnostics key := by
  rw [save_eq_saveDuring, bind_eq_ok_iff]
  simp only [Failure.ofPath_eq_ok_iff, if_pos checks, bind_eq_ok_iff]
  constructor
  · rintro ⟨key, named, ⟨_, result⟩, run, done⟩
    cases done
    exact ⟨key, result, named, run, rfl, rfl⟩
  · rintro ⟨key, result, named, run, rfl, rfl⟩
    exact ⟨key, named, (h', result), run, rfl⟩

end Host

/-- A save leaves an entry exactly if its run left errors, and the entry then has a diagnostic for
each line of the error text that is not blank. -/
theorem entry_iff_run_left_errors :
    (∀ text : List Char,
      (Diagnostic.locate (.text text) = [] ↔ trim text = []) ∧
        Diagnostic.locate (.text text) =
          ((lines text).filter hasInk).map fun line => Diagnostic.ofLine (trim line)) ∧
    (∀ (t : Traffic) (document : String) (during : List SessionEvent)
        (result : Option RunResult), t.session.isBasic → t.session.settings.checking.enabled →
      (t.step (.save document)).Always (fun t e => ¬ t.Supersedes document e) during →
        (t.saveDuring document during result).Reflects document result) ∧
    (∀ (h h' : Host) (s saved : Session) (path : Path) (shown : List Diagnostic),
      s.isBasic → s.settings.checking.enabled → h.save s path = .ok (h', saved, shown) →
        ∃ key result, h.documentKey path.toString = .ok key ∧
          h.check s.settings path = .ok (h', result) ∧
          saved.Reflects key result ∧ shown = saved.diagnostics key) ∧
    ∀ (h h' : Host) (s : Session) (path : Path) (key : String) (result : Option RunResult),
      s.isBasic → s.settings.checking.enabled → h.documentKey path.toString = .ok key →
        h.check s.settings path = .ok (h', result) →
          ∃ saved, h.save s path = .ok (h', saved, saved.diagnostics key) := by
  have checks {s : Session} (basic : s.isBasic) (enabled : s.settings.checking.enabled) :
      s.checksSaves := Bool.and_eq_true_iff.mpr ⟨basic, enabled⟩
  refine ⟨fun text => ⟨Diagnostic.locate_eq_nil_iff _, Diagnostic.locate_eq_map _⟩, ?_, ?_, ?_⟩
  · intro t document during result basic enabled current
    exact Traffic.reflects_saveDuring (checks basic enabled) during current result
  · intro h h' s saved path shown basic enabled done
    obtain ⟨key, result, named, run, rfl, displayed⟩ :=
      (Host.save_eq_ok_iff (checks basic enabled)).mp done
    refine ⟨key, result, named, run, ?_, displayed⟩
    exact Traffic.reflects_saveDuring (t := ⟨s, []⟩) (checks basic enabled) [] trivial result
  · intro h h' s path key result basic enabled named run
    exact ⟨_, (Host.save_eq_ok_iff (checks basic enabled)).mpr
      ⟨key, result, named, run, rfl, rfl⟩⟩

def complained : Session :=
  ⟨{ Settings.default with executable := "/vibe" },
    ⟨[("/a", [⟨2, 4, "unexpected token"⟩])], [("/a", 1)]⟩, none⟩

def unequipped : Host where
  tree := ⟨[(["a"], .file [] false)]⟩
  cwd := []
  home := "/"
  users := []
  searchPath := ""
  utilities := []
  wording := .plain

namespace unequipped

theorem documentKey_eq : unequipped.documentKey (Location.text ["a"]) = .ok "/a" := by
  have grounded : unequipped.tree.Grounded :=
    .of_keys [["a"]] rfl (by decide) (by decide) (by simp [unequipped, FileTree.get?])
  have resolved : unequipped.resolve (Path.ofLocation ["a"]) = .ok ["a"] :=
    grounded.resolve_ofLocation rfl (Node.file_ne_link _ _) (by decide)
  rw [Host.documentKey, Host.resolveUser, FileTree.ofString_text (by decide)]
  simp only [Host.expandUser, Path.ofLocation, ok_bind] at resolved ⊢
  rw [resolved]
  rfl

theorem check_eq : unequipped.check complained.settings (Path.ofLocation ["a"]) =
    .ok (unequipped, none) := by
  have absent : unequipped.tree.find [] (Location.text ["vibe"]) = .error .noEntry := by
    rw [FileTree.find, FileTree.locate_text _ _ _ (by simp) (by decide)]
    simp [FileTree.walk, unequipped, FileTree.get?, Table.get?]
  have unstarted : unequipped.program "/vibe" = .error .noEntry := by
    rw [Host.program, show unequipped.startPlaces "/vibe" = ["/vibe"] from rfl, Host.firstImage,
      Host.readerLimit, Host.image, show unequipped.tree.find unequipped.cwd "/vibe" = _ from absent]
    rfl
  have command : runCommand complained.settings.executable (Path.ofLocation ["a"])
      complained.settings.checking.runSubcommand = ["/vibe", "run", "/a"] := rfl
  have started : unequipped.startInterpreter complained.settings (Path.ofLocation ["a"]) =
      Failure.ofSystem "/vibe" (unequipped.start "/vibe" ["run", "/a"]) := by
    simp only [Host.startInterpreter, command]
    exact if_neg (by decide)
  rw [Host.check, started, Host.start, unstarted]
  rfl

end unequipped

/-- A run that writes only blanks ends what an earlier run left, and so does one that cannot start. -/
theorem earlier_entry_goes_without_errors :
    complained.store.contains "/a" = true ∧
      ((Traffic.mk complained []).saveDuring "/a" [.save "/b", .put "/a" []]
        (some ⟨1, "\u3000\r\n".toList⟩)).store.contains "/a" = false ∧
      ((Traffic.mk complained []).saveDuring "/a" [.save "/b", .put "/a" []]
        (some ⟨1, "\n[9:2] no\n".toList⟩)).diagnostics "/a" = [⟨8, 1, "no"⟩] ∧
      ∃ saved, unequipped.save complained (Path.ofLocation ["a"]) = .ok (unequipped, saved, []) ∧
        saved.store.contains "/a" = false := by
  obtain ⟨-, during, ended, ends⟩ := entry_iff_run_left_errors
  have current : ((Traffic.mk complained []).step (.save "/a")).Always
      (fun t e => ¬ t.Supersedes "/a" e) [.save "/b", .put "/a" []] := by
    simp [Traffic.Always, Traffic.Supersedes, Traffic.BeginsRun]
  have missing {s : Session} {result : Option RunResult} (reflects : s.Reflects "/a" result)
      (clean : ¬ ∃ r, result = some r ∧ r.LeftErrors) : s.store.contains "/a" = false :=
    eq_false_of_ne_true (mt reflects.contains_iff.mp clean)
  refine ⟨by decide, ?_, ?_, ?_⟩
  · apply missing (during _ "/a" _ _ rfl rfl current)
    rintro ⟨r, same, left⟩
    cases same
    exact absurd ((RunResult.hasErrors_iff _).mpr left) (by decide)
  · have left := (RunResult.hasErrors_iff ⟨1, "\n[9:2] no\n".toList⟩).mp (by decide)
    rw [(during _ "/a" _ _ rfl rfl current).located _ rfl left]
    decide +kernel
  · obtain ⟨saved, done⟩ := ends _ _ _ _ _ _ rfl rfl unequipped.documentKey_eq unequipped.check_eq
    obtain ⟨key, result, named, run, reflects, shown⟩ := ended _ _ _ _ _ _ rfl rfl done
    cases named.symm.trans unequipped.documentKey_eq
    cases run.symm.trans unequipped.check_eq
    have clean : ¬ ∃ r : RunResult, none = some r ∧ r.LeftErrors := by simp
    exact ⟨saved, (reflects.cleared clean).2 ▸ done, missing reflects clean⟩

end VibeLens
