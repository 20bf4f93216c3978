import VibeLens.Assist.Completion
import VibeLens.Assist.Hover
import VibeLens.Diagnostic.Locate
import VibeLens.Outline.Scan
import VibeLens.Run.Interpreter
import VibeLens.Store

set_option autoImplicit false

/-!
An editing session, which leaves everything to the language server while there is one. A save is split
at the run of the interpreter, because other things may happen during that run.
-/

namespace VibeLens

structure Session where
  settings : Settings
  store : Store
  server : Option Path
  deriving Repr

/-- A save whose run has not ended. -/
structure PendingSave where
  document : String
  generation : Nat
  deriving DecidableEq, Repr

namespace Session

def default : Session := ⟨.default, .empty, none⟩

def isBasic (s : Session) : Bool := s.server.isNone

def modeLabel (s : Session) : String := if s.isBasic then "basic" else "lsp"

def checksSaves (s : Session) : Bool := s.isBasic && s.settings.checking.enabled

def symbols (s : Session) (content : Content) : List Symbol :=
  if s.isBasic then Outline.ofContent content else []

def completions (s : Session) (start : String) : List Assist.Completion :=
  if s.isBasic then Assist.complete start else []

def hover? (s : Session) (content : Content) (line column : Int) : Option Assist.Hover :=
  if s.isBasic then Assist.hover? content line column else none

/-- Begins a save. If the interpreter is not run the entry is cleared and the save is over. -/
def beginSave (s : Session) (document : String) : Session × Option PendingSave :=
  if s.checksSaves then
    let (store, generation) := s.store.begin document
    ({ s with store := store }, some ⟨document, generation⟩)
  else ({ s with store := s.store.clear document }, none)

def reported : Option RunResult → List Diagnostic
  | some r => if r.hasErrors then Diagnostic.locate (.text r.errors) else []
  | none => []

/-- Ends a save. The result of a run that was superseded is dropped. -/
def endSave (s : Session) (p : PendingSave) (result : Option RunResult) : Session :=
  { s with store := (s.store.replace p.document (reported result) (some p.generation)).1 }

def close (s : Session) (document : String) : Session :=
  { s with store := s.store.forget document }

def diagnostics (s : Session) (document : String) : List Diagnostic := s.store.get document

end Session

namespace Host

def openSession (h : Host) (root home : Path) : Except Failure Session := do
  let settings ← Failure.ofSettings (h.settings root)
  return ⟨settings, .empty, h.findServer? settings.server home⟩

def save (h : Host) (s : Session) (document : Path) :
    Except Failure (Host × Session × List Diagnostic) := do
  let key ← Failure.ofPath (h.documentKey document.toString)
  match s.beginSave key with
  | (s, none) => return (h, s, [])
  | (s, some pending) =>
    let (h, result) ← h.check s.settings document
    let s := s.endSave pending result
    return (h, s, s.diagnostics key)

/-- Closes a document, by whatever path. -/
def close (h : Host) (s : Session) (document : Path) : Except Failure Session := do
  return s.close (← Failure.ofPath (h.documentKey document.toString))

def diagnostics (h : Host) (s : Session) (document : Path) : Except Failure (List Diagnostic) := do
  return s.diagnostics (← Failure.ofPath (h.documentKey document.toString))

end Host
end VibeLens
