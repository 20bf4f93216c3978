import VibeLens.Settings.Load
import VibeLens.Workspace.Ignore

set_option autoImplicit false

/-!
All the ways in which work on a workspace can fail.
-/

namespace VibeLens

inductive Failure where
  | path (fault : PathFault)
  | settings (fault : SettingsFault)
  | ignore (fault : IgnoreFault)
  | system (refusal : Refusal) (path : String)
  /-- A value has no JSON text. -/
  | unwritable
  | invalid (faults : List Fault)
  /-- The time allowed for a run is longer than can be waited for. -/
  | timeoutTooLong
  | numberMissing
  /-- A source file was found that does not lie below the root as it was given. -/
  | strayFile
  deriving DecidableEq, Repr

@[simp] theorem ok_bind {ε α β : Type} (a : α) (next : α → Except ε β) :
    (Except.ok a >>= next) = next a := rfl

theorem bind_eq_ok_iff {ε α β : Type} {first : Except ε α} {next : α → Except ε β} {b : β} :
    (first >>= next) = .ok b ↔ ∃ a, first = .ok a ∧ next a = .ok b := by
  cases first with
  | error e => exact ⟨nofun, fun ⟨_, impossible, _⟩ => nomatch impossible⟩
  | ok a =>
    constructor
    · exact fun done => ⟨a, rfl, done⟩
    · rintro ⟨_, same, done⟩
      cases same
      exact done

namespace Failure

variable {α : Type}

def ofPath : Except PathFault α → Except Failure α := Except.mapError path

def ofSettings : Except SettingsFault α → Except Failure α := Except.mapError settings

def ofIgnore : Except IgnoreFault α → Except Failure α := Except.mapError ignore

def ofVerdict : Verdict α → Except Failure α
  | .valid a => .ok a
  | .faulty faults => .error (.invalid faults)

def ofSystem (text : String) : Except Refusal α → Except Failure α := Except.mapError (system · text)

theorem mapError_eq_ok_iff {ε : Type} {report : ε → Failure} {r : Except ε α} {a : α} :
    r.mapError report = .ok a ↔ r = .ok a := by
  cases r with
  | error e => exact ⟨nofun, nofun⟩
  | ok b =>
    constructor
    · intro same
      cases same
      rfl
    · intro same
      cases same
      rfl

@[simp] theorem ofPath_eq_ok_iff {r : Except PathFault α} {a : α} : ofPath r = .ok a ↔ r = .ok a :=
  mapError_eq_ok_iff

@[simp] theorem ofIgnore_eq_ok_iff {r : Except IgnoreFault α} {a : α} :
    ofIgnore r = .ok a ↔ r = .ok a := mapError_eq_ok_iff

@[simp] theorem ofSystem_eq_ok_iff {text : String} {r : Except Refusal α} {a : α} :
    ofSystem text r = .ok a ↔ r = .ok a := mapError_eq_ok_iff

end Failure

/-- The directory for the index that the settings name. It is given relative to the workspace and
must lie inside it when links are followed. -/
def Host.outputDir (h : Host) (root : Path) (value : String) : Except Failure Location := do
  if value = "" then .error (.settings .outputMissing)
  if value.toList.head? = some '~' then .error (.settings .outputNotRelative)
  let below := Path.ofString value
  if below.isAbsolute then .error (.settings .outputNotRelative)
  let top ← Failure.ofPath (h.resolve root)
  let dir ← Failure.ofPath (h.resolve ((Path.ofLocation top).join below))
  if top.isPrefixOf dir then return dir else .error (.settings (.outputEscapes value))

end VibeLens
