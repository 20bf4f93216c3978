import VibeLens.Files.Host
import VibeLens.Settings.Basic
import VibeLens.Toml.Document

set_option autoImplicit false

/-!
Settings read from the file `vibe.toml` of a workspace. Without that file the defaults hold.
-/

namespace VibeLens

/-- Why the settings of a workspace cannot be used. -/
inductive SettingsFault where
  | unreadable (refusal : Refusal) (file : String)
  /-- The file is not UTF-8. -/
  | undecodable
  /-- The file holds an integer that is too long to convert. -/
  | numeralTooLong
  /-- The file is not TOML. -/
  | malformed (file detail : String)
  /-- The file has values that do not fit. -/
  | invalid (file detail : String) (faults : List Fault)
  | outputMissing
  | outputNotRelative
  | outputEscapes (value : String)
  deriving DecidableEq, Repr

/-- What is said of a fault in the settings themselves. Nothing is said of those that are met before
the text is parsed, or while a number in it is converted. -/
def SettingsFault.message? : SettingsFault → Option String
  | unreadable _ _ | undecodable | numeralTooLong => none
  | malformed file detail => some ("Invalid TOML in " ++ file ++ ": " ++ detail)
  | invalid file detail _ => some ("Invalid config in " ++ file ++ ": " ++ detail)
  | outputMissing => some "output_dir must be a non-empty relative path"
  | outputNotRelative => some "output_dir must be a relative path within the workspace root"
  | outputEscapes value => some ("output_dir '" ++ value ++ "' escapes the workspace root")

namespace Settings

def fileName : String := "vibe.toml"

/-- The settings that the bytes of a file write. -/
def ofBytes (wording : Wording) (file : String) (bytes : Text.Utf8.Bytes) :
    Except SettingsFault Settings :=
  match Text.Utf8.decode? bytes with
  | none => .error .undecodable
  | some text =>
    match Toml.parse text with
    | .error .malformed => .error (.malformed file (wording.malformed text))
    | .error .numeralTooLong => .error .numeralTooLong
    | .ok data =>
      match ofDatum data with
      | .valid settings => .ok settings
      | .faulty faults => .error (.invalid file (wording.invalid text faults) faults)

end Settings

/-- The settings of the workspace at `root`. -/
def Host.settings (h : Host) (root : Path) : Except SettingsFault Settings :=
  let file := (root.child Settings.fileName).toString
  if h.tree.isFile h.cwd file then
    match h.tree.read h.cwd file with
    | .ok bytes => Settings.ofBytes h.wording file bytes
    | .error e => .error (.unreadable e file)
  else .ok .default

end VibeLens
