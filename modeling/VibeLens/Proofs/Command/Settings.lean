import VibeLens.Proofs.Command.Line
import VibeLens.Proofs.Files.Grounded
import VibeLens.Proofs.Settings.Reading
import VibeLens.Proofs.Text.Encoding

set_option autoImplicit false

/-!
What becomes of a workspace whose file of settings is bad. A file with a wrong form or wrong values is
reported by every command that reads it, with what its readers say of it. A file that cannot be decoded,
and one with too long a numeral, end these commands without an answer.
-/

namespace VibeLens

open Text FileTree

namespace Host

/-- The file that holds the settings of the workspace at a root. -/
def settingsFile (root : Path) : String := (root.child Settings.fileName).toString

structure HoldsSettings (h : Host) (root : Path) (content : Utf8.Bytes) : Prop where
  isFile : h.tree.isFile h.cwd (settingsFile root)
  read : h.tree.read h.cwd (settingsFile root) = .ok content

theorem HoldsSettings.settings_eq {h : Host} {root : Path} {content : Utf8.Bytes}
    (held : h.HoldsSettings root content) :
    h.settings root = Settings.ofBytes h.wording (settingsFile root) content := by
  obtain ⟨isFile, read⟩ := held
  unfold settingsFile at isFile read ⊢
  simp only [settings, isFile, read, if_true]

theorem index_of_refused {h : Host} {root : Path} {top : Location} {fault : SettingsFault}
    (resolved : h.resolve root = .ok top) (refused : h.settings (Path.ofLocation top) = .error fault)
    (outDir : Option Path) : h.index root outDir none = .error (.settings fault) := by
  have planned : h.indexPlan root outDir none = .error (.settings fault) := by
    rw [indexPlan, Failure.ofPath_eq_ok_iff.mpr resolved, ok_bind]
    simp only [indexSettings, refused]
    rfl
  simp only [index, indexing, planned]

end Host

namespace Command

/-- The request reads the settings of the workspace at this path. An index resolves its root once more
before that. -/
inductive Request.Reads (h : Host) : Request → Path → Prop
  | run {file root : String} {path : Path} :
    canonical h root = .ok path → Reads h (.run file root) path
  | check {file root : String} {path : Path} :
    canonical h root = .ok path → Reads h (.check file root) path
  | index {root : String} {outDir : Option String} {path : Path} {top : Location} :
    canonical h root = .ok path → (∀ dir ∈ outDir, ∃ place, canonical h dir = .ok place) →
      h.resolve path = .ok top → Reads h (.index root outDir) (Path.ofLocation top)
  | status {root : String} {path : Path} :
    canonical h root = .ok path → Reads h (.status root) path

variable {h : Host} {request : Request} {root : Path} {fault : SettingsFault}

theorem Request.Reads.perform_of_refused (reads : request.Reads h root) (input : Utf8.Bytes)
    (refused : h.settings root = .error fault) :
    perform h input request = .error (.settings fault) := by
  have told : Failure.ofSettings (h.settings root) = .error (.settings fault) := by
    rw [refused]
    rfl
  cases reads with
  | run resolved =>
    rw [perform, Command.run, resolved, ok_bind, told]
    rfl
  | check resolved =>
    rw [perform, Command.check, resolved, ok_bind, told]
    rfl
  | @index _ outDir _ _ resolved places again =>
    have stopped := Host.index_of_refused again refused
    rw [perform, Command.index, resolved, ok_bind]
    cases outDir with
    | none =>
      simp only [stopped]
      rfl
    | some dir =>
      obtain ⟨place, found⟩ := places dir rfl
      simp only [found, stopped]
      rfl
  | status resolved =>
    rw [perform, Command.status, resolved, ok_bind, Host.openSession, told]
    rfl

theorem reported?_of_message? {message : String} (told : fault.message? = some message) :
    reported? (.settings fault) = some message.toList := by
  cases fault with
  | unreadable => cases told
  | _ => exact congrArg (Option.map String.toList) told

/-- Every command line that reads the settings of the workspace at this path ends in one way. -/
def AllEnd (h : Host) (root : Path) (outcome : Outcome) : Prop :=
  ∀ line request input, Request.ofLine line = .ok request → request.Reads h root →
    carryOut h input line = outcome

theorem allEnd_of_reported {message : List Char} (refused : h.settings root = .error fault)
    (told : reported? (.settings fault) = some message) :
    AllEnd h root (.reported ⟨2, [], "error: ".toList ++ message ++ ['\n'], h⟩) := by
  intro line request input asked reads
  exact carryOut_of_reported asked (reads.perform_of_refused input refused) told

theorem allEnd_of_unreported (refused : h.settings root = .error fault)
    (untold : reported? (.settings fault) = none) : AllEnd h root (.failed (.settings fault)) := by
  intro line request input asked reads
  exact carryOut_of_unreported asked (reads.perform_of_refused input refused) untold

end Command

/-- A workspace in which there is a file of settings and nothing else. -/
def configured (content : Utf8.Bytes) : Host where
  tree := ⟨[(["ws"], .dir), (["ws", "vibe.toml"], .file content false)]⟩
  cwd := []
  home := "/"
  users := []
  searchPath := ""
  utilities := []
  wording := namedFaults

namespace configured

variable (content : Utf8.Bytes)

theorem grounded : (configured content).tree.Grounded :=
  .of_keys [["ws"], ["ws", "vibe.toml"]] rfl (by decide) (by decide)
    (by simp [configured, FileTree.get?, Table.get?])

theorem holdsSettings : (configured content).HoldsSettings (Path.ofLocation ["ws"]) content where
  isFile := (grounded content).isFile_text (l := ["ws", "vibe.toml"]) rfl (by decide)
  read := (grounded content).read_text (l := ["ws", "vibe.toml"]) rfl

theorem resolve_root : (configured content).resolve (Path.ofLocation ["ws"]) = .ok ["ws"] :=
  (grounded content).resolve_ofLocation rfl Node.dir_ne_link (by decide)

theorem canonical_root :
    Command.canonical (configured content) "/ws" = .ok (Path.ofLocation ["ws"]) := by
  have root : Path.ofString "/ws" = Path.ofLocation ["ws"] :=
    ofString_text (l := ["ws"]) (by decide)
  have resolved : (configured content).resolveUser "/ws" = .ok ["ws"] := by
    rw [Host.resolveUser, root]
    exact resolve_root content
  rw [Command.canonical, Failure.ofPath_eq_ok_iff.mpr resolved, ok_bind]
  rfl

def lines : List (List String) :=
  [["run", "a.vb", "--root", "/ws"], ["check", "a.vb", "--root", "/ws"], ["index", "/ws"],
    ["status", "/ws"]]

variable {content} in
theorem map_carryOut_lines {outcome : Command.Outcome}
    (ends : Command.AllEnd (configured content) (Path.ofLocation ["ws"]) outcome) :
    lines.map (Command.carryOut (configured content) []) = List.replicate 4 outcome := by
  have root := canonical_root content
  have run := ends ["run", "a.vb", "--root", "/ws"] (.run "a.vb" "/ws") [] (by decide) (.run root)
  have check :=
    ends ["check", "a.vb", "--root", "/ws"] (.check "a.vb" "/ws") [] (by decide) (.check root)
  have index := ends ["index", "/ws"] (.index "/ws" none) [] (by decide)
    (.index root nofun (resolve_root content))
  have status := ends ["status", "/ws"] (.status "/ws") [] (by decide) (.status root)
  simp only [lines, List.map_cons, List.map_nil, run, check, index, status]
  rfl

theorem settings_of_long {digits : List Char} (all : ∀ c ∈ digits, isDigit c)
    (long : numeralLimit ≤ digits.length) :
    (configured (Utf8.encode ('x' :: '=' :: '1' :: digits))).settings (Path.ofLocation ["ws"]) =
      .error .numeralTooLong := by
  rw [(holdsSettings _).settings_eq, Settings.ofBytes, Utf8.decode?_encode]
  simp only [Toml.parse_of_long all long]

def longNumeral : Utf8.Bytes :=
  Utf8.encode ('x' :: '=' :: '1' :: List.replicate numeralLimit '1')

theorem settings_longNumeral :
    (configured longNumeral).settings (Path.ofLocation ["ws"]) = .error .numeralTooLong := by
  apply settings_of_long
  · intro c member
    rw [List.eq_of_mem_replicate member]
    rfl
  · exact List.length_replicate.ge

end configured
end VibeLens
