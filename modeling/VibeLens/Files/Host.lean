import VibeLens.Files.Resolve
import VibeLens.Settings.Wording

set_option autoImplicit false

/-!
The surroundings of a run, to which the words belong in which settings are refused.
-/

namespace VibeLens

inductive Utility where
  | shell
  | cat
  | echo
  | env
  | fail
  | pwd
  | sleep
  | succeed
  | yes
  deriving DecidableEq, Repr

structure Host where
  tree : FileTree
  cwd : Location
  home : String
  /-- The home directories of users known by name. -/
  users : Table String String
  searchPath : String
  utilities : Table Location Utility
  wording : Wording

namespace Host

def withTree (h : Host) (tree : FileTree) : Host := { h with tree := tree }

@[simp] theorem withTree_tree (h : Host) (tree : FileTree) : (h.withTree tree).tree = tree := rfl

@[simp] theorem withTree_cwd (h : Host) (tree : FileTree) : (h.withTree tree).cwd = h.cwd := rfl

@[simp] theorem withTree_wording (h : Host) (tree : FileTree) :
    (h.withTree tree).wording = h.wording := rfl

@[simp] theorem withTree_self (h : Host) : h.withTree h.tree = h := rfl

/-- Replaces a leading `~`, or `~` and the name of a user, by a home directory. -/
def expandUser (h : Host) (p : Path) : Except PathFault Path :=
  match p.anchor, p.names with
  | .here, first :: rest =>
    match first.toList with
    | '~' :: user =>
      let home :=
        if user.isEmpty then some h.home else h.users.get? (String.ofList user)
      match home with
      | some dir => .ok ((Path.ofString dir).join ⟨.here, rest⟩)
      | none => .error .unknownUser
    | _ => .ok p
  | _, _ => .ok p

def resolve (h : Host) (p : Path) : Except PathFault Location := h.tree.resolve h.cwd p

def resolveUser (h : Host) (text : String) : Except PathFault Location := do
  h.resolve (← h.expandUser (Path.ofString text))

/-- The name under which a document is known: the text of its canonical location. -/
def documentKey (h : Host) (text : String) : Except PathFault String := do
  return Location.text (← h.resolveUser text)

def inDirectory (dir name : String) : String :=
  if dir = "" then name
  else if dir.toList.getLast? = some '/' then dir ++ name
  else dir ++ "/" ++ name

/-- The places at which a program is looked for: the name itself if it has a slash in it, and else
that name in each directory of the search path. -/
def candidates (h : Host) (name : String) : List String :=
  if name.toList.contains '/' then [name]
  else if h.searchPath = "" then []
  else (h.searchPath.splitOn ":").map (inDirectory · name)

def which? (h : Host) (name : String) : Option String :=
  (h.candidates name).find? (h.tree.isExecutable h.cwd)

/-- The language server: looked for on the search path first, then in the place where it is
installed for one user. -/
def findServer? (h : Host) (name : String) (home : Path) : Option Path :=
  match h.which? name with
  | some found => some (Path.ofString found)
  | none =>
    let candidate := home.join ⟨.here, [".vibe", "bin", "vibe-lsp"]⟩
    if h.tree.isFile h.cwd candidate.toString then some candidate else none

end Host
end VibeLens
