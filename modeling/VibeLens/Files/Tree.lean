import VibeLens.Files.Path
import VibeLens.Table
import VibeLens.Text.Utf8

set_option autoImplicit false

/-!
A file tree in memory: every object is found by its location. The top is a directory that is always
there. Links are kept as the text they hold.
-/

namespace VibeLens

open Text.Utf8 (Bytes)

inductive Node where
  | dir
  | file (content : Bytes) (executable : Bool)
  | link (target : String)
  deriving DecidableEq, Repr

theorem Node.dir_ne_link (target : String) : dir ≠ link target := by
  rintro ⟨⟩

theorem Node.file_ne_link (content : Bytes) (executable : Bool) (target : String) :
    file content executable ≠ link target := by
  rintro ⟨⟩

structure FileTree where
  nodes : Table Location Node
  deriving DecidableEq, Repr

/-- Why the operating system refuses. -/
inductive Refusal where
  | noEntry
  | noExecFormat
  | permissionDenied
  | exists
  | notDirectory
  | isDirectory
  | tooManyLinks
  deriving DecidableEq, Repr

namespace Refusal

def code : Refusal → Nat
  | noEntry => 2
  | noExecFormat => 8
  | permissionDenied => 13
  | «exists» => 17
  | notDirectory => 20
  | isDirectory => 21
  | tooManyLinks => 40

def message : Refusal → String
  | noEntry => "No such file or directory"
  | noExecFormat => "Exec format error"
  | permissionDenied => "Permission denied"
  | «exists» => "File exists"
  | notDirectory => "Not a directory"
  | isDirectory => "Is a directory"
  | tooManyLinks => "Too many levels of symbolic links"

end Refusal

namespace FileTree

def empty : FileTree := ⟨[]⟩

def get? (t : FileTree) (l : Location) : Option Node :=
  if l = [] then some .dir else t.nodes.get? l

def put (t : FileTree) (l : Location) (node : Node) : FileTree := ⟨t.nodes.put l node⟩

@[simp] theorem get?_top (t : FileTree) : t.get? [] = some .dir := rfl

theorem get?_put (t : FileTree) (l other : Location) (node : Node) (h : other ≠ []) :
    (t.put l node).get? other = if l = other then some node else t.get? other := by
  simp [get?, put, h]

def childName? (l key : Location) : Option String :=
  match key.getLast? with
  | some name => if key.dropLast = l then some name else none
  | none => none

def children (t : FileTree) (l : Location) : List String :=
  (t.nodes.keys.filterMap (childName? l)).mergeSort (· ≤ ·)

/-- One more than the length of the longest location. -/
def height (t : FileTree) : Nat := t.nodes.foldl (fun n m => max n m.1.length) 0 + 1

def makeDirs (t : FileTree) (l : Location) : FileTree :=
  (List.range l.length).foldl (fun t n =>
    let above := l.take (n + 1)
    if (t.get? above).isNone then t.put above .dir else t) t

end FileTree
end VibeLens
