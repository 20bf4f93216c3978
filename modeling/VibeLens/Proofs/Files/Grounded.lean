import Mathlib.Data.List.Induction
import VibeLens.Proofs.Files.Canonical
import VibeLens.Proofs.Files.Listing

set_option autoImplicit false

/-!
Trees in which every object stands in a directory. The system finds an object there by the text of
its location, and where a look-up ends something can be put.
-/

namespace VibeLens.FileTree

open VibeLens.Path (IsName isPlain)

variable {t : FileTree} {cwd here there above l : Location} {names : List String} {node : Node}

structure Grounded (t : FileTree) : Prop extends t.Proper where
  parents : ∀ key ∈ t.nodes.keys, t.get? key.dropLast = some .dir

instance (t : FileTree) : Decidable t.Grounded :=
  decidable_of_iff (t.Proper ∧ ∀ key ∈ t.nodes.keys, t.get? key.dropLast = some .dir)
    ⟨fun ⟨proper, parents⟩ => ⟨proper, parents⟩, fun grounded => ⟨grounded.toProper, grounded.parents⟩⟩

namespace Grounded

theorem of_keys (keys : List Location) (listed : t.nodes.keys = keys) (distinct : keys.Nodup)
    (names : ∀ key ∈ keys, ∀ name ∈ key, IsName name)
    (parents : ∀ key ∈ keys, t.get? key.dropLast = some .dir) : t.Grounded := by
  subst listed
  exact ⟨⟨distinct, names⟩, parents⟩

theorem isDir_dropLast (grounded : t.Grounded) (found : t.get? l = some node) (notTop : l ≠ []) :
    t.get? l.dropLast = some .dir := by
  apply grounded.parents
  apply mem_keys_of_isSome notTop
  rw [found]
  rfl

theorem free_child (grounded : t.Grounded) (free : t.get? l = none) (name : String) :
    t.get? (l ++ [name]) = none := by
  by_contra there
  obtain ⟨node, there⟩ := Option.ne_none_iff_exists'.mp there
  have isDir := grounded.isDir_dropLast there (by simp)
  rw [List.dropLast_concat, free] at isDir
  cases isDir

theorem isDir_of_prefix (grounded : t.Grounded) (found : t.get? l = some node) (isAbove : above <+: l)
    (different : above ≠ l) : t.get? above = some .dir := by
  obtain ⟨rest, rfl⟩ := isAbove
  induction rest using List.reverseRecOn generalizing node with
  | nil => exact absurd (List.append_nil above).symm different
  | append_singleton rest name ih =>
    have parent := grounded.isDir_dropLast found (by simp)
    rw [← List.append_assoc, List.dropLast_concat] at parent
    by_cases last : rest = []
    · rwa [last, List.append_nil] at parent
    · exact ih parent (by simpa using last)

theorem isName (grounded : t.Grounded) (found : t.get? l = some node) :
    ∀ name ∈ l, IsName name := grounded.toProper.isName found

theorem linkFree (grounded : t.Grounded) (found : t.get? l = some node)
    (noLink : ∀ target, node ≠ .link target) : t.LinkFree l := by
  intro above isAbove target link
  by_cases same : above = l
  · rw [same, found] at link
    exact noLink target (Option.some.inj link)
  · rw [grounded.isDir_of_prefix found isAbove same] at link
    cases link

end Grounded

/-! ### Look-up by the text of a location -/

theorem walk_literal {followLast : Bool} {links : Nat} (proper : ∀ name ∈ names, IsName name)
    (dirs : ∀ above, above <+: names → above ≠ names → t.get? (here ++ above) = some .dir)
    (free : t.LinkFree (here ++ names)) :
    t.walk followLast links here names = .ok (here ++ names) := by
  induction names generalizing here with
  | nil => rw [walk, List.append_nil]
  | cons name rest ih =>
    have isName := proper name List.mem_cons_self
    have isDir : t.get? here = some .dir := by
      simpa using dirs [] List.nil_prefix (List.cons_ne_nil name rest).symm
    have noLink := free (here ++ [name]) (by simp)
    rw [List.append_cons] at free ⊢
    rw [walk, isDir]
    simp only [isName.notHere, isName.notAbove, if_false]
    apply ih _ _ free
    · exact fun other member => proper other (.tail _ member)
    · intro above isAbove different
      have isDir := dirs (name :: above) (List.cons_prefix_cons.mpr ⟨rfl, isAbove⟩)
        fun same => different (List.cons_eq_cons.mp same).2
      rwa [List.append_cons] at isDir

theorem Grounded.locate_text {followLast : Bool} (grounded : t.Grounded)
    (found : t.get? l = some node) (noLink : ∀ target, node ≠ .link target) :
    t.locate cwd followLast (Location.text l) = .ok l := by
  by_cases isTop : l = []
  · rw [isTop, locate_text_top]
  · have proper := grounded.isName found
    rw [FileTree.locate_text t cwd followLast isTop proper]
    apply walk_literal proper
    · intro above isAbove different
      exact grounded.isDir_of_prefix found isAbove different
    · exact grounded.linkFree found noLink

theorem Grounded.find_text (grounded : t.Grounded) (found : t.get? l = some node)
    (noLink : ∀ target, node ≠ .link target) : t.find cwd (Location.text l) = .ok (l, node) := by
  rw [find, grounded.locate_text found noLink]
  simp only [found]

theorem Grounded.read_text {content : Text.Utf8.Bytes} {executable : Bool} (grounded : t.Grounded)
    (found : t.get? l = some (.file content executable)) :
    t.read cwd (Location.text l) = .ok content := by
  rw [read, grounded.find_text found (Node.file_ne_link _ _)]

theorem Grounded.isFile_text {content : Text.Utf8.Bytes} {executable : Bool}
    (grounded : t.Grounded) (found : t.get? l = some (.file content executable))
    (noZero : hasZero (Location.text l) = false) : t.isFile cwd (Location.text l) = true := by
  rw [isFile, noZero, grounded.find_text found (Node.file_ne_link _ _)]
  rfl

theorem Grounded.resolve_ofLocation (grounded : t.Grounded) (found : t.get? l = some node)
    (noLink : ∀ target, node ≠ .link target) (noZero : hasZero (Location.text l) = false) :
    t.resolve cwd (Path.ofLocation l) = .ok l :=
  (grounded.linkFree found noLink).resolve_ofLocation (grounded.isName found) noZero

/-! ### Where a look-up ends -/

/-- There is something, or it could be put into a directory that is there. -/
def HasPlace (t : FileTree) (l : Location) : Prop :=
  (t.get? l).isSome ∨ ∃ parent name, l = parent ++ [name] ∧ IsName name ∧ t.get? parent = some .dir

theorem noSlash_of_mem_systemNames {text name : String} (member : name ∈ systemNames text) :
    '/' ∉ name.toList := by
  have ofPiece (inside : name ∈ (Path.pieces text).filter (· ≠ "")) : '/' ∉ name.toList :=
    Path.noSlash_of_mem_pieces (List.mem_of_mem_filter inside)
  unfold systemNames at member
  split at member
  · rcases List.mem_append.mp member with inside | last
    · exact ofPiece inside
    · rw [List.mem_singleton.mp last]
      decide
  · exact ofPiece member

theorem Grounded.hasPlace_of_walk {followLast : Bool} {links : Nat} (grounded : t.Grounded)
    (clean : ∀ name ∈ names, name ≠ "" ∧ '/' ∉ name.toList) (start : t.HasPlace here)
    (found : t.walk followLast links here names = .ok there) : t.HasPlace there := by
  rw [walk_eq_ok_iff] at found
  induction found with
  | done => exact start
  | stay _ _ ih => exact ih (List.forall_mem_cons.mp clean).2 start
  | @leave _ here _ _ isDir _ ih =>
    apply ih (List.forall_mem_cons.mp clean).2
    by_cases isTop : here = []
    · rw [isTop]
      exact .inl rfl
    · exact .inl (by simp [grounded.isDir_dropLast isDir isTop])
  | last _ _ _ link => exact .inl (by simp [link])
  | @link _ here _ _ target _ isDir _ _ _ _ _ ih =>
    apply ih
    · intro other member
      rcases List.mem_append.mp member with member | member
      · have nonempty : other ≠ "" := by
          rintro rfl
          exact empty_notMem_systemNames target member
        exact ⟨nonempty, noSlash_of_mem_systemNames member⟩
      · exact (List.forall_mem_cons.mp clean).2 other member
    · left
      unfold linkStart
      split
      · rfl
      · simp [isDir]
  | @enter _ here _ name _ isDir notHere notAbove _ _ ih =>
    obtain ⟨⟨nonempty, noSlash⟩, clean⟩ := List.forall_mem_cons.mp clean
    exact ih clean (.inr ⟨here, name, rfl, ⟨nonempty, notHere, notAbove, noSlash⟩, isDir⟩)

/-! ### Zero characters -/

/-- No object has a zero character in its name, and no link in its text: the system takes none. -/
structure ZeroFree (t : FileTree) : Prop where
  names : ∀ key ∈ t.nodes.keys, ∀ name ∈ key, hasZero name = false
  targets : ∀ m ∈ t.nodes, ∀ target, m.2 = .link target → hasZero target = false

theorem ZeroFree.noZero_of_get? {node : Node} (zeroFree : t.ZeroFree) (found : t.get? l = some node) :
    ∀ name ∈ l, hasZero name = false := by
  by_cases isTop : l = []
  · rw [isTop]
    exact List.forall_mem_nil _
  · exact zeroFree.names l (mem_keys_of_isSome isTop (by simp [found]))

theorem ZeroFree.noZero_of_link {target : String} (zeroFree : t.ZeroFree)
    (found : t.get? l = some (.link target)) : hasZero target = false := by
  unfold get? at found
  split at found
  · cases found
  · exact zeroFree.targets _ (Table.mem_of_get? found) target rfl

theorem Leads.noZero (way : t.Leads here names there) (zeroFree : t.ZeroFree)
    (given : ∀ name ∈ names, hasZero name = false) (start : ∀ name ∈ here, hasZero name = false) :
    ∀ name ∈ there, hasZero name = false := by
  refine way.invariant (P := fun l => ∀ name ∈ l, hasZero name = false)
    (fun l target link name => Path.noZero_of_mem_pieces (zeroFree.noZero_of_link link))
    (List.forall_mem_nil _) (fun l clean name member => clean name (List.dropLast_subset l member)) ?_
    given start
  intro l name clean noZero _ _ _
  exact List.forall_mem_append.mpr ⟨clean, List.forall_mem_singleton.mpr noZero⟩

end VibeLens.FileTree
