import Mathlib.Data.List.Infix
import Mathlib.Data.List.Sort
import VibeLens.Proofs.Files.Canonical
import VibeLens.Proofs.Files.Listing
import VibeLens.Proofs.Text.Order
import VibeLens.Proofs.Workspace.Rules

set_option autoImplicit false

/-!
The walk finds exactly the source files of a workspace. It prunes directories and carries the rules
of all ignore files it has met along; in each directory those in force are just the rules of the
directories above, so that what is found below a directory depends on nothing else that was seen.
-/

namespace VibeLens

section Lists

variable {ε α : Type} {p : α → Except ε Bool} {q : α → Bool} {xs : List α}

theorem filterAuxM_eq_ok (decides : ∀ x ∈ xs, p x = .ok (q x)) (kept : List α) :
    xs.filterAuxM p kept = .ok ((xs.filter q).reverse ++ kept) := by
  induction xs generalizing kept with
  | nil => rfl
  | cons x rest ih =>
    have later := ih fun other member => decides other (.tail _ member)
    rw [List.filterAuxM, decides x (.head _)]
    simp only [bind, Except.bind, later]
    cases decision : q x <;> simp [decision]

theorem filterM_eq_ok (decides : ∀ x ∈ xs, p x = .ok (q x)) :
    xs.filterM p = .ok (xs.filter q) := by
  unfold List.filterM
  rw [filterAuxM_eq_ok decides]
  simp [bind, Except.bind, pure, Except.pure]

theorem mapM_eq_ok_of_forall {δ β : Type} {f : α → Except ε β} {g : α → Except δ β} {ys : List β}
    (carries : ∀ x y, f x = .ok y → g x = .ok y) (done : xs.mapM f = .ok ys) :
    xs.mapM g = .ok ys := by
  induction xs generalizing ys with
  | nil =>
    cases done
    rfl
  | cons x rest ih =>
    rw [List.mapM_cons, bind_eq_ok_iff] at done ⊢
    obtain ⟨y, first, done⟩ := done
    obtain ⟨later, rest, done⟩ := bind_eq_ok_iff.1 done
    cases done
    refine ⟨y, carries x y first, ?_⟩
    rw [ih rest, ok_bind]
    rfl

theorem mapM_ofPath {β : Type} {f : α → Except PathFault β} {ys : List β}
    (resolved : xs.mapM f = .ok ys) : (xs.mapM fun x => Failure.ofPath (f x)) = .ok ys :=
  mapM_eq_ok_of_forall (fun _ _ => Failure.ofPath_eq_ok_iff.2) resolved

end Lists

namespace Walk

variable {w : Walk} {list : Location → List String} {base l : Location}
  {known : List LocalRules} {levels : Nat}

/-- What a walk goes through: the tree is a proper one, and directories are listed as they are, in
whatever order. -/
structure Lists (w : Walk) (list : Location → List String) : Prop where
  proper : w.tree.Proper
  listing : ∀ l, (list l).Perm (w.tree.children l)

theorem Lists.mem_list (lists : w.Lists list) {name : String} :
    name ∈ list (w.place ++ base) ↔ (w.get? (base ++ [name])).isSome := by
  rw [(lists.listing _).mem_iff, FileTree.mem_children, List.append_assoc]
  rfl

theorem Lists.nodup_list (lists : w.Lists list) (l : Location) : (list l).Nodup :=
  (lists.listing l).nodup_iff.2 (FileTree.nodup_children lists.proper l)

structure Sound (w : Walk) (list : Location → List String) : Prop where
  proper : w.tree.Proper
  listing : ∀ l, (list l).Perm (w.tree.children l)
  parses : w.Parses

theorem Sound.lists (sound : w.Sound list) : w.Lists list := ⟨sound.proper, sound.listing⟩

inductive Visited (w : Walk) : Nat → Location → Location → Prop where
  | here (levels : Nat) (base : Location) : Visited w (levels + 1) base base
  | deeper {levels : Nat} {base dir : Location} {name : String} :
      w.Entered (base ++ [name]) → Visited w levels (base ++ [name]) dir →
      Visited w (levels + 1) base dir

/-- A file that is found from a directory on, in so many levels: all directories on the way are
entered. -/
structure FoundFrom (w : Walk) (levels : Nat) (base l : Location) : Prop where
  below : base <+: l
  deeper : base.length < l.length
  near : l.length ≤ base.length + levels
  way : ∀ dir, base <+: dir → base.length < dir.length → dir <+: l → dir.length < l.length →
    w.Entered dir
  taken : w.Taken l

theorem not_foundFrom_zero : ¬ w.FoundFrom 0 base l := by
  intro found
  have := found.deeper
  have := found.near
  omega

theorem foundFrom_succ_iff :
    w.FoundFrom (levels + 1) base l ↔
      (∃ name, l = base ++ [name] ∧ w.Taken l) ∨
        ∃ name, w.Entered (base ++ [name]) ∧ w.FoundFrom levels (base ++ [name]) l := by
  constructor
  · intro found
    obtain ⟨rest, rfl⟩ := found.below
    cases rest with
    | nil => simpa using found.deeper
    | cons name rest =>
      cases rest with
      | nil => exact .inl ⟨name, rfl, found.taken⟩
      | cons next rest =>
        refine .inr ⟨name, found.way _ (by simp) (by simp) (by simp) (by simp), ?_⟩
        refine ⟨by simp, by simp, ?_, ?_, found.taken⟩
        · have := found.near
          simp only [List.length_append, List.length_cons, List.length_nil] at this ⊢
          omega
        · intro dir above longer below shorter
          refine found.way dir ((List.prefix_append base [name]).trans above) ?_ below shorter
          simp only [List.length_append, List.length_cons, List.length_nil] at longer
          omega
  · rintro (⟨name, rfl, taken⟩ | ⟨name, entered, found⟩)
    · refine ⟨by simp, by simp, by simp, ?_, taken⟩
      intro dir _ longer _ shorter
      simp only [List.length_append, List.length_cons, List.length_nil] at shorter
      omega
    · have deeper := found.deeper
      have near := found.near
      simp only [List.length_append, List.length_cons, List.length_nil] at deeper near
      refine ⟨(List.prefix_append base [name]).trans found.below, by omega, by omega, ?_, found.taken⟩
      intro dir above longer below shorter
      -- Either the directory is the first one on the way, or it lies below that one.
      rcases List.prefix_or_prefix_of_prefix below found.below with higher | lower
      · have same : dir = base ++ [name] := by
          apply higher.eq_of_length_le
          simp only [List.length_append, List.length_cons, List.length_nil]
          omega
        exact same ▸ entered
      · by_cases same : dir = base ++ [name]
        · exact same ▸ entered
        · refine found.way dir lower ?_ below shorter
          exact Nat.lt_of_le_of_ne lower.length_le fun equal => same (lower.eq_of_length equal).symm

/-- Of the rules known, those in force at or below the directory are the rules above it. -/
def Knows (w : Walk) (known : List LocalRules) (base : Location) : Prop :=
  ∀ l, base <+: l → known.filter (fun r => r.base.isPrefixOf l) = w.rulesAbove base

theorem knows_root (w : Walk) : w.Knows [] [] := fun _ _ => rfl

theorem filter_rulesAt (isAbove : base <+: l) :
    (w.rulesAt base).filter (fun r => r.base.isPrefixOf l) = w.rulesAt base := by
  apply List.filter_eq_self.2
  intro r member
  rw [(mem_rulesAt.1 member).1]
  exact List.isPrefixOf_iff_prefix.2 isAbove

theorem Knows.active (knows : w.Knows known base) (name : String) :
    (known ++ w.rulesAt base).filter (fun r => r.base.isPrefixOf base) =
      w.rulesAbove (base ++ [name]) := by
  rw [List.filter_append, knows base (List.prefix_refl base),
    filter_rulesAt (List.prefix_refl base), rulesAbove_concat]

theorem Knows.enter (knows : w.Knows known base) (name : String) :
    w.Knows (known ++ w.rulesAt base) (base ++ [name]) := by
  intro l below
  have isAbove : base <+: l := (List.prefix_append base [name]).trans below
  rw [List.filter_append, knows l isAbove, filter_rulesAt isAbove, rulesAbove_concat]

theorem name_unique {name other : String} (first : base ++ [name] <+: l)
    (second : base ++ [other] <+: l) : name = other := by
  have same : base ++ [name] = base ++ [other] :=
    (List.prefix_of_prefix_length_le first second (by simp)).eq_of_length (by simp)
  simpa using same

theorem Knows.beside {name other : String} {extra : List LocalRules}
    (knows : w.Knows known (base ++ [other])) (different : name ≠ other)
    (owners : ∀ r ∈ extra, base ++ [name] <+: r.base) :
    w.Knows (known ++ extra) (base ++ [other]) := by
  intro l below
  have none : extra.filter (fun r => r.base.isPrefixOf l) = [] := by
    apply List.filter_eq_nil_iff.2
    intro r member inForce
    have inside := (owners r member).trans (List.isPrefixOf_iff_prefix.1 inForce)
    exact different (name_unique inside below)
  rw [List.filter_append, knows l below, none, List.append_nil]

/-- What a walk through a directory comes to: only rules of directories in it are learned, and the
files found are those that are found from it on, each of them once. -/
def Finds (w : Walk) (list : Location → List String) (levels : Nat) (known : List LocalRules)
    (base : Location) : Prop :=
  ∃ extra found, w.scan list levels known base = .ok (known ++ extra, found) ∧
    (∀ r ∈ extra, base <+: r.base) ∧ found.Nodup ∧ ∀ l, l ∈ found ↔ w.FoundFrom levels base l

theorem foldlM_scan {dirs : List String} (sofar : List Location)
    (finds : ∀ known, ∀ name ∈ dirs, w.Knows known (base ++ [name]) →
      w.Finds list levels known (base ++ [name]))
    (distinct : dirs.Nodup) (knows : ∀ name ∈ dirs, w.Knows known (base ++ [name])) :
    ∃ extra found,
      dirs.foldlM (fun (known, found) name => do
        let (known, more) ← w.scan list levels known (base ++ [name])
        return (known, found ++ more)) (known, sofar) = .ok (known ++ extra, sofar ++ found) ∧
      (∀ r ∈ extra, base <+: r.base) ∧ found.Nodup ∧
      ∀ l, l ∈ found ↔ ∃ name ∈ dirs, w.FoundFrom levels (base ++ [name]) l := by
  induction dirs generalizing known sofar with
  | nil => exact ⟨[], [], by simp [pure, Except.pure], by simp, by simp, by simp⟩
  | cons name rest ih =>
    obtain ⟨fresh, distinct⟩ := List.nodup_cons.1 distinct
    obtain ⟨first, here, scanned, owners, hereDistinct, memHere⟩ :=
      finds known name (.head _) (knows name (.head _))
    have knowsRest : ∀ other ∈ rest, w.Knows (known ++ first) (base ++ [other]) := by
      intro other member
      refine (knows other (.tail _ member)).beside ?_ owners
      rintro rfl
      exact fresh member
    obtain ⟨second, later, folded, ownersLater, laterDistinct, memLater⟩ :=
      ih (sofar ++ here) (fun known other member => finds known other (.tail _ member)) distinct
        knowsRest
    refine ⟨first ++ second, here ++ later, ?_, ?_, ?_, ?_⟩
    · simp only [List.foldlM_cons, scanned, bind, Except.bind, pure, Except.pure]
      simpa [bind, Except.bind, pure, Except.pure] using folded
    · intro r member
      rcases List.mem_append.1 member with member | member
      · exact (List.prefix_append base [name]).trans (owners r member)
      · exact ownersLater r member
    · refine List.nodup_append.2 ⟨hereDistinct, laterDistinct, ?_⟩
      rintro l inHere _ inLater rfl
      obtain ⟨other, member, found⟩ := (memLater l).1 inLater
      have same := name_unique ((memHere l).1 inHere).below found.below
      exact fresh (same ▸ member)
    · intro l
      simp only [List.mem_append, memHere, memLater, List.mem_cons, exists_eq_or_imp]

def dirsIn (w : Walk) (list : Location → List String) (base : Location) : List String :=
  ((list (w.place ++ base)).filter fun name => w.Entered (base ++ [name])).mergeSort (· ≤ ·)

def filesIn (w : Walk) (list : Location → List String) (base : Location) : List Location :=
  ((list (w.place ++ base)).filter fun name => w.Taken (base ++ [name])).map fun name =>
    base ++ [name]

theorem Legible.scan_succ (legible : w.Legible base) (knows : w.Knows known base) :
    w.scan list (levels + 1) known base =
      (w.dirsIn list base).foldlM (fun (known, found) name => do
        let (known, more) ← w.scan list levels known (base ++ [name])
        return (known, found ++ more)) (known ++ w.rulesAt base, w.filesIn list base) := by
  have enters : ((list (w.place ++ base)).filterM fun name => w.enters
        ((known ++ w.rulesAt base).filter fun r => r.base.isPrefixOf base) (base ++ [name])) =
      .ok ((list (w.place ++ base)).filter fun name => w.Entered (base ++ [name])) := by
    refine filterM_eq_ok fun name _ => ?_
    rw [knows.active name]
    exact legible.enters_eq_ok name
  have takes : ((list (w.place ++ base)).filterM fun name => w.takes
        ((known ++ w.rulesAt base).filter fun r => r.base.isPrefixOf base) (base ++ [name])) =
      .ok ((list (w.place ++ base)).filter fun name => w.Taken (base ++ [name])) := by
    refine filterM_eq_ok fun name _ => ?_
    rw [knows.active name]
    exact legible.takes_eq_ok name
  simp only [scan, legible.localRules_eq_ok, ok_bind]
  rw [enters, ok_bind, takes, ok_bind]
  rfl

namespace Lists

variable (lists : w.Lists list)

include lists

theorem nodup_dirsIn (base : Location) : (w.dirsIn list base).Nodup :=
  (List.mergeSort_perm _ _).nodup_iff.2 ((lists.nodup_list _).filter _)

theorem mem_dirsIn {name : String} : name ∈ w.dirsIn list base ↔ w.Entered (base ++ [name]) := by
  simp only [dirsIn, List.mem_mergeSort, List.mem_filter, decide_eq_true_eq, lists.mem_list]
  exact ⟨And.right, fun entered => ⟨by simp [entered.isDir], entered⟩⟩

theorem nodup_filesIn (base : Location) : (w.filesIn list base).Nodup :=
  ((lists.nodup_list _).filter _).map fun first second same => by simpa using same

theorem mem_filesIn : l ∈ w.filesIn list base ↔ ∃ name, l = base ++ [name] ∧ w.Taken l := by
  simp only [filesIn, List.mem_map, List.mem_filter, decide_eq_true_eq, lists.mem_list]
  constructor
  · rintro ⟨name, ⟨-, taken⟩, rfl⟩
    exact ⟨name, rfl, taken⟩
  · rintro ⟨name, rfl, taken⟩
    obtain ⟨content, executable, isFile⟩ := taken.isFile
    exact ⟨name, ⟨by simp [isFile], taken⟩, rfl⟩

theorem finds (levels : Nat) (legible : ∀ dir, w.Visited levels base dir → w.Legible dir)
    (knows : w.Knows known base) : w.Finds list levels known base := by
  induction levels generalizing known base with
  | zero => exact ⟨[], [], by simp [scan], by simp, by simp, by simp [not_foundFrom_zero]⟩
  | succ levels ih =>
    have findsInside : ∀ known, ∀ name ∈ w.dirsIn list base, w.Knows known (base ++ [name]) →
        w.Finds list levels known (base ++ [name]) := fun known name member =>
      ih fun dir visited => legible dir (.deeper (lists.mem_dirsIn.1 member) visited)
    obtain ⟨extra, deeper, folded, owners, deeperDistinct, memDeeper⟩ :=
      foldlM_scan (w.filesIn list base) findsInside (lists.nodup_dirsIn base)
        fun name _ => knows.enter name
    refine ⟨w.rulesAt base ++ extra, w.filesIn list base ++ deeper, ?_, ?_, ?_, ?_⟩
    · rw [(legible base (.here _ _)).scan_succ knows, ← List.append_assoc]
      exact folded
    · intro r member
      rcases List.mem_append.1 member with member | member
      · exact (mem_rulesAt.1 member).1 ▸ List.prefix_refl base
      · exact owners r member
    · refine List.nodup_append.2 ⟨lists.nodup_filesIn base, deeperDistinct, ?_⟩
      rintro l inFiles _ inDeeper rfl
      obtain ⟨name, rfl, -⟩ := lists.mem_filesIn.1 inFiles
      obtain ⟨other, -, found⟩ := (memDeeper _).1 inDeeper
      simpa using found.deeper
    · intro l
      rw [foundFrom_succ_iff, List.mem_append, lists.mem_filesIn, memDeeper]
      simp only [lists.mem_dirsIn]

end Lists

theorem suffix_append {front : Location} (nonempty : l ≠ []) :
    (Path.ofLocation (front ++ l)).suffix = (Path.ofLocation l).suffix := by
  rw [Path.suffix, Path.name, Path.ofLocation, List.getLast?_append_of_ne_nil front nonempty]
  rfl

/-- A source file of the workspace. -/
structure IsSource (w : Walk) (l : Location) : Prop where
  taken : w.Taken l
  way : ∀ dir, dir ≠ [] → dir <+: l → dir ≠ l → w.Entered dir

instance (w : Walk) (l : Location) : Decidable (w.IsSource l) :=
  decidable_of_iff (w.Taken l ∧ ∀ dir ∈ l.inits, dir ≠ [] → dir ≠ l → w.Entered dir)
    ⟨fun ⟨taken, way⟩ => ⟨taken, fun dir nonempty isAbove =>
        way dir ((List.mem_inits _ _).2 isAbove) nonempty⟩,
      fun source => ⟨source.taken, fun dir member nonempty =>
        source.way dir nonempty ((List.mem_inits _ _).1 member)⟩⟩

theorem Taken.ne_root (taken : w.Taken l) : l ≠ [] := by
  rintro rfl
  exact absurd taken.suffix (by decide)

theorem Taken.mem_keys (taken : w.Taken l) : w.place ++ l ∈ w.tree.nodes.keys := by
  obtain ⟨content, executable, isFile⟩ := taken.isFile
  apply FileTree.mem_keys_of_isSome
  · simp [taken.ne_root]
  · rw [show w.tree.get? (w.place ++ l) = w.get? l from rfl, isFile]
    rfl

theorem foundFrom_root_iff : w.FoundFrom w.tree.height [] l ↔ w.IsSource l := by
  constructor
  · intro found
    refine ⟨found.taken, fun dir nonempty isAbove different => ?_⟩
    refine found.way dir (by simp) (List.length_pos_of_ne_nil nonempty) isAbove ?_
    exact Nat.lt_of_le_of_ne isAbove.length_le fun same => different (isAbove.eq_of_length same)
  · intro source
    have short := FileTree.length_lt_height source.taken.mem_keys
    rw [List.length_append] at short
    refine ⟨by simp, List.length_pos_of_ne_nil source.taken.ne_root, ?_, ?_, source.taken⟩
    · rw [List.length_nil]
      omega
    · intro dir _ longer isAbove shorter
      refine source.way dir (List.ne_nil_of_length_pos longer) isAbove ?_
      rintro rfl
      omega

theorem eq_of_relativeText {first second : Location} (one : first ≠ []) (other : second ≠ [])
    (firstNames : ∀ name ∈ first, '/' ∉ name.toList)
    (secondNames : ∀ name ∈ second, '/' ∉ name.toList)
    (same : relativeText [] first = relativeText [] second) : first = second := by
  have cut : Path.pieces (relativeText [] first) = first := Path.pieces_intercalate firstNames one
  rw [← cut, same]
  exact Path.pieces_intercalate secondNames other

theorem pairwise_sorted {found : List Location} (distinct : found.Nodup)
    (proper : ∀ l ∈ found, l ≠ [] ∧ ∀ name ∈ l, '/' ∉ name.toList) :
    (found.mergeSort fun a b => relativeText [] a ≤ relativeText [] b).Pairwise
      fun a b => relativeText [] a < relativeText [] b := by
  apply Text.pairwise_mergeSort_lt (relativeText []) distinct
  intro a inFirst b inSecond same
  obtain ⟨one, firstNames⟩ := proper a inFirst
  obtain ⟨other, secondNames⟩ := proper b inSecond
  exact eq_of_relativeText one other firstNames secondNames same

theorem Lists.proper_location (lists : w.Lists list) (taken : w.Taken l) :
    l ≠ [] ∧ ∀ name ∈ l, '/' ∉ name.toList := by
  refine ⟨taken.ne_root, fun name member => ?_⟩
  exact (lists.proper.names _ taken.mem_keys name (List.mem_append_right _ member)).noSlash

theorem relativeText_append (root l : Location) :
    relativeText root (root ++ l) = relativeText [] l := by simp [relativeText]

theorem Lists.sources_exact (lists : w.Lists list)
    (legible : ∀ dir, w.Visited w.tree.height [] dir → w.Legible dir)
    (includes excludes : List String) :
    ∃ files, w.sources list includes excludes = .ok files ∧
      files.Pairwise (fun a b => relativeText w.root a < relativeText w.root b) ∧
      ∀ p, p ∈ files ↔ ∃ l, p = w.root ++ l ∧ w.IsSource l ∧
        Glob.Selected includes excludes (relativeText w.root p) := by
  obtain ⟨known, found, scanned, -, distinct, memFound⟩ :=
    lists.finds w.tree.height legible w.knows_root
  let selected := found.filter fun l => Glob.selects includes excludes (relativeText [] l)
  let sorted := selected.mergeSort fun a b => relativeText [] a ≤ relativeText [] b
  have memSorted : ∀ l, l ∈ sorted ↔
      w.IsSource l ∧ Glob.Selected includes excludes (relativeText [] l) := by
    intro l
    simp only [sorted, selected, List.mem_mergeSort, List.mem_filter, memFound, foundFrom_root_iff,
      Glob.selects_iff]
  refine ⟨sorted.map (w.root ++ ·), ?_, ?_, ?_⟩
  · simp only [sources, scanned, ok_bind]
    rfl
  · simp only [List.pairwise_map, relativeText_append]
    apply pairwise_sorted (distinct.filter _)
    intro l member
    exact lists.proper_location ((memSorted l).1 (List.mem_mergeSort.2 member)).1.taken
  · intro p
    simp only [List.mem_map, memSorted]
    constructor
    · rintro ⟨l, source, rfl⟩
      exact ⟨l, rfl, source.1, by simpa [relativeText_append] using source.2⟩
    · rintro ⟨l, rfl, source, chosen⟩
      exact ⟨l, ⟨source, by simpa [relativeText_append] using chosen⟩, rfl⟩

theorem Sound.sources_exact (sound : w.Sound list) (includes excludes : List String) :
    ∃ files, w.sources list includes excludes = .ok files ∧
      files.Pairwise (fun a b => relativeText w.root a < relativeText w.root b) ∧
      ∀ p, p ∈ files ↔ ∃ l, p = w.root ++ l ∧ w.IsSource l ∧
        Glob.Selected includes excludes (relativeText w.root p) :=
  sound.lists.sources_exact (fun dir _ => sound.parses.legible dir) includes excludes

theorem eq_of_increasing {root : Location} {first second : List Location}
    (one : first.Pairwise fun a b => relativeText root a < relativeText root b)
    (other : second.Pairwise fun a b => relativeText root a < relativeText root b)
    (same : ∀ p, p ∈ first ↔ p ∈ second) : first = second := by
  have irrefl : Std.Irrefl fun a b : Location => relativeText root a < relativeText root b :=
    ⟨fun a less => String.not_le.2 less (String.le_refl _)⟩
  have antisymm : Std.Antisymm fun a b : Location => relativeText root a < relativeText root b := by
    refine ⟨fun a b less greater => ?_⟩
    rcases String.le_total (relativeText root a) (relativeText root b) with le | ge
    · exact absurd le (String.not_le.2 greater)
    · exact absurd ge (String.not_le.2 less)
  exact one.eq_of_mem_iff other same

end Walk

open FileTree
open VibeLens.Path (IsName)

namespace Host

theorem walk_place (h : Host) {top : Location} (skip : List Location) (free : h.tree.LinkFree top)
    (names : ∀ name ∈ top, IsName name) : (h.walk top skip).place = top := by
  unfold walk
  simp only
  split
  · rename_i there found
    exact (leads_of_locate names found).unique (free.leads names)
  · rfl

theorem walk_place_of_sameWays {h : Host} {tree : FileTree} (same : SameWays h.tree tree)
    (top : Location) (skip : List Location) :
    ((h.withTree tree).walk top skip).place = (h.walk top skip).place := by
  rcases same.locate h.cwd true (Location.text top) with equal | ⟨⟨_, before, -⟩, _, after, -⟩
  · simp only [walk, withTree_tree, withTree_cwd, equal]
  · simp only [walk, withTree_tree, withTree_cwd, before, after]

theorem sourcesListed_eq_ok_iff {h : Host} {list : Location → List String} {root : Path}
    {skip : List Path} {includes excludes : List String} {files : List Location} :
    h.sourcesListed list root skip includes excludes = .ok files ↔
      ∃ top skipped, h.resolve root = .ok top ∧ skip.mapM h.resolve = .ok skipped ∧
        (h.walk top skipped).sources list includes excludes = .ok files := by
  have resolves {skipped : List Location} :
      (skip.mapM fun p => Failure.ofPath (h.resolve p)) = .ok skipped ↔
        skip.mapM h.resolve = .ok skipped :=
    ⟨mapM_eq_ok_of_forall fun _ _ => Failure.ofPath_eq_ok_iff.1, mapM_ofPath⟩
  simp only [sourcesListed, bind_eq_ok_iff, Failure.ofPath_eq_ok_iff, Failure.ofIgnore_eq_ok_iff,
    resolves, exists_and_left]

theorem sourcesListed_iff_of_resolve {h : Host} {list : Location → List String} {root : Path}
    {skip : List Path} {includes excludes : List String} {top : Location} {skipped files : List Location}
    (resolved : h.resolve root = .ok top) (resolvedSkip : skip.mapM h.resolve = .ok skipped) :
    h.sourcesListed list root skip includes excludes = .ok files ↔
      (h.walk top skipped).sources list includes excludes = .ok files := by
  rw [sourcesListed_eq_ok_iff]
  constructor
  · rintro ⟨_, _, again, againSkip, scanned⟩
    cases resolved.symm.trans again
    cases resolvedSkip.symm.trans againSkip
    exact scanned
  · exact fun scanned => ⟨top, skipped, resolved, resolvedSkip, scanned⟩

/-- The scan of a workspace gives exactly its selected source files, in increasing order of their
paths and the same ones in whatever order directories are listed. -/
theorem sourcesListed_exact (h : Host) (root : Path) (skip : List Path)
    (includes excludes : List String) (top : Location) (skipped : List Location)
    (proper : h.tree.Proper) (resolved : h.resolve root = .ok top)
    (resolvedSkip : skip.mapM h.resolve = .ok skipped) (parses : (h.walk top skipped).Parses) :
    ∃ files,
      (∀ list, (∀ l, (list l).Perm (h.tree.children l)) →
        h.sourcesListed list root skip includes excludes = .ok files) ∧
      files.Pairwise (fun a b => relativeText top a < relativeText top b) ∧
      (∀ p, p ∈ files ↔ ∃ l, p = top ++ l ∧ (h.walk top skipped).IsSource l ∧
        Glob.Selected includes excludes (relativeText top p)) ∧
      (h.tree.LinkFree top → (∀ name ∈ top, IsName name) → (h.walk top skipped).place = top) := by
  have scans : ∀ list, (∀ l, (list l).Perm (h.tree.children l)) →
      ∃ files, h.sourcesListed list root skip includes excludes = .ok files ∧
        files.Pairwise (fun a b => relativeText top a < relativeText top b) ∧
        ∀ p, p ∈ files ↔ ∃ l, p = top ++ l ∧ (h.walk top skipped).IsSource l ∧
          Glob.Selected includes excludes (relativeText top p) := by
    intro list listing
    have sound : (h.walk top skipped).Sound list := ⟨proper, listing, parses⟩
    obtain ⟨files, scanned, ordered, exactly⟩ := sound.sources_exact includes excludes
    refine ⟨files, ?_, ordered, exactly⟩
    rw [sourcesListed, Failure.ofPath_eq_ok_iff.2 resolved, ok_bind, mapM_ofPath resolvedSkip,
      ok_bind]
    exact Failure.ofIgnore_eq_ok_iff.2 scanned
  obtain ⟨files, scanned, ordered, exactly⟩ := scans h.tree.children fun l => List.Perm.refl _
  refine ⟨files, ?_, ordered, exactly, h.walk_place skipped⟩
  intro list listing
  obtain ⟨others, scannedToo, orderedToo, exactlyToo⟩ := scans list listing
  rw [scannedToo, Walk.eq_of_increasing orderedToo ordered fun p => by rw [exactlyToo, exactly]]

end Host

def ignoring : Host where
  tree := ⟨[(["ws"], .dir), (["ws", ".gitignore"], .file [98] false), (["ws", "a"], .dir),
    (["ws", "a", "c.vb"], .file [] false), (["ws", "b"], .dir),
    (["ws", "b", "d.vb"], .file [] false)]⟩
  cwd := ["ws"]
  home := "/"
  users := []
  searchPath := ""
  utilities := []
  wording := .plain

namespace ignoring

def scan : Walk := ⟨ignoring.tree, ["ws"], ["ws"], []⟩

theorem resolve_workspace : ignoring.resolve ⟨.top, ["ws"]⟩ = .ok ["ws"] := by
  refine resolve_eq_ok_iff.2 ⟨by decide, ?_, ?_⟩
  · simp [canonical, follow, Path.isAbsolute, Reached.top, Reached.location, Reached.down, ignoring,
      FileTree.get?, Table.get?]
  · rw [FileTree.find, locate_text _ _ _ (by simp) (by decide)]
    simp [FileTree.walk, ignoring, FileTree.get?, Table.get?]

theorem walk_eq : ignoring.walk ["ws"] [] = scan := by
  have free : ignoring.tree.LinkFree ["ws"] := by
    intro above _ target found
    simp only [ignoring, FileTree.get?, Table.get?] at found
    grind
  have place := ignoring.walk_place [] free (by decide)
  unfold Host.walk at place ⊢
  simp only at place
  rw [place]
  rfl

theorem parses : scan.Parses := by
  intro base content executable found
  have last : ∀ {l : Location}, l = "ws" :: (base ++ [".gitignore"]) →
      l.getLast? = some ".gitignore" := by
    rintro _ rfl
    simp [List.getLast?_cons]
  simp only [Walk.get?, scan, ignoring, FileTree.get?, Table.get?, List.cons_append,
    List.nil_append] at found
  have content_eq : content = [98] := by grind
  subst content_eq
  refine ⟨⟨[⟨false, "(^|[/])b$".toList⟩]⟩, by decide +kernel, ?_⟩
  unfold IgnoreFile.Readable
  decide +kernel

theorem sourcesListed_backwards :
    ∃ files, ignoring.sourcesListed (fun l => (ignoring.tree.children l).reverse) ⟨.top, ["ws"]⟩ []
        [] [] = .ok files ∧
      ["ws", "a", "c.vb"] ∈ files ∧ ["ws", "b", "d.vb"] ∉ files := by
  obtain ⟨files, scanned, -, exactly, -⟩ :=
    Host.sourcesListed_exact ignoring ⟨.top, ["ws"]⟩ [] [] [] ["ws"] [] (by decide +kernel)
      resolve_workspace rfl (walk_eq ▸ parses)
  rw [walk_eq] at exactly
  refine ⟨files, scanned _ fun l => List.reverse_perm _, ?_, ?_⟩
  · refine (exactly _).2 ⟨["a", "c.vb"], rfl, by decide +kernel, ?_⟩
    simp [Glob.Selected]
  · intro member
    obtain ⟨l, same, source, -⟩ := (exactly _).1 member
    obtain rfl : l = ["b", "d.vb"] := by simpa using same.symm
    exact absurd source (by decide +kernel)

end ignoring
end VibeLens
