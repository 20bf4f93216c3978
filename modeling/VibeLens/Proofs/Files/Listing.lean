import Mathlib.Data.List.Nodup
import VibeLens.Proofs.Files.Names

set_option autoImplicit false

/-!
The listing of a directory holds the names of the objects right inside it, each one once.
-/

namespace VibeLens.FileTree

open VibeLens.Path (IsName)

variable {t : FileTree} {l : Location} {name : String}

structure Proper (t : FileTree) : Prop where
  distinct : t.nodes.keys.Nodup
  names : ∀ key ∈ t.nodes.keys, ∀ name ∈ key, IsName name

instance (t : FileTree) : Decidable t.Proper :=
  decidable_of_iff (t.nodes.keys.Nodup ∧ ∀ key ∈ t.nodes.keys, ∀ name ∈ key, IsName name)
    ⟨fun ⟨distinct, names⟩ => ⟨distinct, names⟩, fun proper => ⟨proper.distinct, proper.names⟩⟩

theorem mem_keys_of_isSome (nonempty : l ≠ []) (there : (t.get? l).isSome) : l ∈ t.nodes.keys := by
  apply Table.mem_keys_iff.2
  simpa [get?, nonempty] using there

theorem childName?_eq_some_iff {key : Location} :
    childName? l key = some name ↔ key = l ++ [name] := by
  unfold childName?
  constructor
  · intro isChild
    cases last : key.getLast? with
    | none => simp [last] at isChild
    | some other =>
      obtain ⟨parent, rfl⟩ : key.dropLast = l ∧ other = name := by simpa [last] using isChild
      rw [← parent, List.dropLast_append_getLast? other last]
  · rintro rfl
    simp

theorem mem_children : name ∈ t.children l ↔ (t.get? (l ++ [name])).isSome := by
  have listed : name ∈ t.children l ↔ l ++ [name] ∈ t.nodes.keys := by
    unfold children
    rw [List.mem_mergeSort, List.mem_filterMap]
    simp only [childName?_eq_some_iff, exists_eq_right]
  rw [listed, Table.mem_keys_iff]
  simp [get?]

theorem nodup_children (proper : t.Proper) (l : Location) : (t.children l).Nodup := by
  unfold children
  rw [(List.mergeSort_perm _ _).nodup_iff]
  refine List.Nodup.filterMap ?_ proper.distinct
  intro first second name inFirst inSecond
  rw [childName?_eq_some_iff.1 inFirst, childName?_eq_some_iff.1 inSecond]

theorem length_lt_height (member : l ∈ t.nodes.keys) : l.length < t.height := by
  have grows : ∀ (nodes : Table Location Node) (n : Nat),
      n ≤ nodes.foldl (fun n m => max n m.1.length) n ∧
        ∀ m ∈ nodes, m.1.length ≤ nodes.foldl (fun n m => max n m.1.length) n := by
    intro nodes
    induction nodes with
    | nil => simp
    | cons m rest ih =>
      intro n
      obtain ⟨start, later⟩ := ih (max n m.1.length)
      rw [List.foldl_cons]
      refine ⟨by omega, ?_⟩
      intro other inside
      rcases List.mem_cons.1 inside with rfl | inside
      · omega
      · exact later other inside
  obtain ⟨m, inside, rfl⟩ := List.mem_map.1 member
  have bound := (grows t.nodes 0).2 m inside
  unfold height
  omega

variable {node : Node}

theorem Proper.isName (proper : t.Proper) (found : t.get? l = some node) :
    ∀ name ∈ l, IsName name := by
  by_cases isTop : l = []
  · rw [isTop]
    exact List.forall_mem_nil _
  · apply proper.names
    apply mem_keys_of_isSome isTop
    rw [found]
    rfl

theorem length_lt_height_of_get? (found : t.get? l = some node) : l.length < t.height := by
  by_cases isTop : l = []
  · rw [isTop]
    exact Nat.succ_pos _
  · apply length_lt_height
    apply mem_keys_of_isSome isTop
    rw [found]
    rfl

end VibeLens.FileTree
