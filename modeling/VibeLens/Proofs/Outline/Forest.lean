import Mathlib.Data.List.Nodup
import Mathlib.Data.List.Perm.Basic
import VibeLens.Outline.Scan

set_option autoImplicit false

/-!
Forests of symbols as collections of nodes, and how a forest is put together from entries. Every
entry becomes one node, a node's children are the entries that name its line as their owner, and the
order of lines is kept among roots and among the children of one node.
-/

namespace VibeLens

namespace Symbol

/-- All symbols of a forest, at every depth. -/
def nodes (forest : List Symbol) : List Symbol := (forestListing 0 forest).map Prod.snd

/-- Induction over a forest: over the children of its first tree and over the rest of it. -/
theorem forest_induction {motive : List Symbol → Prop} (nil : motive [])
    (cons : ∀ s rest, motive s.children → motive rest → motive (s :: rest)) :
    ∀ forest, motive forest
  | [] => nil
  | s :: rest => cons s rest (forest_induction nil cons s.children)
      (forest_induction nil cons rest)
termination_by forest => sizeOf forest
decreasing_by
  · obtain ⟨name, kind, start, stop, children⟩ := s
    simp only [List.cons.sizeOf_spec, Symbol.mk.sizeOf_spec]
    omega
  · simp only [List.cons.sizeOf_spec]
    omega

@[simp] theorem nodes_nil : nodes [] = [] := rfl

theorem forestListing_cons (depth : Nat) (s : Symbol) (rest : List Symbol) :
    forestListing depth (s :: rest) =
      (depth, s) :: (forestListing (depth + 1) s.children ++ forestListing depth rest) := by
  obtain ⟨name, kind, start, stop, children⟩ := s
  rw [forestListing, listing, List.cons_append]

/-- The nodes do not depend on the depth at which the listing starts. -/
theorem map_snd_forestListing (depth : Nat) (forest : List Symbol) :
    (forestListing depth forest).map Prod.snd = nodes forest := by
  induction forest using forest_induction generalizing depth with
  | nil => rfl
  | cons s rest below after =>
    rw [nodes, forestListing_cons, forestListing_cons]
    simp only [List.map_cons, List.map_append, below, after]

theorem nodes_cons (s : Symbol) (rest : List Symbol) :
    nodes (s :: rest) = s :: (nodes s.children ++ nodes rest) := by
  rw [nodes, forestListing_cons, List.map_cons, List.map_append, map_snd_forestListing,
    map_snd_forestListing]

theorem nodes_eq_flatMap (forest : List Symbol) :
    nodes forest = forest.flatMap fun s => s :: nodes s.children := by
  induction forest with
  | nil => rfl
  | cons s rest ih => rw [nodes_cons, List.flatMap_cons, ← ih, List.cons_append]

theorem nodes_append (forest other : List Symbol) :
    nodes (forest ++ other) = nodes forest ++ nodes other := by
  rw [nodes_eq_flatMap, List.flatMap_append, ← nodes_eq_flatMap, ← nodes_eq_flatMap]

theorem nodes_perm {forest other : List Symbol} (h : forest.Perm other) :
    (nodes forest).Perm (nodes other) := by
  rw [nodes_eq_flatMap, nodes_eq_flatMap]
  exact h.flatMap_right _

theorem mem_nodes_of_mem {forest : List Symbol} {s : Symbol} (h : s ∈ forest) :
    s ∈ nodes forest := by
  rw [nodes_eq_flatMap, List.mem_flatMap]
  exact ⟨s, h, List.mem_cons_self⟩

theorem mem_nodes_of_mem_children {forest : List Symbol} {s c : Symbol}
    (hs : s ∈ nodes forest) (hc : c ∈ s.children) : c ∈ nodes forest := by
  induction forest using forest_induction with
  | nil => simp at hs
  | cons root rest below after =>
    rw [nodes_cons, List.mem_cons, List.mem_append] at hs ⊢
    rcases hs with rfl | hs | hs
    · exact .inr (.inl (mem_nodes_of_mem hc))
    · exact .inr (.inl (below hs))
    · exact .inr (.inr (after hs))

theorem mem_or_exists_parent {forest : List Symbol} {s : Symbol} (h : s ∈ nodes forest) :
    s ∈ forest ∨ ∃ parent ∈ nodes forest, s ∈ parent.children := by
  induction forest using forest_induction with
  | nil => simp at h
  | cons root rest below after =>
    rw [nodes_cons, List.mem_cons, List.mem_append] at h
    rcases h with rfl | h | h
    · exact .inl List.mem_cons_self
    · right
      rcases below h with hs | ⟨parent, hp, hs⟩
      · exact ⟨root, mem_nodes_of_mem List.mem_cons_self, hs⟩
      · refine ⟨parent, ?_, hs⟩
        rw [nodes_cons]
        exact List.mem_cons_of_mem _ (List.mem_append_left _ hp)
    · rcases after h with hs | ⟨parent, hp, hs⟩
      · exact .inl (List.mem_cons_of_mem _ hs)
      · refine .inr ⟨parent, ?_, hs⟩
        rw [nodes_cons]
        exact List.mem_cons_of_mem _ (List.mem_append_right _ hp)

section Place

variable {forest : List Symbol} {s p q : Symbol}

theorem notMem_children_of_mem (nodup : (nodes forest).Nodup) (hs : s ∈ forest)
    (hp : p ∈ nodes forest) : s ∉ p.children := by
  induction forest using forest_induction with
  | nil => simp at hs
  | cons root rest below after =>
    intro child
    rw [nodes_cons, List.nodup_cons, List.mem_append, not_or] at nodup
    obtain ⟨⟨notBelow, notAfter⟩, nodup⟩ := nodup
    obtain ⟨-, nodup_rest, disjoint⟩ := List.nodup_append'.mp nodup
    rw [nodes_cons, List.mem_cons, List.mem_append] at hp
    rcases List.mem_cons.mp hs with rfl | later
    · rcases hp with rfl | hp | hp
      · exact notBelow (mem_nodes_of_mem child)
      · exact notBelow (mem_nodes_of_mem_children hp child)
      · exact notAfter (mem_nodes_of_mem_children hp child)
    · rcases hp with rfl | hp | hp
      · exact disjoint (mem_nodes_of_mem child) (mem_nodes_of_mem later)
      · exact disjoint (mem_nodes_of_mem_children hp child) (mem_nodes_of_mem later)
      · exact after nodup_rest later hp child

theorem parent_unique (nodup : (nodes forest).Nodup) (hp : p ∈ nodes forest)
    (hq : q ∈ nodes forest) (sp : s ∈ p.children) (sq : s ∈ q.children) : p = q := by
  induction forest using forest_induction with
  | nil => simp at hp
  | cons root rest below after =>
    rw [nodes_cons, List.nodup_cons] at nodup
    obtain ⟨nodup_below, nodup_rest, disjoint⟩ := List.nodup_append'.mp nodup.2
    have apart : ∀ {a b}, a ∈ nodes rest → s ∈ a.children → b ∈ nodes root.children →
        s ∉ b.children := fun ha sa hb sb =>
      disjoint (mem_nodes_of_mem_children hb sb) (mem_nodes_of_mem_children ha sa)
    rw [nodes_cons, List.mem_cons, List.mem_append] at hp hq
    rcases hp with rfl | hp | hp
    · rcases hq with rfl | hq | hq
      · rfl
      · exact absurd sq (notMem_children_of_mem nodup_below sp hq)
      · exact absurd (mem_nodes_of_mem_children hq sq) (disjoint (mem_nodes_of_mem sp))
    · rcases hq with rfl | hq | hq
      · exact absurd sp (notMem_children_of_mem nodup_below sq hp)
      · exact below nodup_below hp hq
      · exact absurd sp (apart hq sq hp)
    · rcases hq with rfl | hq | hq
      · exact absurd (mem_nodes_of_mem_children hp sp) (disjoint (mem_nodes_of_mem sq))
      · exact absurd sq (apart hp sp hq)
      · exact after nodup_rest hp hq

end Place

end Symbol

namespace Outline

abbrev lineOf (s : Symbol) : Nat := s.start.line

def Entry.Describes (e : Entry) (s : Symbol) : Prop :=
  s.name = e.name ∧ s.kind = e.kind ∧ s.start = e.start ∧ s.stop = e.stop

/-- A tree with a given owner, made of some entries: its children name it as their owner. -/
inductive Grown (entries : List Entry) : Option Nat → Symbol → Prop
  | tree {e : Entry} {s : Symbol} : e ∈ entries → e.Describes s →
      (∀ c ∈ s.children, Grown entries (some e.start.line) c) →
      s.children.Pairwise (fun a b => lineOf a < lineOf b) → Grown entries e.owner s

namespace Grown

variable {entries more : List Entry} {owner : Option Nat} {s : Symbol}

theorem mono (h : Grown entries owner s) (sub : entries ⊆ more) : Grown more owner s := by
  induction h with
  | tree mem describes _ sorted ih => exact .tree (sub mem) describes ih sorted

theorem exists_entry (h : Grown entries owner s) :
    ∃ e ∈ entries, e.Describes s ∧ e.owner = owner := by
  cases h with
  | tree mem describes _ _ => exact ⟨_, mem, describes, rfl⟩

theorem of_mem_nodes (h : Grown entries owner s) {node : Symbol}
    (mem : node ∈ Symbol.nodes [s]) : ∃ owner, Grown entries owner node := by
  induction h with
  | @tree e s here describes below sorted ih =>
    rw [Symbol.nodes_cons, Symbol.nodes_nil, List.append_nil, List.mem_cons] at mem
    rcases mem with rfl | mem
    · exact ⟨_, .tree here describes below sorted⟩
    · rw [Symbol.nodes_eq_flatMap, List.mem_flatMap] at mem
      obtain ⟨c, hc, mem⟩ := mem
      apply ih c hc
      rw [Symbol.nodes_cons, Symbol.nodes_nil, List.append_nil]
      exact mem

end Grown

def trees (entries : List Entry) : List (Option Nat × Symbol) := entries.foldr adopt []

theorem adopt_eq (e : Entry) (others : List (Option Nat × Symbol)) :
    adopt e others =
      (e.owner, ⟨e.name, e.kind, e.start, e.stop,
        (others.filter fun t => t.1 == some e.start.line).map Prod.snd⟩) ::
      others.filter fun t => !(t.1 == some e.start.line) := by
  rw [adopt, List.partition_eq_filter_filter]
  rfl

theorem trees_cons (e : Entry) (entries : List Entry) :
    trees (e :: entries) = adopt e (trees entries) := rfl

theorem lines_trees_sublist (entries : List Entry) :
    ((trees entries).map fun t => lineOf t.2).Sublist (entries.map fun e => e.start.line) := by
  induction entries with
  | nil => exact List.Sublist.slnil
  | cons e entries ih =>
    rw [trees_cons, adopt_eq, List.map_cons, List.map_cons]
    exact ((List.filter_sublist.map _).trans ih).cons_cons _

theorem grown_of_mem_trees {entries : List Entry}
    (sorted : entries.Pairwise fun a b => a.start.line < b.start.line)
    {t : Option Nat × Symbol} (h : t ∈ trees entries) : Grown entries t.1 t.2 := by
  induction entries generalizing t with
  | nil => simp [trees] at h
  | cons e entries ih =>
    have later := (List.pairwise_cons.mp sorted).2
    have old : ∀ t ∈ trees entries, Grown (e :: entries) t.1 t.2 := fun t ht =>
      (ih later ht).mono (List.subset_cons_self _ _)
    rw [trees_cons, adopt_eq, List.mem_cons] at h
    rcases h with rfl | h
    · refine .tree List.mem_cons_self ⟨rfl, rfl, rfl, rfl⟩ ?_ ?_
      · intro c hc
        obtain ⟨t, ht, rfl⟩ := List.mem_map.mp hc
        obtain ⟨mem, owned⟩ := List.mem_filter.mp ht
        have grown := old t mem
        rwa [beq_iff_eq.mp owned] at grown
      · rw [List.pairwise_map]
        apply List.Pairwise.filter
        rw [← List.pairwise_map (f := fun t : Option Nat × Symbol => lineOf t.2)]
        refine List.Pairwise.sublist (lines_trees_sublist entries) ?_
        exact List.pairwise_map.mpr later
    · exact old t (List.mem_filter.mp h).1

/-- A tree left beside the others is owned by none of the entries: each takes what it owns. -/
theorem owner_ne_of_mem_trees {entries : List Entry} {t : Option Nat × Symbol}
    (h : t ∈ trees entries) {e : Entry} (he : e ∈ entries)
    (before : ∀ a ∈ entries, ∀ k, a.owner = some k → k < a.start.line)
    (sorted : entries.Pairwise fun a b => a.start.line < b.start.line) :
    t.1 ≠ some e.start.line := by
  induction entries with
  | nil => simp at he
  | cons first entries ih =>
    obtain ⟨after, later⟩ := List.pairwise_cons.mp sorted
    rw [trees_cons, adopt_eq, List.mem_cons] at h
    rcases h with rfl | h
    · intro owned
      have := before first List.mem_cons_self _ owned
      rcases List.mem_cons.mp he with rfl | he
      · omega
      · have := after e he
        omega
    · obtain ⟨mem, free⟩ := List.mem_filter.mp h
      rcases List.mem_cons.mp he with rfl | he
      · simpa using free
      · exact ih mem he (fun a ha => before a (List.mem_cons_of_mem _ ha)) later

/-- Nothing is lost and nothing is doubled. -/
theorem lines_nodes_trees_perm (entries : List Entry) :
    ((Symbol.nodes ((trees entries).map Prod.snd)).map lineOf).Perm
      (entries.map fun e => e.start.line) := by
  induction entries with
  | nil => exact List.Perm.nil
  | cons e entries ih =>
    have parts : (Symbol.nodes
          (((trees entries).filter fun t => t.1 == some e.start.line).map Prod.snd) ++
        Symbol.nodes
          (((trees entries).filter fun t => !(t.1 == some e.start.line)).map Prod.snd)).Perm
        (Symbol.nodes ((trees entries).map Prod.snd)) := by
      rw [← Symbol.nodes_append, ← List.map_append]
      exact Symbol.nodes_perm ((List.filter_append_perm _ _).map _)
    rw [trees_cons, adopt_eq, List.map_cons, Symbol.nodes_cons, List.map_cons, List.map_cons]
    exact ((parts.map lineOf).trans ih).cons _

end Outline

end VibeLens
