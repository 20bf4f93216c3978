import Mathlib.Data.List.Chain
import Mathlib.Data.List.TakeWhile
import VibeLens.Proofs.Outline.Forest

set_option autoImplicit false

/-!
Listings of forests. A listing names every symbol with its depth, parents first, and does not say what
is nested in what. The depths make up for that: the children of a symbol are what stands deeper right
behind it. So a forest is put together again from its listing, and which listings there are can be told
from their depths alone.
-/

namespace VibeLens

structure Heading where
  name : String
  kind : Kind
  start : Position
  stop : Position
  deriving DecidableEq, Repr

namespace Symbol

def heading (s : Symbol) : Heading := ⟨s.name, s.kind, s.start, s.stop⟩

/-- The listing of a forest as it is seen from outside. -/
def headings (depth : Nat) (forest : List Symbol) : List (Nat × Heading) :=
  (forestListing depth forest).map fun entry => (entry.1, entry.2.heading)

@[simp] theorem headings_nil (depth : Nat) : headings depth [] = [] := rfl

theorem headings_cons (depth : Nat) (s : Symbol) (rest : List Symbol) :
    headings depth (s :: rest) =
      (depth, s.heading) :: (headings (depth + 1) s.children ++ headings depth rest) := by
  rw [headings, forestListing_cons, List.map_cons, List.map_append, headings, headings]

mutual

def size : Symbol → Nat
  | ⟨_, _, _, _, children⟩ => forestSize children + 1

def forestSize : List Symbol → Nat
  | [] => 0
  | s :: rest => s.size + forestSize rest

end

theorem length_headings (depth : Nat) (forest : List Symbol) :
    (headings depth forest).length = forestSize forest := by
  induction forest using forest_induction generalizing depth with
  | nil => rfl
  | cons s rest below after =>
    have whole : s.size = forestSize s.children + 1 := by
      cases s
      rw [size]
    rw [headings_cons, List.length_cons, List.length_append, below, after, forestSize, whole]
    omega

/-! ### The depths of a listing -/

/-- The depths that a walk through a forest can show: the first one is given, none is smaller, and each
is at most one more than the one before it. -/
structure Descends (depth : Nat) (depths : List Nat) : Prop where
  first : ∀ d ∈ depths.head?, d = depth
  least : ∀ d ∈ depths, depth ≤ d
  gradual : depths.IsChain fun d next => next ≤ d + 1

/-- A walk goes through the children of a symbol, one level deeper, and comes back to its siblings. -/
theorem Descends.cons {depth : Nat} {below after : List Nat} (children : Descends (depth + 1) below)
    (siblings : Descends depth after) : Descends depth (depth :: (below ++ after)) where
  first d head := (Option.some.inj head).symm
  least := by
    rw [List.forall_mem_cons, List.forall_mem_append]
    refine ⟨le_rfl, ?_, siblings.least⟩
    exact fun d member => (Nat.le_succ depth).trans (children.least d member)
  gradual := by
    rw [List.isChain_cons, List.isChain_append]
    refine ⟨?_, children.gradual, siblings.gradual, ?_⟩
    · intro next head
      cases below with
      | nil => exact (siblings.first next head).le.trans (Nat.le_succ depth)
      | cons d below => exact (children.first next head).le
    · intro last ends next head
      have deeper := children.least last (List.mem_of_getLast? ends)
      have back := siblings.first next head
      omega

theorem descends_headings (depth : Nat) (forest : List Symbol) :
    Descends depth ((headings depth forest).map Prod.fst) := by
  induction forest using forest_induction generalizing depth with
  | nil => exact ⟨nofun, nofun, List.isChain_nil⟩
  | cons s rest below after =>
    rw [headings_cons, List.map_cons, List.map_append]
    exact (below (depth + 1)).cons (after depth)

/-! ### The forest of a listing -/

def gather (entry : Nat × Heading) (trees : List (Nat × Symbol)) : List (Nat × Symbol) :=
  let deeper (t : Nat × Symbol) : Bool := entry.1 < t.1
  (entry.1, ⟨entry.2.name, entry.2.kind, entry.2.start, entry.2.stop,
    (trees.takeWhile deeper).map Prod.snd⟩) :: trees.dropWhile deeper

def ofListing (listing : List (Nat × Heading)) : List Symbol :=
  (listing.foldr gather []).map Prod.snd

theorem gather_children {depth : Nat} {trees : List (Nat × Symbol)}
    (notDeeper : ∀ t ∈ trees.head?, t.1 ≤ depth) (s : Symbol) :
    gather (depth, s.heading) (s.children.map (depth + 1, ·) ++ trees) = (depth, s) :: trees := by
  have children : ∀ t ∈ s.children.map (depth + 1, ·), decide (depth < t.1) = true := by
    simp
  have taken : trees.takeWhile (fun t => decide (depth < t.1)) = [] := by
    cases trees with
    | nil => rfl
    | cons t trees => exact List.takeWhile_cons_of_neg (by simpa using notDeeper t rfl)
  have left : trees.dropWhile (fun t => decide (depth < t.1)) = trees := by
    cases trees with
    | nil => rfl
    | cons t trees => exact List.dropWhile_cons_of_neg (by simpa using notDeeper t rfl)
  simp only [gather]
  rw [List.takeWhile_append_of_pos children, List.dropWhile_append_of_pos children, taken, left,
    List.append_nil, List.map_map]
  obtain ⟨name, kind, start, stop, below⟩ := s
  exact congrArg (fun below => (depth, Symbol.mk name kind start stop below) :: trees)
    (List.map_id below)

/-- Read from its end, a listing gives back the trees of its forest, in front of whatever trees do not
stand deeper. -/
theorem foldr_gather_headings {depth : Nat} {forest : List Symbol} {trees : List (Nat × Symbol)}
    (notDeeper : ∀ t ∈ trees.head?, t.1 ≤ depth) :
    (headings depth forest).foldr gather trees = forest.map (depth, ·) ++ trees := by
  induction forest using forest_induction generalizing depth trees with
  | nil => rfl
  | cons s rest below after =>
    have later : ∀ t ∈ (rest.map (depth, ·) ++ trees).head?, t.1 ≤ depth := by
      cases rest with
      | nil => exact notDeeper
      | cons next rest =>
        intro t head
        cases head
        exact le_rfl
    rw [headings_cons, List.foldr_cons, List.foldr_append, after notDeeper,
      below fun t head => (later t head).trans (Nat.le_succ depth), gather_children later]
    rfl

theorem ofListing_headings (depth : Nat) (forest : List Symbol) :
    ofListing (headings depth forest) = forest := by
  have alone : (headings depth forest).foldr gather [] = forest.map (depth, ·) ++ [] :=
    foldr_gather_headings (by simp)
  rw [ofListing, alone, List.append_nil, List.map_map]
  exact List.map_id forest

/-! ### The listing of a forest put together -/

def listingOf (trees : List (Nat × Symbol)) : List (Nat × Heading) :=
  trees.flatMap fun t => headings t.1 [t.2]

theorem headings_eq_listingOf {depth : Nat} {trees : List (Nat × Symbol)}
    (level : ∀ t ∈ trees, t.1 = depth) : headings depth (trees.map Prod.snd) = listingOf trees := by
  induction trees with
  | nil => rfl
  | cons t trees ih =>
    obtain ⟨rfl, levels⟩ := List.forall_mem_cons.mp level
    rw [List.map_cons, headings_cons, ih levels, listingOf, listingOf, List.flatMap_cons,
      headings_cons, headings_nil, List.append_nil, List.cons_append]

/-- Trees made from a listing: they list it, and none stands deeper than one before it. -/
structure Gathers (listing : List (Nat × Heading)) (trees : List (Nat × Symbol)) : Prop where
  lists : listingOf trees = listing
  ascending : trees.Pairwise fun t u => u.1 ≤ t.1

variable {listing : List (Nat × Heading)} {trees : List (Nat × Symbol)}

/-- All trees stand at most as deep as the first entry of the listing. -/
theorem Gathers.le_first (gathers : Gathers listing trees) {t : Nat × Symbol} (member : t ∈ trees) :
    ∃ e ∈ listing.head?, t.1 ≤ e.1 := by
  obtain ⟨rfl, ascending⟩ := gathers
  cases trees with
  | nil => cases member
  | cons u trees =>
    refine ⟨(u.1, u.2.heading), by rw [listingOf, List.flatMap_cons, headings_cons]; rfl, ?_⟩
    rcases List.mem_cons.mp member with rfl | later
    · exact le_rfl
    · exact (List.pairwise_cons.mp ascending).1 t later

theorem Gathers.gather {entry : Nat × Heading} (gathers : Gathers listing trees)
    (next : ∀ e ∈ listing.head?, e.1 ≤ entry.1 + 1) :
    Gathers (entry :: listing) (gather entry trees) where
  lists := by
    -- What is taken stands exactly one level deeper, or the listing would have skipped a level.
    have children : ∀ t ∈ trees.takeWhile (fun t => decide (entry.1 < t.1)), t.1 = entry.1 + 1 := by
      intro t member
      have deeper : entry.1 < t.1 := by simpa using List.mem_takeWhile_imp member
      obtain ⟨e, head, le⟩ := gathers.le_first ((List.takeWhile_sublist _).subset member)
      have := next e head
      omega
    rw [Symbol.gather, listingOf, List.flatMap_cons, headings_cons, headings_nil, List.append_nil,
      headings_eq_listingOf children, listingOf, List.cons_append, ← List.flatMap_append,
      List.takeWhile_append_dropWhile]
    exact congrArg (entry :: ·) gathers.lists
  ascending := by
    have rest := gathers.ascending.sublist (List.dropWhile_sublist fun t => decide (entry.1 < t.1))
    refine List.pairwise_cons.mpr ⟨?_, rest⟩
    intro t member
    cases left : trees.dropWhile (fun t => decide (entry.1 < t.1)) with
    | nil => simp [left] at member
    | cons u more =>
      have first : u.1 ≤ entry.1 := by
        have stop := List.head?_dropWhile_not (fun t => decide (entry.1 < t.1)) trees
        rw [left] at stop
        simpa using stop
      rw [left] at rest member
      rcases List.mem_cons.mp member with rfl | later
      · exact first
      · exact ((List.pairwise_cons.mp rest).1 t later).trans first

theorem gathers_foldr (gradual : (listing.map Prod.fst).IsChain fun d next => next ≤ d + 1) :
    Gathers listing (listing.foldr gather []) := by
  induction listing with
  | nil => exact ⟨rfl, List.Pairwise.nil⟩
  | cons entry listing ih =>
    rw [List.map_cons, List.isChain_cons] at gradual
    apply (ih gradual.2).gather
    intro e head
    exact gradual.1 e.1 (by rw [List.head?_map, Option.mem_def.mp head]; rfl)

theorem headings_ofListing {depth : Nat} (descends : Descends depth (listing.map Prod.fst)) :
    headings depth (ofListing listing) = listing := by
  have gathers := gathers_foldr descends.gradual
  have level : ∀ t ∈ listing.foldr gather [], t.1 = depth := by
    intro t member
    obtain ⟨e, head, le⟩ := gathers.le_first member
    have first : e.1 = depth :=
      descends.first e.1 (by rw [List.head?_map, Option.mem_def.mp head]; rfl)
    have listed : (t.1, t.2.heading) ∈ listing := by
      rw [← gathers.lists, listingOf, List.mem_flatMap]
      refine ⟨t, member, ?_⟩
      rw [headings_cons]
      exact List.mem_cons_self
    have least := descends.least t.1 (List.mem_map_of_mem listed)
    omega
  rw [ofListing, headings_eq_listingOf level, gathers.lists]

/-- The listings there are: those that never go down by more than one level at a time. -/
theorem exists_headings_eq_iff {depth : Nat} :
    (∃ forest, headings depth forest = listing) ↔ Descends depth (listing.map Prod.fst) := by
  constructor
  · rintro ⟨forest, rfl⟩
    exact descends_headings depth forest
  · exact fun descends => ⟨_, headings_ofListing descends⟩

end Symbol
end VibeLens
