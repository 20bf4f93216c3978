import Mathlib.Data.List.Nodup
import Mathlib.Data.List.Perm.Subperm
import VibeLens.Proofs.Json.Compact
import VibeLens.Proofs.Text.Encoding
import VibeLens.Proofs.Text.Order
import VibeLens.Table

set_option autoImplicit false

/-!
The text of a value says what the value is, up to the order of members, and says nothing about that
order. Two values are alike if they differ in it only, at whatever depth; this is the same as having
one canonical form, and the canonical form is what a text is made from and what it is read back as.
-/

namespace VibeLens.Json

open Text

/-! ### Values alike -/

mutual

def keyed : Json → Bool
  | arr items => itemsKeyed items
  | obj members => decide (members.map Prod.fst).Nodup && membersKeyed members
  | _ => true

def itemsKeyed : List Json → Bool
  | [] => true
  | v :: vs => v.keyed && itemsKeyed vs

def membersKeyed : List (String × Json) → Bool
  | [] => true
  | (_, v) :: ms => v.keyed && membersKeyed ms

end

mutual

/-- Equality that passes over the order of members. -/
def alike : Json → Json → Bool
  | null, null => true
  | bool b, bool c => b == c
  | int n, int m => n == m
  | str s, str t => s == t
  | arr items, arr others => itemsAlike items others
  | obj members, obj others => members.length == others.length && membersAlike members others
  | _, _ => false

def itemsAlike : List Json → List Json → Bool
  | [], [] => true
  | v :: vs, w :: ws => v.alike w && itemsAlike vs ws
  | _, _ => false

def membersAlike : List (String × Json) → List (String × Json) → Bool
  | [], _ => true
  | (key, v) :: ms, others => (others.lookup key).any (fun w => v.alike w) && membersAlike ms others

end

theorem itemsKeyed_iff {items : List Json} : itemsKeyed items ↔ ∀ v ∈ items, v.keyed := by
  induction items with
  | nil => simp [itemsKeyed]
  | cons v vs ih => rw [itemsKeyed, Bool.and_eq_true, ih, List.forall_mem_cons]

theorem membersKeyed_iff {members : List (String × Json)} :
    membersKeyed members ↔ ∀ m ∈ members, m.2.keyed := by
  induction members with
  | nil => simp [membersKeyed]
  | cons m ms ih => rw [membersKeyed, Bool.and_eq_true, ih, List.forall_mem_cons]

theorem keyed_obj_iff {members : List (String × Json)} :
    (obj members).keyed ↔ (members.map Prod.fst).Nodup ∧ ∀ m ∈ members, m.2.keyed := by
  rw [keyed, Bool.and_eq_true, decide_eq_true_iff, membersKeyed_iff]

theorem membersAlike_iff {members others : List (String × Json)} :
    membersAlike members others ↔
      ∀ m ∈ members, ∃ w, others.lookup m.1 = some w ∧ m.2.alike w := by
  induction members with
  | nil => simp [membersAlike]
  | cons m ms ih =>
    rw [membersAlike, Bool.and_eq_true, ih, List.forall_mem_cons, Option.any_eq_true]

/-! ### Members in order -/

section Members

variable {α : Type} {members others : List (String × α)}

theorem sortMembers_perm (members : List (String × α)) : (sortMembers members).Perm members :=
  List.mergeSort_perm _ _

theorem sortMembers_sortMembers (members : List (String × α)) :
    sortMembers (sortMembers members) = sortMembers members := by
  apply List.mergeSort_of_pairwise
  exact (pairwise_mergeSort_le Prod.fst members).imp decide_eq_true

theorem lookup_map {β : Type} (f : α → β) (members : List (String × α)) (key : String) :
    (members.map fun m => (m.1, f m.2)).lookup key = (members.lookup key).map f := by
  induction members with
  | nil => rfl
  | cons m rest ih =>
    rw [List.map_cons, List.lookup_cons, List.lookup_cons, ih]
    split <;> rfl

theorem lookup_sortMembers (distinct : (members.map Prod.fst).Nodup) (key : String) :
    (sortMembers members).lookup key = members.lookup key := by
  have sorted := sortMembers_perm members
  have distinctSorted := (sorted.map Prod.fst).nodup_iff.mpr distinct
  apply Option.ext
  intro a
  rw [lookup_eq_some_iff_mem distinctSorted, lookup_eq_some_iff_mem distinct, sorted.mem_iff]

theorem sortMembers_eq_iff_perm (distinct : (members.map Prod.fst).Nodup) :
    sortMembers members = sortMembers others ↔ members.Perm others := by
  constructor
  · intro same
    have sorted := sortMembers_perm members
    rw [same] at sorted
    exact sorted.symm.trans (sortMembers_perm others)
  · intro perm
    have sorted : (sortMembers members).Perm (sortMembers others) :=
      ((sortMembers_perm members).trans perm).trans (sortMembers_perm others).symm
    refine sorted.eq_of_pairwise ?_ (pairwise_mergeSort_le Prod.fst members)
      (pairwise_mergeSort_le Prod.fst others)
    intro m n inMembers inOthers le ge
    have inMembers : m ∈ members := List.mem_mergeSort.mp inMembers
    have inOthers : n ∈ members := perm.mem_iff.mpr (List.mem_mergeSort.mp inOthers)
    exact List.inj_on_of_nodup_map distinct inMembers inOthers (String.le_antisymm le ge)

theorem perm_of_subset {l l' : List α} (distinct : l.Nodup) (length : l.length = l'.length)
    (subset : l ⊆ l') : l.Perm l' :=
  (distinct.subperm subset).perm_of_length_le length.ge

end Members

theorem map_fst_canonicalMembers (members : List (String × Json)) :
    (canonicalMembers members).map Prod.fst = members.map Prod.fst := by
  rw [canonicalMembers_eq_map, List.map_map]
  rfl

/-! ### One canonical form -/

theorem canonical_canonical (v : Json) : v.canonical.canonical = v.canonical := by
  induction v using value_induction with
  | arr items ih =>
    simp only [canonical, canonicalItems_eq_map, List.map_map, Function.comp_def]
    rw [List.map_congr_left ih]
  | obj members ih =>
    have inside : (members.map fun m => (m.1, m.2.canonical.canonical)) =
        members.map fun m => (m.1, m.2.canonical) :=
      List.map_congr_left fun m member => by rw [ih m member]
    simp only [canonical, canonicalMembers_eq_map, ← sortMembers_map, sortMembers_sortMembers,
      List.map_map, Function.comp_def, inside]
  | _ => rfl

theorem keyed_canonical {v : Json} (keyed : v.keyed) : v.canonical.keyed := by
  induction v using value_induction with
  | arr items ih =>
    rw [Json.keyed, itemsKeyed_iff] at keyed
    rw [canonical, canonicalItems_eq_map, Json.keyed, itemsKeyed_iff, List.forall_mem_map]
    exact fun v member => ih v member (keyed v member)
  | obj members ih =>
    obtain ⟨distinct, inside⟩ := keyed_obj_iff.mp keyed
    have sorted := sortMembers_perm (canonicalMembers members)
    rw [canonical, keyed_obj_iff, (sorted.map Prod.fst).nodup_iff, map_fst_canonicalMembers]
    refine ⟨distinct, fun m member => ?_⟩
    rw [sorted.mem_iff, canonicalMembers_eq_map] at member
    obtain ⟨n, known, rfl⟩ := List.mem_map.mp member
    exact ih n known (inside n known)
  | _ => exact keyed

/-- The members of two objects are alike exactly if, once the values are in canonical form, they are the
same but for their order. -/
theorem membersAlike_iff_perm {members others : List (String × Json)}
    (distinct : (members.map Prod.fst).Nodup) (distinct' : (others.map Prod.fst).Nodup)
    (values : ∀ m ∈ members, ∀ n ∈ others, m.2.alike n.2 ↔ m.2.canonical = n.2.canonical) :
    (members.length = others.length ∧ membersAlike members others) ↔
      (canonicalMembers members).Perm (canonicalMembers others) := by
  rw [membersAlike_iff, canonicalMembers_eq_map, canonicalMembers_eq_map]
  constructor
  · rintro ⟨length, same⟩
    apply perm_of_subset
    · apply List.Nodup.of_map Prod.fst
      rw [← canonicalMembers_eq_map, map_fst_canonicalMembers]
      exact distinct
    · rw [List.length_map, List.length_map, length]
    · intro canonicalMember inMembers
      obtain ⟨m, member, rfl⟩ := List.mem_map.mp inMembers
      obtain ⟨w, found, alike⟩ := same m member
      have other := (lookup_eq_some_iff_mem distinct').mp found
      refine List.mem_map.mpr ⟨_, other, ?_⟩
      rw [(values m member _ other).mp alike]
  · intro perm
    refine ⟨by simpa using perm.length_eq, fun m member => ?_⟩
    obtain ⟨n, other, same⟩ := List.mem_map.mp (perm.mem_iff.mp (List.mem_map_of_mem member))
    obtain ⟨key, value⟩ := Prod.mk.inj same
    refine ⟨n.2, (lookup_eq_some_iff_mem distinct').mpr (key ▸ other), ?_⟩
    exact (values m member n other).mpr value.symm

theorem itemsAlike_iff_map {items others : List Json}
    (values : ∀ v ∈ items, ∀ w ∈ others, v.alike w ↔ v.canonical = w.canonical) :
    itemsAlike items others ↔ items.map canonical = others.map canonical := by
  induction items generalizing others with
  | nil => cases others <;> simp [itemsAlike]
  | cons v vs ih =>
    cases others with
    | nil => simp [itemsAlike]
    | cons w ws =>
      have first := values v List.mem_cons_self w List.mem_cons_self
      have later := ih fun x inRest y inOthers =>
        values x (List.mem_cons_of_mem v inRest) y (List.mem_cons_of_mem w inOthers)
      rw [itemsAlike, Bool.and_eq_true, first, later, List.map_cons, List.map_cons, List.cons.injEq]

theorem alike_iff {v w : Json} (keyed : v.keyed) (keyed' : w.keyed) :
    v.alike w ↔ v.canonical = w.canonical := by
  induction v using value_induction generalizing w with
  | arr items ih =>
    cases w with
    | arr others =>
      rw [Json.keyed, itemsKeyed_iff] at keyed keyed'
      rw [alike, canonical, canonical, canonicalItems_eq_map, canonicalItems_eq_map, arr.injEq]
      exact itemsAlike_iff_map fun v member w other => ih v member (keyed v member) (keyed' w other)
    | _ => simp [alike, canonical]
  | obj members ih =>
    cases w with
    | obj others =>
      obtain ⟨distinct, inside⟩ := keyed_obj_iff.mp keyed
      obtain ⟨distinct', inside'⟩ := keyed_obj_iff.mp keyed'
      rw [alike, Bool.and_eq_true, beq_iff_eq, canonical, canonical, obj.injEq,
        sortMembers_eq_iff_perm (by rwa [map_fst_canonicalMembers])]
      apply membersAlike_iff_perm distinct distinct'
      exact fun m member n other => ih m member (inside m member) (inside' n other)
    | _ => simp [alike, canonical]
  | _ => cases w <;> simp [alike, canonical]

theorem canonical_alike {v : Json} (keyed : v.keyed) : v.canonical.alike v := by
  rw [alike_iff (keyed_canonical keyed) keyed, canonical_canonical]

/-! ### One text -/

theorem compact_canonical (v : Json) : v.canonical.compact = v.compact := by
  induction v using value_induction with
  | arr items ih =>
    simp only [canonical, compact, canonicalItems_eq_map, compactItems_eq_map, List.map_map,
      Function.comp_def]
    rw [List.map_congr_left ih]
  | obj members ih =>
    have inside : (members.map fun m => (m.1, m.2.canonical.compact)) =
        members.map fun m => (m.1, m.2.compact) :=
      List.map_congr_left fun m member => by rw [ih m member]
    simp only [canonical, compact, canonicalMembers_eq_map, compactMembers_eq_map,
      ← sortMembers_map, sortMembers_sortMembers, List.map_map]
    rw [← inside]
    rfl
  | _ => rfl

theorem indentedAt_canonical (v : Json) (level : Nat) :
    v.canonical.indentedAt level = v.indentedAt level := by
  induction v using value_induction generalizing level with
  | arr items ih =>
    simp only [canonical, indentedAt, canonicalItems_eq_map, indentedItems_eq_map, List.map_map,
      Function.comp_def]
    rw [List.map_congr_left fun v member => ih v member (level + 1)]
  | obj members ih =>
    have inside : (members.map fun m => (m.1, m.2.canonical.indentedAt (level + 1))) =
        members.map fun m => (m.1, m.2.indentedAt (level + 1)) :=
      List.map_congr_left fun m member => by rw [ih m member]
    simp only [canonical, indentedAt, canonicalMembers_eq_map, indentedMembers_eq_map,
      ← sortMembers_map, sortMembers_sortMembers, List.map_map]
    rw [← inside]
    rfl
  | _ => rfl

/-- The text of a value that has one. -/
def layout (v : Json) (indent : Bool) : List Char := if indent then v.indented else v.compact

theorem read?_layout (v : Json) (indent : Bool) : read? (v.layout indent) = some v.canonical := by
  cases indent with
  | false => exact read?_compact v
  | true => exact read?_of_lexes (lexes_indentedAt v 0)

theorem layout_canonical (v : Json) (indent : Bool) :
    v.canonical.layout indent = v.layout indent := by
  cases indent with
  | false => exact compact_canonical v
  | true => exact indentedAt_canonical v 0

theorem layout_eq_iff {v w : Json} (indent : Bool) :
    v.layout indent = w.layout indent ↔ v.canonical = w.canonical := by
  constructor
  · intro same
    apply Option.some.inj
    rw [← read?_layout v indent, ← read?_layout w indent, same]
  · intro same
    rw [← layout_canonical v, ← layout_canonical w, same]

theorem encode_inj {text other : List Char} :
    Utf8.encode text = Utf8.encode other ↔ text = other := by
  refine ⟨fun same => ?_, congrArg _⟩
  rw [← Utf8.decode_encode text, same, Utf8.decode_encode]

/-- Values that have a text are read back from its bytes, in either layout, but for the order of their
members, and two of them have the same bytes exactly if they are alike. The bytes of a compact text
are one line. -/
theorem bytes_reversible_and_canonical {v w : Json} (keyed : v.keyed) (keyed' : w.keyed)
    (accepted : (v.text? false).isSome) (accepted' : (w.text? false).isSome) (indent : Bool) :
    ∃ text other, v.text? indent = some text ∧ w.text? indent = some other ∧
      (∃ back, (Utf8.decode? (Utf8.encode text)).bind read? = some back ∧ back.alike v) ∧
      (Utf8.encode text = Utf8.encode other ↔ v.alike w) ∧
      (indent = false → 10 ∉ Utf8.encode text) := by
  have written {u : Json} (accepted : (u.text? false).isSome) :
      u.text? indent = some (u.layout indent) := by
    have writable : u.writable := by
      by_contra not
      rw [text?, if_neg not] at accepted
      cases accepted
    rw [text?, if_pos writable]
    rfl
  refine ⟨_, _, written accepted, written accepted', ?_, ?_, ?_⟩
  · refine ⟨v.canonical, ?_, canonical_alike keyed⟩
    rw [Utf8.decode?_encode, Option.bind_some, read?_layout]
  · rw [encode_inj, layout_eq_iff, alike_iff keyed keyed']
  · rintro rfl
    exact Utf8.notMem_encode (lineFeed_notMem_compact v)

/-- The same members in two orders, around nested and empty containers, escapes and the least integer. -/
def swapped : Json × Json :=
  (obj [("\"b\n", arr [obj [], str "é\u0001"]), ("a", obj [("y", int (-2 ^ 63)), ("x", null)])],
    obj [("a", obj [("x", null), ("y", int (-2 ^ 63))]), ("\"b\n", arr [obj [], str "é\u0001"])])

theorem swapped_members_same_bytes :
    swapped.1.alike swapped.2 ∧ ∃ text other,
      swapped.1.text? true = some text ∧ swapped.2.text? true = some other ∧
      Utf8.encode text = Utf8.encode other := by
  have alike : swapped.1.alike swapped.2 := by decide +kernel
  obtain ⟨text, other, written, written', -, same, -⟩ :=
    bytes_reversible_and_canonical (v := swapped.1) (w := swapped.2) (by decide +kernel)
      (by decide +kernel) (by decide +kernel) (by decide +kernel) true
  exact ⟨alike, text, other, written, written', same.mpr alike⟩

end VibeLens.Json
