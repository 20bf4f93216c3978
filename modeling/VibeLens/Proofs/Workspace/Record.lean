import VibeLens.Proofs.Datum.Verdict
import VibeLens.Proofs.Json.Alike
import VibeLens.Proofs.Outline.Forest
import VibeLens.Workspace.Index

set_option autoImplicit false

/-!
Records of an index are read back from their lines. The printer sorts the members of every object, and
the reader of records looks fields up by their names, so that the order does not matter to it.
-/

namespace VibeLens

/-! ### What a reader of data is given -/

namespace Json

def reread (v : Json) : Datum := .ofJson v.canonical

theorem ofItems_eq_map (items : List Json) : Datum.ofItems items = items.map Datum.ofJson := by
  induction items with
  | nil => rfl
  | cons v vs ih => rw [Datum.ofItems, ih, List.map_cons]

theorem ofMembers_eq_map (members : List (String × Json)) :
    Datum.ofMembers members = members.map fun m => (m.1, Datum.ofJson m.2) := by
  induction members with
  | nil => rfl
  | cons m ms ih => rw [Datum.ofMembers, ih, List.map_cons]

/-- A way of giving a value to a reader. Members of an object with distinct keys are found by their
keys, in whatever order they come. -/
structure Conveys (convey : Json → Datum) : Prop where
  int : ∀ n, convey (.int n) = .int n
  str : ∀ s, convey (.str s) = .str s
  arr : ∀ items, convey (.arr items) = .list (items.map convey)
  obj : ∀ members : List (String × Json), (members.map Prod.fst).Nodup →
    ∃ found, convey (.obj members) = .table found ∧
      ∀ key, found.lookup key = (members.lookup key).map convey

theorem conveys_ofJson : Conveys Datum.ofJson where
  int _ := by rw [Datum.ofJson]
  str _ := by rw [Datum.ofJson]
  arr items := by rw [Datum.ofJson, ofItems_eq_map]
  obj members _ := by
    refine ⟨_, by rw [Datum.ofJson], fun key => ?_⟩
    rw [ofMembers_eq_map, lookup_map]

theorem conveys_reread : Conveys reread where
  int _ := rfl
  str _ := rfl
  arr items := by
    rw [reread, canonical, Datum.ofJson, ofItems_eq_map, canonicalItems_eq_map, List.map_map]
    rfl
  obj members distinct := by
    refine ⟨_, by rw [reread, canonical, Datum.ofJson], fun key => ?_⟩
    rw [ofMembers_eq_map, canonicalMembers_eq_map, sortMembers_map, lookup_map, lookup_map,
      lookup_sortMembers distinct, Option.map_map]
    rfl

end Json

/-! ### Symbols and records -/

section Conveyed

variable {convey : Json → Datum} (conveys : Json.Conveys convey)

include conveys

theorem Position.ofDatum_convey (p : Position) : ofDatum (convey p.toJson) = .valid p := by
  obtain ⟨found, table, lookup⟩ := conveys.obj
    [("line", .nat p.line), ("column", .nat p.column)]
    (show ["line", "column"].Nodup by decide)
  have whole (n : Nat) : Datum.natural (convey (.nat n)) = .valid n := by
    rw [Json.nat, conveys.int]
    exact Datum.natural_int n
  rw [toJson, table, ofDatum, Datum.record_eq_valid_iff]
  refine ⟨found, rfl, ?_⟩
  simp only [Verdict.app_eq_valid_iff, Datum.required_eq_valid_iff, lookup]
  exact ⟨_, p.column, ⟨_, p.line, rfl, ⟨_, rfl, whole _⟩, rfl⟩, ⟨_, rfl, whole _⟩, rfl⟩

theorem Datum.string_convey (text : String) : Datum.string (convey (.str text)) = .valid text := by
  rw [conveys.str]
  rfl

theorem Kind.ofDatum_convey (kind : Kind) : ofDatum (convey (.str kind.label)) = .valid kind := by
  simp [ofDatum, conveys.str, Datum.literal]

namespace Symbol

omit conveys in
theorem forestToJson_eq_map (forest : List Symbol) : forestToJson forest = forest.map toJson := by
  induction forest with
  | nil => rfl
  | cons s rest ih => rw [forestToJson, ih, List.map_cons]

theorem listOf_convey {forest : List Symbol}
    (read : forest.map (fun s => ofDatum (convey s.toJson)) = forest.map .valid) :
    Datum.listOf ofDatum (convey (.arr (forestToJson forest))) = .valid forest := by
  rw [conveys.arr, Datum.listOf_eq_valid_iff]
  refine ⟨_, rfl, ?_⟩
  rw [forestToJson_eq_map, List.map_map, List.map_map]
  exact read

theorem ofDatum_convey_of_children {s : Symbol}
    (below : s.children.map (fun c => ofDatum (convey c.toJson)) = s.children.map .valid) :
    ofDatum (convey s.toJson) = .valid s := by
  obtain ⟨name, kind, start, stop, children⟩ := s
  obtain ⟨found, table, lookup⟩ := conveys.obj
    [("name", .str name), ("kind", .str kind.label), ("start", start.toJson),
      ("end", stop.toJson), ("children", .arr (forestToJson children))]
    (show ["name", "kind", "start", "end", "children"].Nodup by decide)
  rw [toJson, table, ofDatum_table]
  simp only [Verdict.app_eq_valid_iff, Datum.required_eq_valid_iff, Datum.optional_eq_valid_iff,
    lookup]
  exact ⟨_, children, ⟨_, stop, ⟨_, start, ⟨_, kind, ⟨_, name, rfl,
    ⟨_, rfl, Datum.string_convey conveys name⟩, rfl⟩, ⟨_, rfl, Kind.ofDatum_convey conveys kind⟩, rfl⟩,
    ⟨_, rfl, Position.ofDatum_convey conveys start⟩, rfl⟩,
    ⟨_, rfl, Position.ofDatum_convey conveys stop⟩, rfl⟩,
    .inr ⟨_, rfl, listOf_convey conveys below⟩, rfl⟩

theorem map_ofDatum_convey (forest : List Symbol) :
    forest.map (fun s => ofDatum (convey s.toJson)) = forest.map .valid := by
  induction forest using forest_induction with
  | nil => rfl
  | cons s rest below after =>
    rw [List.map_cons, List.map_cons, ofDatum_convey_of_children conveys below, after]

theorem ofDatum_convey (s : Symbol) : ofDatum (convey s.toJson) = .valid s :=
  ofDatum_convey_of_children conveys (map_ofDatum_convey conveys s.children)

end Symbol

namespace OutlineRecord

theorem ofDatum_convey (r : OutlineRecord) : ofDatum (convey r.toJson) = .valid r := by
  obtain ⟨found, table, lookup⟩ := conveys.obj
    [("path", .str r.path), ("symbols", .arr (Symbol.forestToJson r.symbols))]
    (show ["path", "symbols"].Nodup by decide)
  rw [toJson, table, ofDatum, Datum.record_eq_valid_iff]
  refine ⟨found, rfl, ?_⟩
  simp only [Verdict.app_eq_valid_iff, Datum.required_eq_valid_iff, Datum.optional_eq_valid_iff,
    lookup]
  exact ⟨_, r.symbols, ⟨_, r.path, rfl, ⟨_, rfl, Datum.string_convey conveys r.path⟩, rfl⟩,
    .inr ⟨_, rfl, Symbol.listOf_convey conveys (Symbol.map_ofDatum_convey conveys r.symbols)⟩, rfl⟩

omit conveys in
theorem ofDatum_reread (r : OutlineRecord) : ofDatum r.toJson.reread = .valid r :=
  ofDatum_convey Json.conveys_reread r

end OutlineRecord

end Conveyed

end VibeLens
