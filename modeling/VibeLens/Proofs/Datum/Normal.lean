import VibeLens.Datum.Dump
import VibeLens.Proofs.Settings.Reading
import VibeLens.Proofs.Workspace.Record

set_option autoImplicit false

/-!
Reading is lenient, and what it gives is not: a record written out with all its fields is accepted by
the reader it came from and read as itself. Numbers that were written in strings, defaults that stood
in and keys that were passed over leave no trace. The coordinates of what was read are the integers
that stand in the data, none of them negative.
-/

namespace VibeLens

namespace Datum

/-- What was read and is written out with all its fields is accepted again and read the same. -/
def Normalises {α : Type} (read : Datum → Verdict α) (dump : α → Datum) : Prop :=
  ∀ d a, read d = .valid a → read (dump a) = .valid a

section Fields

variable {members : List (String × Datum)} {key : String} {n : Nat} {d : Datum} {text : String}

theorem required_of_lookup {α : Type} {read : Datum → Verdict α} {a : α}
    (found : members.lookup key = some d) (valid : read d = .valid a) :
    required members key read = .valid a := required_eq_valid_iff.mpr ⟨d, found, valid⟩

theorem optional_of_lookup {α : Type} {read : Datum → Verdict α} {default a : α}
    (found : members.lookup key = some d) (valid : read d = .valid a) :
    optional members key default read = .valid a := optional_eq_valid_iff.mpr (.inr ⟨d, found, valid⟩)

theorem natural_eq_valid_iff :
    natural d = .valid n ↔ ∃ i, integer d = .valid i ∧ 0 ≤ i ∧ n = i.toNat := by
  rw [natural, Verdict.andThen_eq_valid_iff]
  refine exists_congr fun i => and_congr_right fun _ => ?_
  split
  · rename_i nonneg
    rw [Verdict.valid.injEq, and_iff_right nonneg, eq_comm]
  · rename_i negative
    exact iff_of_false (Verdict.fault_ne_valid _ _) fun both => negative both.1

theorem positive_int (positive : 0 < n) : Datum.positive (.int n) = .valid n := by
  simp [Datum.positive, integer, Verdict.andThen, positive]

theorem positiveDouble_float {x : Double} (positive : x.isPositive) :
    positiveDouble (.float x) = .valid x := by
  simp [positiveDouble, double, Verdict.andThen, positive]

theorem string?_ofOption (text : Option String) : string? (ofOption text) = .valid text := by
  cases text <;> rfl

theorem listOf_string_map (texts : List String) :
    listOf string (.list (texts.map .str)) = .valid texts := by
  rw [listOf_eq_valid_iff]
  refine ⟨_, rfl, ?_⟩
  rw [List.map_map]
  rfl

/-- A coordinate stands under its key: an integer that is not negative. -/
def Coordinate (members : List (String × Datum)) (key : String) (n : Nat) : Prop :=
  ∃ d i, members.lookup key = some d ∧ integer d = .valid i ∧ 0 ≤ i ∧ n = i.toNat

theorem required_natural_iff :
    required members key natural = .valid n ↔ Coordinate members key n := by
  simp only [required_eq_valid_iff, natural_eq_valid_iff, Coordinate, exists_and_left]

end Fields

end Datum

open Datum

/-! ### Positions and symbols -/

def Position.StandsIn (d : Datum) (p : Position) : Prop :=
  ∃ members, d = .table members ∧ Coordinate members "line" p.line ∧
    Coordinate members "column" p.column

theorem Position.ofDatum_eq_valid_iff {d : Datum} {p : Position} :
    ofDatum d = .valid p ↔ p.StandsIn d := by
  rw [ofDatum, record_eq_valid_iff]
  refine exists_congr fun members => and_congr_right fun _ => ?_
  simp only [Verdict.app_eq_valid_iff, required_natural_iff, Verdict.valid.injEq]
  constructor
  · rintro ⟨_, _, ⟨_, _, rfl, line, rfl⟩, column, rfl⟩
    exact ⟨line, column⟩
  · rintro ⟨line, column⟩
    exact ⟨_, p.column, ⟨_, p.line, rfl, line, rfl⟩, column, rfl⟩

namespace Symbol

inductive StandsIn : Datum → Symbol → Prop where
  | table {members : List (String × Datum)} {start stop : Datum} {below : List Datum} {s : Symbol} :
      members.lookup "start" = some start → s.start.StandsIn start →
      members.lookup "end" = some stop → s.stop.StandsIn stop →
      (members.lookup "children").getD (.list []) = .list below →
      List.Forall₂ StandsIn below s.children → StandsIn (.table members) s

/-- What a symbol was read from: the data of its positions and of its children. -/
theorem parts_of_ofDatum {d : Datum} {s : Symbol} (read : ofDatum d = .valid s) :
    ∃ members start stop below, d = .table members ∧
      members.lookup "start" = some start ∧ Position.ofDatum start = .valid s.start ∧
      members.lookup "end" = some stop ∧ Position.ofDatum stop = .valid s.stop ∧
      (members.lookup "children").getD (.list []) = .list below ∧
      below.map ofDatum = s.children.map .valid := by
  cases d with
  | table members =>
    rw [ofDatum_table] at read
    simp only [Verdict.app_eq_valid_iff, required_eq_valid_iff, Verdict.valid.injEq] at read
    obtain ⟨_, children, ⟨_, _, ⟨_, _, ⟨_, _, ⟨_, _, rfl, -, rfl⟩, -, rfl⟩, ⟨start, atStart, readStart⟩,
      rfl⟩, ⟨stop, atStop, readStop⟩, rfl⟩, readChildren, rfl⟩ := read
    obtain ⟨below, inside, readBelow⟩ : ∃ below,
        (members.lookup "children").getD (.list []) = .list below ∧
          below.map ofDatum = children.map .valid := by
      rcases optional_eq_valid_iff.mp readChildren with ⟨missing, rfl⟩ | ⟨d, found, read⟩
      · exact ⟨[], by rw [missing]; rfl, rfl⟩
      · obtain ⟨items, rfl, readItems⟩ := listOf_eq_valid_iff.mp read
        exact ⟨items, by rw [found]; rfl, readItems⟩
    exact ⟨members, start, stop, below, rfl, atStart, readStart, atStop, readStop, inside, readBelow⟩
  | _ =>
    rw [ofDatum] at read
    · cases read
    · nofun

theorem standsIn_of_map {below : List Datum} {forest : List Symbol}
    (read : below.map ofDatum = forest.map .valid) : List.Forall₂ StandsIn below forest := by
  induction forest using forest_induction generalizing below with
  | nil =>
    rw [List.map_nil, List.map_eq_nil_iff] at read
    rw [read]
    exact .nil
  | cons s rest inside after =>
    obtain ⟨d, others, rfl, readFirst, readRest⟩ := List.map_eq_cons_iff.mp read
    obtain ⟨members, start, stop, children, rfl, atStart, readStart, atStop, readStop, found,
      readChildren⟩ := parts_of_ofDatum readFirst
    refine .cons (.table atStart ?_ atStop ?_ found (inside readChildren)) (after readRest)
    · exact Position.ofDatum_eq_valid_iff.mp readStart
    · exact Position.ofDatum_eq_valid_iff.mp readStop

theorem standsIn_of_ofDatum {d : Datum} {s : Symbol} (read : ofDatum d = .valid s) :
    StandsIn d s := by
  have forest : [d].map ofDatum = [s].map .valid := congrArg (fun v => [v]) read
  exact (List.forall₂_cons.mp (standsIn_of_map forest)).1

end Symbol

/-! ### The other records -/

theorem Diagnostic.ofDatum_toDatum (d : Diagnostic) : ofDatum d.toDatum = .valid d := by
  rw [toDatum, ofDatum, record, required_of_lookup rfl (natural_int d.line),
    required_of_lookup rfl (natural_int d.column)]
  rfl

def Diagnostic.StandsIn (d : Datum) (x : Diagnostic) : Prop :=
  ∃ members, d = .table members ∧ Coordinate members "line" x.line ∧
    Coordinate members "column" x.column

theorem Diagnostic.standsIn_of_ofDatum {d : Datum} {x : Diagnostic} (read : ofDatum d = .valid x) :
    x.StandsIn d := by
  simp only [ofDatum, record_eq_valid_iff, Verdict.app_eq_valid_iff, required_natural_iff,
    Verdict.valid.injEq] at read
  obtain ⟨members, rfl, _, _, ⟨_, _, ⟨_, _, ⟨_, _, rfl, line, rfl⟩, column, rfl⟩, -, rfl⟩, -, rfl⟩ :=
    read
  exact ⟨members, rfl, line, column⟩

namespace Assist

theorem Builtin.ofDatum_toDatum (b : Builtin) : ofDatum b.toDatum = .valid b := by
  rw [toDatum, ofDatum, record, optional_of_lookup rfl (string?_ofOption b.methodStyle)]
  rfl

theorem CompletionKind.ofDatum_label (kind : CompletionKind) :
    ofDatum (.str kind.label) = .valid kind := by
  simp [ofDatum, literal]

theorem Completion.ofDatum_toDatum (c : Completion) : ofDatum c.toDatum = .valid c := by
  rw [toDatum, ofDatum, record, required_of_lookup rfl (CompletionKind.ofDatum_label c.kind),
    optional_of_lookup rfl (string?_ofOption c.documentation)]
  rfl

theorem Hover.ofDatum_toDatum (h : Hover) : ofDatum h.toDatum = .valid h := by
  rw [toDatum, ofDatum, record, required_of_lookup rfl (natural_int h.line),
    required_of_lookup rfl (natural_int h.startColumn),
    required_of_lookup rfl (natural_int h.endColumn)]
  rfl

def Hover.StandsIn (d : Datum) (h : Hover) : Prop :=
  ∃ members, d = .table members ∧ Coordinate members "line" h.line ∧
    Coordinate members "start_column" h.startColumn ∧ Coordinate members "end_column" h.endColumn

theorem Hover.standsIn_of_ofDatum {d : Datum} {h : Hover} (read : ofDatum d = .valid h) :
    h.StandsIn d := by
  simp only [ofDatum, record_eq_valid_iff, Verdict.app_eq_valid_iff, required_natural_iff,
    Verdict.valid.injEq] at read
  obtain ⟨members, rfl, _, _, ⟨_, _, ⟨_, _, ⟨_, _, rfl, -, rfl⟩, line, rfl⟩, start, rfl⟩, stop, rfl⟩ :=
    read
  exact ⟨members, rfl, line, start, stop⟩

end Assist

theorem Checking.ofDatum_toDatum {c : Checking} (usable : c.IsUsable) :
    ofDatum c.toDatum = .valid c := by
  rw [toDatum, ofDatum, record, optional_of_lookup rfl (positiveDouble_float usable.timeout),
    optional_of_lookup rfl (positive_int usable.outputLimit)]
  rfl

theorem Settings.ofDatum_toDatum {s : Settings} (usable : s.checking.IsUsable) :
    ofDatum s.toDatum = .valid s := by
  rw [toDatum, ofDatum, record, optional_of_lookup rfl (listOf_string_map s.includes),
    optional_of_lookup rfl (listOf_string_map s.excludes),
    optional_of_lookup rfl (Checking.ofDatum_toDatum usable)]
  rfl

namespace lenient

def inner : Datum :=
  .table [("kind", .str "constant"), ("name", .str "limit"),
    ("start", .table [("line", .str " +1_0.00 "), ("column", .bool true), ("offset", .null)]),
    ("end", .table [("column", .int 12), ("line", .float (Double.ofNat 10))])]

def outer : Datum :=
  .table [("name", .str "run"), ("kind", .str "function"), ("children", .list [inner]),
    ("start", .table [("line", .int 9), ("column", .int 0)]),
    ("end", .table [("line", .str "11"), ("column", .bool false)])]

def limit : Symbol := ⟨"limit", .constant, ⟨10, 1⟩, ⟨10, 12⟩, []⟩

def run : Symbol := ⟨"run", .function, ⟨9, 0⟩, ⟨11, 0⟩, [limit]⟩

theorem ofDatum_inner : Symbol.ofDatum inner = .valid limit := by
  rw [inner, Symbol.ofDatum_table]
  rfl

theorem ofDatum_outer : Symbol.ofDatum outer = .valid run := by
  have children : listOf Symbol.ofDatum (.list [inner]) = .valid [limit] :=
    listOf_eq_valid_iff.mpr ⟨_, rfl, by rw [List.map_singleton, ofDatum_inner]; rfl⟩
  rw [outer, Symbol.ofDatum_table, optional_of_lookup rfl children]
  rfl

end lenient
end VibeLens
