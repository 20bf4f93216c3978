import Mathlib.Data.List.Basic
import VibeLens.Workspace.Scan

set_option autoImplicit false

/-!
What the rules of a walk say of one location, without regard to how the walk gets there. A location
is ignored if the ignore file of some directory above it matches it. As long as every ignore file
can be read, the walk decides exactly that, given the rules of all directories above.
-/

namespace VibeLens

/-- A path fits one of the patterns to take, if there are any, and none of those to leave out. -/
def Glob.Selected (includes excludes : List String) (text : String) : Prop :=
  (includes = [] ∨ ∃ pattern ∈ includes, isMatch pattern text = true) ∧
    ∀ pattern ∈ excludes, isMatch pattern text = false

theorem Glob.selects_iff {includes excludes : List String} {text : String} :
    selects includes excludes text = true ↔ Selected includes excludes text := by
  simp [selects, Selected]

def IgnoreFile.Readable (f : IgnoreFile) : Prop :=
  ∀ r ∈ f.rules, (Expression.parse? r.expression).isSome

namespace IgnoreFile

variable {f : IgnoreFile} {rules : List IgnoreRule}

theorem fits_eq_ok {r : IgnoreRule} (readable : (Expression.parse? r.expression).isSome)
    (path : List Char) : ∃ answer, r.fits path = .ok answer := by
  obtain ⟨e, parsed⟩ := Option.isSome_iff_exists.1 readable
  exact ⟨e.foundIn path, by simp [IgnoreRule.fits, parsed]⟩

theorem verdict_eq_ok (answer : IgnoreRule → Bool)
    (readable : ∀ r ∈ rules, (Expression.parse? r.expression).isSome) (path : List Char) :
    ∃ ignored, verdict answer path rules = .ok ignored := by
  induction rules with
  | nil => exact ⟨false, rfl⟩
  | cons r rest ih =>
    obtain ⟨first, decided⟩ := fits_eq_ok (readable r (.head _)) path
    obtain ⟨later, decidedLater⟩ := ih fun other member => readable other (.tail _ member)
    cases first with
    | true => exact ⟨answer r, by simp [verdict, decided, pure, Except.pure]⟩
    | false => exact ⟨later, by simp [verdict, decided, decidedLater]⟩

theorem Readable.ignores (readable : f.Readable) (path : List Char) :
    ∃ answer, f.ignores path = .ok answer := by
  unfold IgnoreFile.ignores
  split
  · exact verdict_eq_ok _ (fun r member => readable r (List.mem_reverse.1 member)) path
  · exact verdict_eq_ok _ readable path

end IgnoreFile

namespace LocalRules

def Ignores (r : LocalRules) (l : Location) : Prop :=
  r.file.ignores (relativeText r.base l).toList = .ok true

instance (r : LocalRules) (l : Location) : Decidable (r.Ignores l) :=
  inferInstanceAs (Decidable (_ = _))

end LocalRules

/-- An answer is the right one, even if it is given before all rules were asked. -/
theorem eq_of_isIgnored {rules : List LocalRules} {l : Location} {answer : Bool}
    (decided : isIgnored l rules = .ok answer) : answer = decide (∃ r ∈ rules, r.Ignores l) := by
  induction rules with
  | nil =>
    cases decided
    rfl
  | cons r rest ih =>
    obtain ⟨first, asked, decided⟩ := bind_eq_ok_iff.1 decided
    cases first with
    | true =>
      cases decided
      have ignores : r.Ignores l := asked
      simp [ignores]
    | false =>
      have not : ¬ r.Ignores l := by simp [LocalRules.Ignores, asked]
      simp [ih decided, not]

theorem isIgnored_of_filter {rules : List LocalRules} {l : Location} {p : LocalRules → Bool}
    (others : ∀ r ∈ rules, p r = false → r.file.Readable)
    (answered : ∃ answer, isIgnored l (rules.filter p) = .ok answer) :
    ∃ answer, isIgnored l rules = .ok answer := by
  induction rules with
  | nil => exact answered
  | cons r rest ih =>
    have later := ih fun other member => others other (.tail _ member)
    cases kept : p r with
    | true =>
      rw [List.filter_cons_of_pos kept] at answered
      obtain ⟨answer, answered⟩ := answered
      obtain ⟨first, asked, answered⟩ := bind_eq_ok_iff.1 answered
      cases first with
      | true => exact ⟨true, by simp [isIgnored, asked, pure, Except.pure]⟩
      | false =>
        obtain ⟨answer, answered⟩ := later ⟨answer, answered⟩
        exact ⟨answer, by simp [isIgnored, asked, answered]⟩
    | false =>
      rw [List.filter_cons_of_neg (by simp [kept])] at answered
      obtain ⟨first, asked⟩ := (others r (.head _) kept).ignores (relativeText r.base l).toList
      obtain ⟨answer, answered⟩ := later answered
      cases first with
      | true => exact ⟨true, by simp [isIgnored, asked, pure, Except.pure]⟩
      | false => exact ⟨answer, by simp [isIgnored, asked, answered]⟩

theorem exists_isIgnored {rules : List LocalRules} (readable : ∀ r ∈ rules, r.file.Readable)
    (l : Location) : ∃ answer, isIgnored l rules = .ok answer := by
  apply isIgnored_of_filter (p := fun _ => false) fun r member _ => readable r member
  rw [List.filter_false]
  exact ⟨false, rfl⟩

namespace Walk

variable {w : Walk} {l base : Location}

/-- The ignore file of a directory, if it has one that is no link. -/
def ignoreFile? (w : Walk) (base : Location) : Option IgnoreFile :=
  match w.get? (base ++ [".gitignore"]) with
  | some (.file content _) => (IgnoreFile.ofBytes content).toOption
  | _ => none

/-- Every ignore file below the root can be read. -/
def Parses (w : Walk) : Prop :=
  ∀ base content executable, w.get? (base ++ [".gitignore"]) = some (.file content executable) →
    ∃ f, IgnoreFile.ofBytes content = .ok f ∧ f.Readable

/-- The ignore file of some directory above matches the location. -/
def Ignored (w : Walk) (l : Location) : Prop :=
  ∃ base f, base <+: l ∧ base ≠ l ∧ w.ignoreFile? base = some f ∧ (LocalRules.mk base f).Ignores l

/-- A directory that the walk goes through, if it gets there. -/
structure Entered (w : Walk) (dir : Location) : Prop where
  isDir : w.get? dir = some .dir
  name : dir.getLast?.getD "" ∉ skippedNames
  notSkipped : w.root ++ dir ∉ w.skip
  notIgnored : ¬ w.Ignored dir

structure Taken (w : Walk) (l : Location) : Prop where
  isFile : ∃ content executable, w.get? l = some (.file content executable)
  suffix : (Path.ofLocation l).suffix = sourceSuffix
  notIgnored : ¬ w.Ignored l

def rulesAt (w : Walk) (base : Location) : List LocalRules :=
  (w.ignoreFile? base).toList.map (LocalRules.mk base)

def rulesAbove (w : Walk) (l : Location) : List LocalRules :=
  (List.range l.length).flatMap fun n => w.rulesAt (l.take n)

theorem rulesAbove_concat (name : String) :
    w.rulesAbove (base ++ [name]) = w.rulesAbove base ++ w.rulesAt base := by
  have outer : ((List.range base.length).flatMap fun n => w.rulesAt ((base ++ [name]).take n)) =
      w.rulesAbove base := by
    apply List.flatMap_congr
    intro n member
    rw [List.take_append_of_le_length (Nat.le_of_lt (List.mem_range.1 member))]
  simpa [rulesAbove, List.range_succ] using outer

theorem mem_rulesAt {r : LocalRules} :
    r ∈ w.rulesAt base ↔ r.base = base ∧ w.ignoreFile? base = some r.file := by
  obtain ⟨owner, file⟩ := r
  simp [rulesAt, eq_comm, and_comm]

theorem mem_rulesAbove {r : LocalRules} :
    r ∈ w.rulesAbove l ↔ r.base <+: l ∧ r.base ≠ l ∧ w.ignoreFile? r.base = some r.file := by
  simp only [rulesAbove, List.mem_flatMap, List.mem_range, mem_rulesAt]
  constructor
  · rintro ⟨n, shorter, owner, found⟩
    refine ⟨owner ▸ List.take_prefix n l, ?_, owner ▸ found⟩
    intro same
    have := congrArg List.length (owner.symm.trans same)
    rw [List.length_take] at this
    omega
  · rintro ⟨isAbove, different, found⟩
    refine ⟨r.base.length, ?_, List.prefix_iff_eq_take.1 isAbove, ?_⟩
    · apply Nat.lt_of_le_of_ne isAbove.length_le
      exact fun same => different (isAbove.eq_of_length same)
    · rwa [← List.prefix_iff_eq_take.1 isAbove]

theorem rulesAt_eq_of_get? {content : Text.Utf8.Bytes} {executable : Bool} {f : IgnoreFile}
    (found : w.get? (base ++ [".gitignore"]) = some (.file content executable))
    (parsed : IgnoreFile.ofBytes content = .ok f) : w.rulesAt base = [⟨base, f⟩] := by
  have file : w.ignoreFile? base = some f := by
    unfold ignoreFile?
    rw [found]
    simp [parsed, Except.toOption]
  rw [rulesAt, file]
  rfl

theorem eq_of_localRules {rules : List LocalRules} (read : w.localRules base = .ok rules) :
    rules = w.rulesAt base := by
  unfold localRules at read
  split at read
  · rename_i content executable found
    obtain ⟨f, parsed, done⟩ := bind_eq_ok_iff.1 read
    cases done
    exact (rulesAt_eq_of_get? found parsed).symm
  · rename_i noFile
    cases read
    have none : w.ignoreFile? base = none := by
      unfold ignoreFile?
      split
      · rename_i content executable found
        exact absurd found (noFile content executable)
      · rfl
    rw [rulesAt, none]
    rfl

theorem exists_localRules (parses : w.Parses) (base : Location) :
    ∃ rules, w.localRules base = .ok rules := by
  unfold localRules
  split
  · rename_i content executable found
    obtain ⟨f, parsed, -⟩ := parses base content executable found
    exact ⟨[⟨base, f⟩], bind_eq_ok_iff.2 ⟨f, parsed, rfl⟩⟩
  · exact ⟨[], rfl⟩

theorem readable_of_mem_rulesAbove (parses : w.Parses) :
    ∀ r ∈ w.rulesAbove l, r.file.Readable := by
  intro r member
  obtain ⟨-, -, found⟩ := mem_rulesAbove.1 member
  unfold ignoreFile? at found
  split at found
  · rename_i content executable there
    obtain ⟨f, parsed, readable⟩ := parses r.base content executable there
    obtain rfl : f = r.file := by simpa [parsed, Except.toOption] using found
    exact readable
  · cases found

theorem exists_mem_rulesAbove_iff : (∃ r ∈ w.rulesAbove l, r.Ignores l) ↔ w.Ignored l := by
  constructor
  · rintro ⟨r, member, ignores⟩
    obtain ⟨isAbove, different, found⟩ := mem_rulesAbove.1 member
    exact ⟨r.base, r.file, isAbove, different, found, ignores⟩
  · rintro ⟨base, f, isAbove, different, found, ignores⟩
    exact ⟨⟨base, f⟩, mem_rulesAbove.2 ⟨isAbove, different, found⟩, ignores⟩

instance (w : Walk) (l : Location) : Decidable (w.Ignored l) :=
  decidable_of_iff _ exists_mem_rulesAbove_iff

instance (w : Walk) (dir : Location) : Decidable (w.Entered dir) :=
  decidable_of_iff (w.get? dir = some .dir ∧ dir.getLast?.getD "" ∉ skippedNames ∧
      w.root ++ dir ∉ w.skip ∧ ¬ w.Ignored dir)
    ⟨fun ⟨isDir, name, notSkipped, notIgnored⟩ => ⟨isDir, name, notSkipped, notIgnored⟩,
      fun entered => ⟨entered.isDir, entered.name, entered.notSkipped, entered.notIgnored⟩⟩

instance (w : Walk) (l : Location) :
    Decidable (∃ content executable, w.get? l = some (.file content executable)) :=
  match w.get? l with
  | some (.file content executable) => .isTrue ⟨content, executable, rfl⟩
  | some .dir => .isFalse nofun
  | some (.link _) => .isFalse nofun
  | none => .isFalse nofun

instance (w : Walk) (l : Location) : Decidable (w.Taken l) :=
  decidable_of_iff ((∃ content executable, w.get? l = some (.file content executable)) ∧
      (Path.ofLocation l).suffix = sourceSuffix ∧ ¬ w.Ignored l)
    ⟨fun ⟨isFile, suffix, notIgnored⟩ => ⟨isFile, suffix, notIgnored⟩,
      fun taken => ⟨taken.isFile, taken.suffix, taken.notIgnored⟩⟩

theorem eq_of_isIgnored_rulesAbove {answer : Bool}
    (decided : isIgnored l (w.rulesAbove l) = .ok answer) : answer = decide (w.Ignored l) := by
  rw [eq_of_isIgnored decided]
  exact decide_eq_decide.2 exists_mem_rulesAbove_iff

theorem eq_of_enters {answer : Bool} (decided : w.enters (w.rulesAbove l) l = .ok answer) :
    answer = decide (w.Entered l) := by
  unfold enters at decided
  split at decided
  · rename_i passes
    simp only [Bool.and_eq_true, decide_eq_true_eq, Bool.not_eq_true', List.contains_eq_mem,
      decide_eq_false_iff_not] at passes
    have exact_iff : w.Entered l ↔ ¬ w.Ignored l :=
      ⟨Entered.notIgnored, fun free => ⟨passes.1.1, passes.1.2, passes.2, free⟩⟩
    obtain ⟨ignored, asked, done⟩ := bind_eq_ok_iff.1 decided
    cases done
    simp [exact_iff, eq_of_isIgnored_rulesAbove asked]
  · rename_i fails
    have not : ¬ w.Entered l := by
      intro entered
      apply fails
      simp [entered.isDir, entered.name, entered.notSkipped]
    cases decided
    simp [not]

theorem eq_of_takes {answer : Bool} (decided : w.takes (w.rulesAbove l) l = .ok answer) :
    answer = decide (w.Taken l) := by
  unfold takes at decided
  split at decided
  · rename_i content executable isFile
    split at decided
    · rename_i suffix
      have exact_iff : w.Taken l ↔ ¬ w.Ignored l :=
        ⟨Taken.notIgnored, fun free => ⟨⟨content, executable, isFile⟩, suffix, free⟩⟩
      obtain ⟨ignored, asked, done⟩ := bind_eq_ok_iff.1 decided
      cases done
      simp [exact_iff, eq_of_isIgnored_rulesAbove asked]
    · rename_i other
      have not : ¬ w.Taken l := fun taken => other taken.suffix
      cases decided
      simp [not]
  · rename_i noFile
    have not : ¬ w.Taken l := by
      intro taken
      obtain ⟨content, executable, isFile⟩ := taken.isFile
      exact noFile content executable isFile
    cases decided
    simp [not]

structure Legible (w : Walk) (base : Location) : Prop where
  rules : ∃ rules, w.localRules base = .ok rules
  enters : ∀ name, ∃ answer,
    w.enters (w.rulesAbove (base ++ [name])) (base ++ [name]) = .ok answer
  takes : ∀ name, ∃ answer, w.takes (w.rulesAbove (base ++ [name])) (base ++ [name]) = .ok answer

theorem exists_enters_iff {active : List LocalRules} :
    (∃ answer, w.enters active l = .ok answer) ↔
      (w.get? l = some .dir → l.getLast?.getD "" ∉ skippedNames → w.root ++ l ∉ w.skip →
        ∃ answer, isIgnored l active = .ok answer) := by
  unfold enters
  split
  · rename_i passes
    simp only [Bool.and_eq_true, decide_eq_true_eq, Bool.not_eq_true', List.contains_eq_mem,
      decide_eq_false_iff_not] at passes
    constructor
    · rintro ⟨answer, decided⟩ - - -
      obtain ⟨ignored, asked, -⟩ := bind_eq_ok_iff.1 decided
      exact ⟨ignored, asked⟩
    · intro answered
      obtain ⟨ignored, asked⟩ := answered passes.1.1 passes.1.2 passes.2
      exact ⟨!ignored, bind_eq_ok_iff.2 ⟨ignored, asked, rfl⟩⟩
  · rename_i fails
    refine iff_of_true ⟨false, rfl⟩ fun isDir name notSkipped => (fails ?_).elim
    simp [isDir, name, notSkipped]

theorem exists_takes_iff {active : List LocalRules} :
    (∃ answer, w.takes active l = .ok answer) ↔
      ((∃ content executable, w.get? l = some (.file content executable)) →
        (Path.ofLocation l).suffix = sourceSuffix → ∃ answer, isIgnored l active = .ok answer) := by
  unfold takes
  split
  · rename_i content executable isFile
    split
    · rename_i suffix
      constructor
      · rintro ⟨answer, decided⟩ - -
        obtain ⟨ignored, asked, -⟩ := bind_eq_ok_iff.1 decided
        exact ⟨ignored, asked⟩
      · intro answered
        obtain ⟨ignored, asked⟩ := answered ⟨content, executable, isFile⟩ suffix
        exact ⟨!ignored, bind_eq_ok_iff.2 ⟨ignored, asked, rfl⟩⟩
    · rename_i other
      exact iff_of_true ⟨false, rfl⟩ fun _ suffix => (other suffix).elim
  · rename_i noFile
    refine iff_of_true ⟨false, rfl⟩ ?_
    rintro ⟨content, executable, isFile⟩
    exact (noFile content executable isFile).elim

theorem Parses.legible (parses : w.Parses) (base : Location) : w.Legible base where
  rules := exists_localRules parses base
  enters _ := exists_enters_iff.2 fun _ _ _ =>
    exists_isIgnored (readable_of_mem_rulesAbove parses) _
  takes _ := exists_takes_iff.2 fun _ _ =>
    exists_isIgnored (readable_of_mem_rulesAbove parses) _

namespace Legible

variable (legible : w.Legible base)

include legible

theorem localRules_eq_ok : w.localRules base = .ok (w.rulesAt base) := by
  obtain ⟨rules, read⟩ := legible.rules
  rw [read, eq_of_localRules read]

theorem enters_eq_ok (name : String) : w.enters (w.rulesAbove (base ++ [name])) (base ++ [name]) =
    .ok (decide (w.Entered (base ++ [name]))) := by
  obtain ⟨answer, decided⟩ := legible.enters name
  rw [decided, eq_of_enters decided]

theorem takes_eq_ok (name : String) : w.takes (w.rulesAbove (base ++ [name])) (base ++ [name]) =
    .ok (decide (w.Taken (base ++ [name]))) := by
  obtain ⟨answer, decided⟩ := legible.takes name
  rw [decided, eq_of_takes decided]

end Legible

end Walk
end VibeLens
