import Mathlib.Data.List.Basic
import VibeLens.Files.Lookup

set_option autoImplicit false

/-!
Paths as text and as lists of names say the same. A location whose names could all stand between two
slashes is read back from its text by the system, name by name.
-/

namespace VibeLens

theorem mem_intercalate_iff {α : Type} {sep c : α} (different : c ≠ sep) (pieces : List (List α)) :
    c ∈ [sep].intercalate pieces ↔ ∃ piece ∈ pieces, c ∈ piece := by
  induction pieces with
  | nil => simp
  | cons first rest ih =>
    cases rest with
    | nil => simp
    | cons second rest =>
      rw [List.intercalate_cons_cons, List.mem_append, List.mem_append, ih, List.exists_mem_cons_iff]
      simp [different]

namespace Path

open VibeLens.FileTree (hasZero isAbsoluteText)

/-- The name of an object, as a directory can hold it. -/
structure IsName (name : String) : Prop where
  nonempty : name ≠ ""
  notHere : name ≠ "."
  notAbove : name ≠ ".."
  noSlash : '/' ∉ name.toList

instance : DecidablePred IsName := fun name =>
  decidable_of_iff (name ≠ "" ∧ name ≠ "." ∧ name ≠ ".." ∧ '/' ∉ name.toList)
    ⟨fun ⟨nonempty, notHere, notAbove, noSlash⟩ => ⟨nonempty, notHere, notAbove, noSlash⟩,
      fun isName => ⟨isName.nonempty, isName.notHere, isName.notAbove, isName.noSlash⟩⟩

theorem notMem_of_mem_splitOn {sep : Char} {text piece : List Char}
    (member : piece ∈ text.splitOn sep) : sep ∉ piece := by
  induction text generalizing piece with
  | nil =>
    simp only [List.splitOn_nil, List.mem_singleton] at member
    simp [member]
  | cons c rest ih =>
    rw [List.splitOn_cons_eq_if_modifyHead] at member
    by_cases separates : c = sep
    · simp only [separates, beq_self_eq_true, ↓reduceIte, List.mem_cons] at member
      rcases member with rfl | member
      · simp
      · exact ih member
    · simp only [beq_iff_eq, separates, ↓reduceIte] at member
      cases later : rest.splitOn sep with
      | nil => exact absurd later (List.splitOn_ne_nil sep rest)
      | cons first others =>
        rw [later] at ih member
        simp only [List.modifyHead_cons, List.mem_cons] at member
        rcases member with rfl | member
        · have clean : sep ∉ first := ih (.head _)
          simp [Ne.symm separates, clean]
        · exact ih (List.mem_cons_of_mem _ member)

theorem noSlash_of_mem_pieces {text name : String} (member : name ∈ pieces text) :
    '/' ∉ name.toList := by
  obtain ⟨piece, inside, rfl⟩ := List.mem_map.1 member
  simpa using notMem_of_mem_splitOn inside

theorem noSlash_of_mem_ofString {text name : String} (member : name ∈ (ofString text).names) :
    '/' ∉ name.toList := noSlash_of_mem_pieces (List.mem_filter.1 member).1

theorem pieces_intercalate {names : List String} (noSlash : ∀ name ∈ names, '/' ∉ name.toList)
    (nonempty : names ≠ []) : pieces ("/".intercalate names) = names := by
  have cut : (['/'].intercalate (names.map String.toList)).splitOn '/' =
      names.map String.toList :=
    List.splitOn_intercalate '/' (by simpa using noSlash) (by simpa using nonempty)
  unfold pieces
  rw [String.toList_intercalate, show "/".toList = ['/'] from rfl, cut, List.map_map]
  simp [Function.comp_def]

theorem pieces_slash_append (text : String) : pieces ("/" ++ text) = "" :: pieces text := by
  simp [pieces, List.splitOn_cons_eq_if_modifyHead]

theorem exists_intercalate_cons (first : String) (rest : List String) :
    ∃ after, ("/".intercalate (first :: rest)).toList = first.toList ++ after := by
  cases rest with
  | nil => exact ⟨[], by simp⟩
  | cons second rest =>
    refine ⟨'/' :: ("/".intercalate (second :: rest)).toList, ?_⟩
    rw [String.intercalate_cons_of_ne_nil (List.cons_ne_nil _ _), String.toList_append,
      String.toList_append]
    simp

theorem exists_intercalate_concat (front : List String) (last : String) :
    ∃ before, ("/".intercalate (front ++ [last])).toList = before ++ last.toList := by
  induction front with
  | nil => exact ⟨[], by simp⟩
  | cons first rest ih =>
    obtain ⟨before, ends⟩ := ih
    refine ⟨first.toList ++ '/' :: before, ?_⟩
    rw [List.cons_append, String.intercalate_cons_of_ne_nil (by simp), String.toList_append,
      String.toList_append, ends]
    simp

/-! ### Zero characters -/

theorem hasZero_iff_pieces {text : String} :
    hasZero text = true ↔ ∃ name ∈ pieces text, hasZero name = true := by
  have different : Char.ofNat 0 ≠ '/' := by decide
  have cut := mem_intercalate_iff different (text.toList.splitOn '/')
  rw [List.intercalate_splitOn] at cut
  simpa [hasZero, pieces] using cut

theorem noZero_of_mem_pieces {text name : String} (noZero : hasZero text = false)
    (member : name ∈ pieces text) : hasZero name = false := by
  by_contra zero
  have found := hasZero_iff_pieces.mpr ⟨name, member, by simpa using zero⟩
  rw [noZero] at found
  cases found

/-! ### Paths that have been read -/

/-- A path as it has been read: its names stood between slashes, and none of them is blank. -/
structure Normal (p : Path) : Prop where
  plain : ∀ name ∈ p.names, isPlain name = true
  noSlash : ∀ name ∈ p.names, '/' ∉ name.toList

theorem normal_ofString (text : String) : (ofString text).Normal where
  plain _ member := (List.mem_filter.mp member).2
  noSlash _ member := noSlash_of_mem_ofString member

theorem normal_ofLocation {l : Location} (proper : ∀ name ∈ l, IsName name) :
    (ofLocation l).Normal where
  plain name member := by simp [isPlain, (proper name member).nonempty, (proper name member).notHere]
  noSlash name member := (proper name member).noSlash

theorem isAbsolute_ofString (text : String) : (ofString text).isAbsolute = isAbsoluteText text := by
  rw [isAbsolute, ofString, anchorOf, isAbsoluteText]
  cases text.toList with
  | nil => rfl
  | cons c rest =>
    by_cases slash : c = '/'
    · subst slash
      simp only [List.takeWhile_cons, beq_self_eq_true, if_true, List.length_cons]
      split <;> simp_all
    · simp [slash]

namespace Normal

variable {p : Path} (normal : p.Normal)

include normal

theorem filter_isPlain : p.names.filter isPlain = p.names := List.filter_eq_self.mpr normal.plain

theorem takeWhile_slash_intercalate :
    ("/".intercalate p.names).toList.takeWhile (· == '/') = [] := by
  cases names : p.names with
  | nil => rfl
  | cons first rest =>
    have member : first ∈ p.names := names ▸ List.mem_cons_self
    have nonempty : first.toList ≠ [] := by
      have plain := normal.plain first member
      rw [isPlain] at plain
      simp_all
    obtain ⟨c, chars, spelled⟩ := List.exists_cons_of_ne_nil nonempty
    have noSlash : c ≠ '/' := by
      rintro rfl
      exact normal.noSlash first member (spelled ▸ List.mem_cons_self)
    obtain ⟨after, starts⟩ := exists_intercalate_cons first rest
    rw [starts, spelled, List.cons_append, List.takeWhile_cons_of_neg (by simpa using noSlash)]

theorem filter_pieces_intercalate :
    (pieces ("/".intercalate p.names)).filter isPlain = p.names := by
  by_cases empty : p.names = []
  · rw [empty]
    decide
  · rw [pieces_intercalate normal.noSlash empty, normal.filter_isPlain]

theorem filter_pieces_toString : (pieces p.toString).filter isPlain = p.names := by
  have names := normal.filter_pieces_intercalate
  unfold toString
  split
  · rename_i here
    rw [here.2]
    decide
  · cases p.anchor with
    | here => simpa [Anchor.text] using names
    | top =>
      rw [Anchor.text, pieces_slash_append, List.filter_cons_of_neg (by decide), names]
    | doubleTop =>
      rw [Anchor.text, show "//" = "/" ++ "/" from rfl, String.append_assoc, pieces_slash_append,
        pieces_slash_append, List.filter_cons_of_neg (by decide), List.filter_cons_of_neg (by decide),
        names]

theorem anchorOf_toString : anchorOf p.toString = p.anchor := by
  have start := normal.takeWhile_slash_intercalate
  unfold toString
  split
  · rename_i here
    rw [here.1]
    decide
  · generalize "/".intercalate p.names = below at start
    cases p.anchor with
    | here => simp [anchorOf, Anchor.text, start]
    | top => simp [anchorOf, Anchor.text, start]
    | doubleTop => simp [anchorOf, Anchor.text, start]

theorem ofString_toString : ofString p.toString = p := by
  rw [ofString, normal.anchorOf_toString, normal.filter_pieces_toString]

theorem noZero_of_mem {name : String} (noZero : hasZero p.toString = false)
    (member : name ∈ p.names) : hasZero name = false := by
  rw [← normal.filter_pieces_toString] at member
  exact noZero_of_mem_pieces noZero (List.mem_of_mem_filter member)

end Normal

end Path

namespace FileTree

open VibeLens.Path (IsName)

variable {l : Location}

theorem text_eq (l : Location) : Location.text l = "/" ++ "/".intercalate l := by
  simp [Location.text, Path.ofLocation, Path.toString, Path.Anchor.text]

@[simp] theorem isAbsoluteText_text (l : Location) : isAbsoluteText (Location.text l) = true := by
  simp [isAbsoluteText, text_eq]

@[simp] theorem text_ne_empty (l : Location) : Location.text l ≠ "" := by
  intro empty
  have absolute := isAbsoluteText_text l
  rw [empty] at absolute
  exact absurd absolute (by decide)

theorem pieces_text (nonempty : l ≠ []) (names : ∀ name ∈ l, IsName name) :
    Path.pieces (Location.text l) = "" :: l := by
  rw [text_eq, Path.pieces_slash_append,
    Path.pieces_intercalate (fun name member => (names name member).noSlash) nonempty]

theorem ofString_text (names : ∀ name ∈ l, IsName name) :
    Path.ofString (Location.text l) = Path.ofLocation l :=
  (Path.normal_ofLocation names).ofString_toString

theorem noZero_text_iff (proper : ∀ name ∈ l, IsName name) :
    hasZero (Location.text l) = false ↔ ∀ name ∈ l, hasZero name = false := by
  by_cases isTop : l = []
  · rw [isTop]
    decide
  · rw [← Bool.not_eq_true, Path.hasZero_iff_pieces, pieces_text isTop proper]
    simp [hasZero]

theorem text_inj {m : Location} (proper : ∀ name ∈ l, IsName name) (properToo : ∀ name ∈ m, IsName name)
    (same : Location.text l = Location.text m) : l = m := by
  have read : Path.ofLocation l = Path.ofLocation m := by
    rw [← ofString_text proper, same, ofString_text properToo]
  exact congrArg Path.names read

theorem getLast?_text (nonempty : l ≠ []) (names : ∀ name ∈ l, IsName name) :
    (Location.text l).toList.getLast? ≠ some '/' := by
  obtain ⟨front, last, rfl⟩ := List.eq_nil_or_concat' l |>.resolve_left nonempty
  have isName : IsName last := names last (by simp)
  have lastNonempty : last.toList ≠ [] := by simpa using isName.nonempty
  obtain ⟨before, ends⟩ := Path.exists_intercalate_concat front last
  rw [text_eq, String.toList_append, ends, ← List.append_assoc,
    List.getLast?_append_of_ne_nil _ lastNonempty]
  intro slash
  exact isName.noSlash (List.mem_of_getLast? slash)

theorem systemNames_text (nonempty : l ≠ []) (names : ∀ name ∈ l, IsName name) :
    systemNames (Location.text l) = l := by
  have notEmpty : ∀ name ∈ l, decide (name ≠ "") = true := by
    intro name member
    simpa using (names name member).nonempty
  unfold systemNames
  rw [pieces_text nonempty names, if_neg (getLast?_text nonempty names)]
  simpa using List.filter_eq_self.2 notEmpty

theorem systemNames_text_top : systemNames (Location.text []) = ["."] := by decide

theorem locate_text (t : FileTree) (cwd : Location) (followLast : Bool) (nonempty : l ≠ [])
    (names : ∀ name ∈ l, IsName name) :
    t.locate cwd followLast (Location.text l) = t.walk followLast linkLimit [] l := by
  simp [locate, systemNames_text nonempty names]

theorem locate_text_top (t : FileTree) (cwd : Location) (followLast : Bool) :
    t.locate cwd followLast (Location.text []) = .ok [] := by
  simp [locate, systemNames_text_top, walk]

end FileTree
end VibeLens
