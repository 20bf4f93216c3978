import VibeLens.Command.Perform
import VibeLens.Proofs.Json.RoundTrip
import VibeLens.Proofs.Outline.LineGrammar
import VibeLens.Proofs.Outline.Listing
import VibeLens.Proofs.Text.Joining

set_option autoImplicit false

/-!
The outline as text. A line shows the depth of a symbol by its indent, and behind it all that a listing
says of the symbol. Its parts are kept apart by spaces, which names do not contain, and so each line is
read back, and from the lines the forest.
-/

namespace VibeLens

namespace Text

/-- The text has no blank character in it. -/
def Solid (text : List Char) : Prop := ∀ c ∈ text, isBlank c = false

instance (text : List Char) : Decidable (Solid text) :=
  List.decidableBAll (isBlank · = false) text

namespace Solid

variable {text upper lower : List Char}

theorem cons {c : Char} (first : isBlank c = false) (rest : Solid text) : Solid (c :: text) :=
  List.forall_mem_cons.mpr ⟨first, rest⟩

theorem append (h : Solid upper) (h' : Solid lower) : Solid (upper ++ lower) :=
  List.forall_mem_append.mpr ⟨h, h'⟩

theorem notMem {c : Char} (h : Solid text) (blank : isBlank c) : c ∉ text := by
  intro member
  rw [h c member] at blank
  cases blank

theorem unbroken (h : Solid text) : Unbroken text := ⟨h.notMem (by decide), h.notMem (by decide)⟩

end Solid

theorem solid_toDigits (n : Nat) : Solid (Nat.toDigits 10 n) := by
  have digits : ∀ k < 58, 48 ≤ k → inRanges blankRanges k = false := by decide +kernel
  intro c member
  have digit := isDigit_of_mem_toDigits member
  simp only [isDigit, Bool.and_eq_true, decide_eq_true_eq, Char.le_def,
    UInt32.le_iff_toNat_le] at digit
  exact digits c.toNat (Nat.lt_succ_of_le digit.2) digit.1

/-- Lines that are all ended have an empty one behind the last. -/
theorem lines_ended {rows : List (List Char)} (unbroken : ∀ row ∈ rows, Unbroken row) :
    lines (rows.flatMap (· ++ ['\n'])) = rows ++ [[]] := by
  induction rows with
  | nil => rfl
  | cons row rows ih =>
    obtain ⟨first, later⟩ := List.forall_mem_cons.mp unbroken
    have noReturn : row.getLast? ≠ some '\r' := fun last => first.1 (List.mem_of_getLast? last)
    rw [List.flatMap_cons, List.append_assoc, List.singleton_append,
      lines_append_lineFeed noReturn, first.lines_eq, ih later]
    rfl

end Text

namespace Command

open Text VibeLens.Symbol

/-! ### Reading -/

/-- A place counted from one, and what stands behind it. A zero is no place. -/
def place? (text : List Char) : Option (Position × List Char) :=
  match Json.numeral? text with
  | some (line + 1, ':' :: rest) =>
    match Json.numeral? rest with
    | some (column + 1, rest) => some (⟨line, column⟩, rest)
    | _ => none
  | _ => none

/-- Two places in brackets. -/
def span? : List Char → Option (Position × Position)
  | '[' :: text =>
    match place? text with
    | some (start, '-' :: rest) =>
      match place? rest with
      | some (stop, [']']) => some (start, stop)
      | _ => none
    | _ => none
  | _ => none

def listed? (line : List Char) : Option (Nat × Heading) :=
  match (line.dropWhile (· == ' ')).splitOn ' ' with
  | [label, name, span] => do
    let kind ← Kind.ofLabel? (String.ofList label)
    let (start, stop) ← span? span
    return ((line.takeWhile (· == ' ')).length / 2, ⟨String.ofList name, kind, start, stop⟩)
  | _ => none

/-- The forest that an outline shows as text. Every line of the text is ended. -/
def forestListed? (text : List Char) : Option (List Symbol) :=
  ((lines text).dropLast.mapM listed?).map ofListing

/-! ### What a line is made of -/

/-- A place as it is written, counted from one. -/
def placed (p : Position) : List Char := natText (p.line + 1) ++ ':' :: natText (p.column + 1)

def spanned (h : Heading) : List Char :=
  '[' :: (placed h.start ++ '-' :: (placed h.stop ++ [']']))

def rowParts (h : Heading) : List (List Char) := [h.kind.label.toList, h.name.toList, spanned h]

def outlineRow (depth : Nat) (h : Heading) : List Char :=
  List.replicate (2 * depth) ' ' ++ [' '].intercalate (rowParts h)

theorem outlineLine_eq (depth : Nat) (s : Symbol) :
    outlineLine depth s = outlineRow depth s.heading ++ ['\n'] := by
  simp [outlineLine, outlineRow, rowParts, spanned, placed, heading, List.intercalate_cons_cons]

theorem natText_eq (n : Nat) : natText n = Nat.toDigits 10 n := Nat.toList_repr

theorem solid_label (kind : Kind) : Solid kind.label.toList := by
  cases kind <;> decide +kernel

theorem solid_placed (p : Position) : Solid (placed p) := by
  rw [placed, natText_eq, natText_eq]
  exact (solid_toDigits _).append ((solid_toDigits _).cons (by decide))

theorem solid_spanned (h : Heading) : Solid (spanned h) := by
  have last : Solid [']'] := by decide
  have second := ((solid_placed h.stop).append last).cons (c := '-') (by decide)
  exact ((solid_placed h.start).append second).cons (by decide)

variable {h : Heading}

theorem solid_of_mem_rowParts (name : Solid h.name.toList) : ∀ part ∈ rowParts h, Solid part := by
  rw [rowParts, List.forall_mem_cons, List.forall_mem_cons, List.forall_mem_singleton]
  exact ⟨solid_label h.kind, name, solid_spanned h⟩

theorem intercalate_rowParts (h : Heading) : [' '].intercalate (rowParts h) =
    h.kind.label.toList ++ ' ' :: (h.name.toList ++ ' ' :: spanned h) := by
  simp [rowParts, List.intercalate_cons_cons]

theorem unbroken_outlineRow (depth : Nat) (name : Solid h.name.toList) :
    Unbroken (outlineRow depth h) := by
  have indent : Unbroken (List.replicate (2 * depth) ' ') := by
    constructor <;> simp
  have behind := (solid_spanned h).unbroken.cons (c := ' ') (by decide) (by decide)
  have named := (name.unbroken.append behind).cons (c := ' ') (by decide) (by decide)
  rw [outlineRow, intercalate_rowParts]
  exact indent.append ((solid_label h.kind).unbroken.append named)

/-- The indent ends where the kind starts. -/
theorem indent_ends (h : Heading) :
    ∀ c ∈ ([' '].intercalate (rowParts h)).head?, (c == ' ') = false := by
  have nonempty : h.kind.label.toList ≠ [] := by
    cases h.kind <;> decide
  intro c head
  rw [intercalate_rowParts, List.head?_append_of_ne_nil _ nonempty] at head
  have solid := solid_label h.kind c (List.mem_of_head? head)
  apply beq_eq_false_iff_ne.mpr
  rintro rfl
  exact absurd solid (by decide)

/-! ### Each part is read back -/

theorem place?_placed (p : Position) {rest : List Char} (ahead : Json.NoDigitAhead rest) :
    place? (placed p ++ rest) = some (p, rest) := by
  have colon := Json.noDigitAhead_cons (c := ':') (by decide)
    (Nat.toDigits 10 (p.column + 1) ++ rest)
  rw [placed, natText_eq, natText_eq, List.append_assoc, List.cons_append, place?,
    Json.numeral?_toDigits _ colon]
  simp only [Json.numeral?_toDigits _ ahead]

theorem span?_spanned (h : Heading) : span? (spanned h) = some (h.start, h.stop) := by
  have dash := Json.noDigitAhead_cons (c := '-') (by decide) (placed h.stop ++ [']'])
  have bracket := Json.noDigitAhead_cons (c := ']') (by decide) []
  rw [spanned, span?, place?_placed _ dash]
  simp only [place?_placed _ bracket]

theorem listed?_outlineRow (depth : Nat) (name : Solid h.name.toList) :
    listed? (outlineRow depth h) = some (depth, h) := by
  have spaces : ∀ c ∈ List.replicate (2 * depth) ' ', (c == ' ') = true := by
    simp
  have cut : ([' '].intercalate (rowParts h)).splitOn ' ' = rowParts h :=
    List.splitOn_intercalate ' '
      (fun part member => (solid_of_mem_rowParts name part member).notMem (by decide))
      (List.cons_ne_nil _ _)
  rw [listed?, outlineRow, dropWhile_append_eq spaces (indent_ends h),
    takeWhile_append_eq spaces (indent_ends h), cut, rowParts]
  simp [span?_spanned]

theorem mapM_listed? {listing : List (Nat × Heading)}
    (names : ∀ e ∈ listing, Solid e.2.name.toList) :
    (listing.map fun e => outlineRow e.1 e.2).mapM listed? = some listing := by
  induction listing with
  | nil => rfl
  | cons e listing ih =>
    obtain ⟨first, later⟩ := List.forall_mem_cons.mp names
    rw [List.map_cons, List.mapM_cons, listed?_outlineRow e.1 first, ih later]
    rfl

/-! ### The whole text -/

def outlineText (forest : List Symbol) : List Char :=
  (forestListing 0 forest).flatMap fun (depth, s) => outlineLine depth s

theorem outlineText_eq (forest : List Symbol) :
    outlineText forest =
      ((headings 0 forest).map fun e => outlineRow e.1 e.2).flatMap (· ++ ['\n']) := by
  rw [outlineText, headings, List.map_map, List.flatMap_map]
  simp only [outlineLine_eq, Function.comp_apply]

/-- The text of a forest is read back as the forest, if no name has a blank in it. -/
theorem forestListed?_outlineText {forest : List Symbol}
    (names : ∀ s ∈ nodes forest, Solid s.name.toList) :
    forestListed? (outlineText forest) = some forest := by
  have solid : ∀ e ∈ headings 0 forest, Solid e.2.name.toList := by
    intro e member
    obtain ⟨entry, listed, rfl⟩ := List.mem_map.mp member
    exact names entry.2 (List.mem_map_of_mem listed)
  have unbroken : ∀ line ∈ (headings 0 forest).map fun e => outlineRow e.1 e.2, Unbroken line := by
    intro line member
    obtain ⟨e, listed, rfl⟩ := List.mem_map.mp member
    exact unbroken_outlineRow e.1 (solid e listed)
  rw [forestListed?, outlineText_eq, lines_ended unbroken, List.dropLast_concat, mapM_listed? solid,
    Option.map_some, ofListing_headings]

end Command
end VibeLens
