import VibeLens.Proofs.Json.RoundTrip

set_option autoImplicit false

/-!
JSON in one line. The compact text of a value is read back as the indented one is, and it holds no
control character, whatever strings the value has: so it is one line, and a line feed can end it.
-/

namespace VibeLens.Json

theorem compactItems_eq_map (items : List Json) : compactItems items = items.map compact := by
  induction items with
  | nil => rfl
  | cons v vs ih => rw [compactItems, ih, List.map_cons]

theorem compactMembers_eq_map (members : List (String × Json)) :
    compactMembers members = members.map fun m => (m.1, m.2.compact) := by
  induction members with
  | nil => rfl
  | cons m ms ih => rw [compactMembers, ih, List.map_cons]

/-! ### Reading it back -/

theorem lexes_enclosed {texts : List (List Char)} {tss : List (List Token)} {opening closing : Char}
    {first last : Token} (opens : punctuation? opening = some first)
    (closes : punctuation? closing = some last) (items : List.Forall₂ Lexes texts tss) :
    Lexes (opening :: commaSeparated [','] texts ++ [closing])
      (first :: (separated tss ++ [last])) := by
  have ends : Lexes [closing] [last] := .punctuation closes .nil
  have noDigit : Text.isDigit closing = false := by
    by_contra digit
    rw [(startsScalar_of_isDigit (by simpa using digit)).2] at closes
    cases closes
  have inside : Lexes (commaSeparated [','] texts) (separated tss) :=
    lexes_commaSeparated (List.forall_mem_nil _) items
  exact (inside.append ends (noDigitAhead_cons noDigit [])).punctuation opens

theorem lexes_compact (v : Json) : Lexes v.compact v.canonical.tokens := by
  induction v using value_induction with
  | null => exact lexes_null
  | bool b => exact lexes_bool b
  | int n => exact lexes_decimal n
  | str s => exact lexes_quoted s
  | arr items ih =>
    rw [compact, canonical, tokens, compactItems_eq_map, canonicalItems_eq_map,
      itemsTokens_eq_map, List.map_map]
    apply lexes_enclosed rfl rfl
    apply List.forall₂_map_left_iff.mpr
    apply List.forall₂_map_right_iff.mpr
    apply List.forall₂_same.mpr
    exact ih
  | obj members ih =>
    rw [compact, canonical, tokens, compactMembers_eq_map, canonicalMembers_eq_map,
      membersTokens_eq_map, sortMembers_map, sortMembers_map, List.map_map, List.map_map]
    apply lexes_enclosed rfl rfl
    apply List.forall₂_map_left_iff.mpr
    apply List.forall₂_map_right_iff.mpr
    apply List.forall₂_same.mpr
    intro m mem
    have value := ih m (List.mem_mergeSort.mp mem)
    have noGap : ∀ c ∈ ([] : List Char), isGap c := List.forall_mem_nil _
    exact lexes_member noGap m.1 value

theorem read?_compact (v : Json) : read? v.compact = some v.canonical :=
  read?_of_lexes (lexes_compact v)

/-! ### One line -/

/-- The text has no control characters in it. -/
def Uncontrolled (text : List Char) : Prop := ∀ c ∈ text, 0x20 ≤ c.toNat

namespace Uncontrolled

variable {upper lower : List Char}

theorem nil : Uncontrolled [] := fun _ member => nomatch member

theorem cons {c : Char} (first : 0x20 ≤ c.toNat) (rest : Uncontrolled lower) :
    Uncontrolled (c :: lower) := by
  intro d member
  rcases List.mem_cons.mp member with rfl | member
  · exact first
  · exact rest d member

theorem of_all (each : upper.all fun c => 0x20 ≤ c.toNat) : Uncontrolled upper := by
  simpa [Uncontrolled] using each

theorem append (first : Uncontrolled upper) (second : Uncontrolled lower) :
    Uncontrolled (upper ++ lower) := by
  intro c member
  rcases List.mem_append.mp member with member | member
  · exact first c member
  · exact second c member

theorem lineFeed_notMem (h : Uncontrolled upper) : '\n' ∉ upper := fun member =>
  absurd (h '\n' member) (by decide)

theorem commaSeparated {texts : List (List Char)} (items : ∀ text ∈ texts, Uncontrolled text) :
    Uncontrolled (commaSeparated [','] texts) := by
  induction texts with
  | nil => exact nil
  | cons text texts ih =>
    have first := items text List.mem_cons_self
    cases texts with
    | nil => exact first
    | cons next texts =>
      have later := ih fun other member => items other (List.mem_cons_of_mem _ member)
      rw [Json.commaSeparated]
      · exact (first.append (nil.cons (by decide))).append later
      · exact List.cons_ne_nil _ _

end Uncontrolled

theorem uncontrolled_escape (c : Char) : Uncontrolled (escape c) := by
  have digit : ∀ n < 16, 0x20 ≤ (hexDigit n).toNat := by decide
  have two : ∀ {c d : Char}, 0x20 ≤ c.toNat → 0x20 ≤ d.toNat → Uncontrolled [c, d] :=
    fun first second => (Uncontrolled.nil.cons second).cons first
  unfold escape
  split_ifs
  iterate 7 exact two (by decide) (by decide)
  · -- The code of a control character, written in hexadecimal digits.
    have code := two (digit (c.toNat / 16) (by omega)) (digit (c.toNat % 16) (by omega))
    exact (two (by decide) (by decide)).append ((two (by decide) (by decide)).append code)
  · exact Uncontrolled.nil.cons (by omega)

theorem uncontrolled_quoted (s : String) : Uncontrolled (quoted s) := by
  have inside : Uncontrolled (s.toList.flatMap escape) := by
    intro c member
    obtain ⟨d, -, member⟩ := List.mem_flatMap.mp member
    exact uncontrolled_escape d c member
  exact (inside.cons (by decide)).append (Uncontrolled.nil.cons (by decide))

theorem uncontrolled_decimal (n : Int) : Uncontrolled (decimal n) := by
  have digits : ∀ k, Uncontrolled (Nat.toDigits 10 k) := by
    intro k c member
    have digit := Text.isDigit_of_mem_toDigits member
    simp only [Text.isDigit, Bool.and_eq_true, decide_eq_true_eq, Char.le_def] at digit
    exact Nat.le_trans (by decide) (UInt32.le_iff_toNat_le.mp digit.1)
  cases n with
  | ofNat k => exact digits k
  | negSucc k => exact (digits (k + 1)).cons (by decide)

theorem uncontrolled_compact (v : Json) : Uncontrolled v.compact := by
  induction v using value_induction with
  | null => exact .of_all rfl
  | bool b =>
    cases b
    · exact .of_all rfl
    · exact .of_all rfl
  | int n => exact uncontrolled_decimal n
  | str s => exact uncontrolled_quoted s
  | arr items ih =>
    rw [compact, compactItems_eq_map]
    refine ((Uncontrolled.commaSeparated ?_).cons (by decide)).append (.of_all rfl)
    intro text member
    obtain ⟨v, inside, rfl⟩ := List.mem_map.mp member
    exact ih v inside
  | obj members ih =>
    rw [compact, compactMembers_eq_map, sortMembers_map, List.map_map]
    refine ((Uncontrolled.commaSeparated ?_).cons (by decide)).append (.of_all rfl)
    intro text member
    obtain ⟨m, inside, rfl⟩ := List.mem_map.mp member
    exact (uncontrolled_quoted m.1).append ((ih m (List.mem_mergeSort.mp inside)).cons (by decide))

theorem lineFeed_notMem_compact (v : Json) : '\n' ∉ v.compact :=
  (uncontrolled_compact v).lineFeed_notMem

end VibeLens.Json
