import VibeLens.Proofs.Assist.Hover
import VibeLens.Proofs.Outline.BlockMatching
import VibeLens.Proofs.Outline.LineGrammar

set_option autoImplicit false

/-!
The name of a symbol is a word of its line. A name has an alphabet of its own for each kind, the one of
constants much narrower than that of words, and still no name is a part of a longer word: a blank
stands before it, and what may stand behind it is no word character. So a cursor anywhere on the name,
or right behind it, finds the name and nothing else.
-/

namespace VibeLens

open Text
open Assist (IsWordOf WordAt wordAt? wordAt?_eq_some_iff isWordOf_append)

section Characters

variable {kind : Kind} {c : Char}

theorem Text.isWord_of_isDigit (digit : isDigit c) : isWord c := by
  have digits : ∀ n < 58, 48 ≤ n → inRanges wordRanges n := by decide +kernel
  simp only [isDigit, Bool.and_eq_true, decide_eq_true_eq, Char.le_def,
    UInt32.le_iff_toNat_le] at digit
  exact digits c.toNat (Nat.lt_succ_of_le digit.2) digit.1

theorem Kind.IsInitial.isWord (initial : kind.IsInitial c) : isWord c := by
  apply Outline.isWord_of_ascii
  cases kind <;> simp [IsInitial, Outline.isLower, Outline.isUpper] at initial ⊢ <;> tauto

theorem Kind.IsInner.isWord (inner : kind.IsInner c) : Text.isWord c := by
  cases kind with
  | constant =>
    rcases inner with upper | digit | underscore
    · exact Outline.isWord_of_ascii (.inr (.inl (by simpa [Outline.isUpper] using upper)))
    · exact isWord_of_isDigit (by simpa [isDigit] using digit)
    · exact Outline.isWord_of_ascii (.inr (.inr underscore))
  | _ => exact inner

end Characters

namespace Outline

variable {kind : Kind} {line name rest : List Char} {column : Nat} {d : Definition}

theorem IsName.isWord (isName : IsName kind name) : ∀ c ∈ name, isWord c := by
  obtain ⟨initial, inner⟩ := isName
  exact List.forall_mem_cons.mpr ⟨initial.isWord, fun c member => (inner c member).isWord⟩

theorem IsName.ne_nil (isName : IsName kind name) : name ≠ [] := by
  obtain ⟨-, -⟩ := isName
  exact List.cons_ne_nil _ _

/-- An equality sign and a blank both end a word. -/
theorem SignFirst.endsWord (sign : SignFirst rest) : EndsWord rest := by
  obtain @⟨gap, behind, blank⟩ := sign
  cases gap with
  | nil =>
    rintro c ⟨⟩
    decide +kernel
  | cons first gap =>
    rintro c ⟨⟩
    exact isWord_eq_false_of_isBlank (blank _ List.mem_cons_self)

/-- Where a name ends, a word ends. The alphabet of constants says so only because an equality sign has
to follow; the one of all other names is that of words. -/
theorem endsWord_of_endsName (ends : EndsName kind rest)
    (sign : kind = .constant → SignFirst rest) : EndsWord rest := by
  by_cases constant : kind = .constant
  · exact (sign constant).endsWord
  · intro c head
    have notInner := ends c head
    cases kind with
    | constant => exact absurd rfl constant
    | _ => simpa [Kind.IsInner] using notInner

/-- The blank before a name keeps it apart from its keyword. -/
theorem Header.isWordOf (header : Header kind name rest column line) (ends : EndsWord rest) :
    IsWordOf line ⟨name, column⟩ := by
  obtain @⟨indent, gap, -, nonempty, blank, isName⟩ := header
  have split : indent ++ (kind.keyword ++ (gap ++ (name ++ rest))) =
      (indent ++ (kind.keyword ++ gap)) ++ (name ++ rest) := by
    simp only [List.append_assoc]
  have before : ∀ c ∈ (indent ++ (kind.keyword ++ gap)).getLast?, isWord c = false := by
    intro c last
    rw [← List.append_assoc, List.getLast?_append_of_ne_nil _ nonempty] at last
    exact isWord_eq_false_of_isBlank (blank c (List.mem_of_getLast? last))
  rw [split]
  exact isWordOf_append isName.ne_nil isName.isWord before ends

theorem isWordOf_of_definition? (defined : definition? line = some d) :
    IsWordOf line ⟨d.name, d.column⟩ := by
  obtain ⟨rest, header, ends, sign⟩ := definition?_eq_some_iff.mp defined
  exact header.isWordOf (endsWord_of_endsName ends sign)

/-- The name of a symbol is a word of its line, and this is the word at a column exactly if the column
lies on the name or right behind it. -/
theorem outline_names_are_words (content : Content) :
    ∀ s ∈ Symbol.nodes (ofContent content), ∃ row w, content.lines[s.start.line]? = some row ∧
      w.text = s.name.toList ∧ w.start = s.start.column ∧
      w.stop = s.start.column + s.name.length ∧
      ∀ column : Int, wordAt? row column = some w ↔
        s.start.column ≤ column ∧ column ≤ s.start.column + s.name.length := by
  intro s hs
  obtain ⟨d, defined, name, -, place⟩ := recorded_of_mem_nodes hs
  obtain ⟨row, here, found⟩ := Option.bind_eq_some_iff.mp defined
  have isWord : IsWordOf row ⟨s.name.toList, s.start.column⟩ := by
    rw [name, String.toList_ofList, place]
    exact isWordOf_of_definition? found
  have stop : (⟨s.name.toList, s.start.column⟩ : Assist.Word).stop =
      s.start.column + s.name.length := by
    rw [Assist.Word.stop, String.length_toList]
  refine ⟨row, _, here, rfl, rfl, stop, fun column => ?_⟩
  rw [wordAt?_eq_some_iff, WordAt, stop, Nat.cast_add]
  exact and_iff_right isWord

def constantInFunction : Content := .text "def größe\n const A_1= 2".toList

theorem ofContent_constantInFunction : ofContent constantInFunction =
    [⟨"größe", .function, ⟨0, 4⟩, ⟨0, 9⟩, []⟩, ⟨"A_1", .constant, ⟨1, 7⟩, ⟨1, 13⟩, []⟩] := by
  have entries : (Scan.run constantInFunction.lines).entries =
      [⟨"A_1", .constant, ⟨1, 7⟩, ⟨1, 13⟩, none⟩,
       ⟨"größe", .function, ⟨0, 4⟩, ⟨0, 9⟩, none⟩] := by
    decide +kernel
  rw [ofContent, ofLines, entries]
  rfl

theorem constant_name_is_word :
    ⟨"A_1", .constant, ⟨1, 7⟩, ⟨1, 13⟩, []⟩ ∈ Symbol.nodes (ofContent constantInFunction) ∧
      wordAt? " const A_1= 2".toList 10 = some ⟨"A_1".toList, 7⟩ := by
  have mem : ⟨"A_1", .constant, ⟨1, 7⟩, ⟨1, 13⟩, []⟩ ∈
      Symbol.nodes (ofContent constantInFunction) := by
    rw [ofContent_constantInFunction]
    exact .tail _ (.head _)
  obtain ⟨row, w, here, text, start, -, exactly⟩ := outline_names_are_words constantInFunction _ mem
  have second : constantInFunction.lines[1]? = some " const A_1= 2".toList := by decide +kernel
  obtain rfl : row = " const A_1= 2".toList := Option.some.inj (here.symm.trans second)
  obtain rfl : w = ⟨"A_1".toList, 7⟩ := Assist.Word.mk.injEq .. ▸ ⟨text, start⟩
  exact ⟨mem, (exactly 10).mpr (by decide)⟩

end Outline
end VibeLens
