import Mathlib.Tactic.MkIffOfInductiveProp
import VibeLens.Proofs.Outline.DocumentSymbol
import VibeLens.Proofs.Outline.Relocation
import VibeLens.Proofs.Text.Runs

set_option autoImplicit false

/-!
What string literals hold and what comments say has no part in the outline. A line is taken apart
into segments of code with literals between them and perhaps a comment at the end. Its code portion
is made of the segments alone, and its definition is read off the first of them, so documents whose
lines have the same segments have the same outline up to the columns in which lines end.
-/

namespace VibeLens

namespace Symbol

/-- Two symbols that differ, at every depth, in nothing but the columns of their ends. -/
inductive Alike : Symbol → Symbol → Prop
  | mk {name : String} {kind : Kind} {start : Position} {line column column' : Nat}
      {children children' : List Symbol} : List.Forall₂ Alike children children' →
      Alike ⟨name, kind, start, ⟨line, column⟩, children⟩
        ⟨name, kind, start, ⟨line, column'⟩, children'⟩

end Symbol

namespace Outline

open Text

/-! ### Lines taken apart -/

/-- What stands between the quotes of a literal. A backslash takes the next character with it, which on
a line is never a line feed. -/
inductive LiteralBody (quote : Char) : List Char → Prop
  | nil : LiteralBody quote []
  | escaped {c : Char} {rest : List Char} : c ≠ '\n' → LiteralBody quote rest →
      LiteralBody quote ('\\' :: c :: rest)
  | plain {c : Char} {rest : List Char} : c ≠ quote → c ≠ '\\' → LiteralBody quote rest →
      LiteralBody quote (c :: rest)

/-- A complete literal, in double or in single quotes. -/
inductive Literal : List Char → Prop
  | mk {quote : Char} {body : List Char} : quote = '"' ∨ quote = '\'' → LiteralBody quote body →
      Literal (quote :: (body ++ [quote]))

/-- A line made of the given segments of code, with a literal between each two of them and perhaps a
comment at the end. -/
inductive WellQuoted : List (List Char) → List Char → Prop
  | bare {u : List Char} : (∀ c ∈ u, isPlain c) → WellQuoted [u] u
  | commented {u comment : List Char} : (∀ c ∈ u, isPlain c) → WellQuoted [u] (u ++ '#' :: comment)
  | literal {u literal v rest : List Char} {us : List (List Char)} : (∀ c ∈ u, isPlain c) →
      Literal literal → WellQuoted (v :: us) rest →
      WellQuoted (u :: v :: us) (u ++ (literal ++ rest))

section CodePortion

variable {quote : Char} {body literal line : List Char} {segments : List (List Char)}

theorem literalRest?_cons {c : Char} (h : c ≠ '\\') (rest : List Char) :
    literalRest? quote (c :: rest) =
      if c = quote then some rest else literalRest? quote rest := by
  rw [literalRest?]
  · simp [h]
  · rintro d more rfl
    exact absurd rfl h

/-- A literal ends at its closing quote, whatever its body is. -/
theorem LiteralBody.literalRest?_append (h : LiteralBody quote body) (escapes : quote ≠ '\\')
    (rest : List Char) : literalRest? quote (body ++ quote :: rest) = some rest := by
  induction h with
  | nil => rw [List.nil_append, literalRest?_cons escapes, if_pos rfl]
  | escaped notFeed _ ih =>
    rw [List.cons_append, List.cons_append, literalRest?, if_neg notFeed, ih]
  | plain notQuote notEscape _ ih =>
    rw [List.cons_append, literalRest?_cons notEscape, if_neg notQuote, ih]

theorem Literal.emptyLiterals_append (h : Literal literal) (rest : List Char) :
    emptyLiterals (literal ++ rest) = '"' :: '"' :: emptyLiterals rest := by
  obtain ⟨quotes, body⟩ := h
  rename_i quote content
  have escapes : quote ≠ '\\' := by
    rcases quotes with rfl | rfl <;> decide
  have ends := body.literalRest?_append escapes rest
  rw [List.cons_append, List.append_assoc, List.singleton_append, emptyLiterals, if_pos quotes]
  split
  · rename_i after found
    rw [ends] at found
    rw [Option.some.inj found]
  · rename_i missed
    rw [ends] at missed
    cases missed

theorem Literal.codePortion_append (h : Literal literal) (rest : List Char) :
    codePortion (literal ++ rest) = '"' :: '"' :: codePortion rest := by
  rw [codePortion, h.emptyLiterals_append, codePortion]
  rfl

theorem codePortion_comment (comment : List Char) : codePortion ('#' :: comment) = [] := by
  rw [codePortion, emptyLiterals, if_neg (by decide)]
  rfl

theorem codePortion_nil : codePortion [] = [] := by
  rw [codePortion, emptyLiterals]
  rfl

/-- The code portion of a line is its segments with empty literals between them. -/
theorem WellQuoted.codePortion_eq (h : WellQuoted segments line) :
    codePortion line = ['"', '"'].intercalate segments := by
  induction h with
  | @bare u plain =>
    have whole := codePortion_append plain []
    rw [codePortion_nil, List.append_nil] at whole
    rw [whole, List.intercalate_singleton]
  | commented plain =>
    rw [Outline.codePortion_append plain, codePortion_comment, List.append_nil,
      List.intercalate_singleton]
  | literal plain isLiteral _ ih =>
    rw [Outline.codePortion_append plain, isLiteral.codePortion_append, ih,
      List.intercalate_cons_cons, List.append_assoc]
    rfl

end CodePortion

/-! ### Definitions stand in the first segment -/

section Definition

variable {form : Form} {word front rest : List Char}

theorem word?_cons_nil (c : Char) (word : List Char) : word? (c :: word) [] = none := rfl

theorem word?_cons_cons (c d : Char) (word line : List Char) :
    word? (c :: word) (d :: line) = if c = d then word? word line else none := by
  by_cases same : c = d <;> simp [word?, same]

/-- A word is not found across a character that it does not contain. -/
theorem word?_append_of_stop (stop : ∀ c ∈ rest.head?, c ∉ word) (front : List Char) :
    word? word (front ++ rest) = (word? word front).map (· ++ rest) := by
  induction word generalizing front with
  | nil => rfl
  | cons c word ih =>
    cases front with
    | nil =>
      cases rest with
      | nil => rfl
      | cons d rest =>
        have differ : c ≠ d := fun same => stop d rfl (same ▸ List.mem_cons_self)
        rw [List.nil_append, word?_cons_cons, if_neg differ, word?_cons_nil, Option.map_none]
    | cons d front =>
      rw [List.cons_append, word?_cons_cons, word?_cons_cons]
      split
      · exact ih (fun e he mem => stop e he (List.mem_cons_of_mem c mem)) front
      · rfl

theorem skipBlanks_append_of_stop (stop : ∀ c ∈ rest.head?, isBlank c = false)
    (front : List Char) : skipBlanks (front ++ rest) = skipBlanks front ++ rest :=
  dropWhile_append_of_stop front stop

theorem blanks?_append_of_stop (stop : ∀ c ∈ rest.head?, isBlank c = false)
    (front : List Char) : blanks? (front ++ rest) = (blanks? front).map (· ++ rest) := by
  cases front with
  | nil =>
    cases rest with
    | nil => rfl
    | cons c rest => simp [blanks?, stop c rfl]
  | cons c front =>
    rw [List.cons_append, blanks?, blanks?, skipBlanks_append_of_stop stop]
    split <;> rfl

@[mk_iff]
structure Form.StopsAt (form : Form) (c : Char) : Prop where
  blank : isBlank c = false
  keyword : c ∉ form.keyword
  initial : form.initial c = false
  inner : form.inner c = false
  equals : c ≠ '='

instance (form : Form) (c : Char) : Decidable (form.StopsAt c) :=
  decidable_of_iff' _ (Form.stopsAt_iff form c)

theorem stopsAt_of_mem_forms {c : Char} (known : form ∈ forms) (h : isPlain c = false) :
    form.StopsAt c := by
  have stops : ∀ form ∈ forms, form.StopsAt '"' ∧ form.StopsAt '\'' ∧ form.StopsAt '#' := by
    decide +kernel
  obtain ⟨double, single, comment⟩ := stops form known
  rcases isPlain_eq_false_iff.mp h with (rfl | rfl) | rfl
  · exact double
  · exact single
  · exact comment

theorem equalsAhead_append_of_stop
    (stop : ∀ c ∈ rest.head?, isBlank c = false ∧ c ≠ '=') (front : List Char) :
    equalsAhead (front ++ rest) = equalsAhead front := by
  rw [equalsAhead, skipBlanks_append_of_stop fun c hc => (stop c hc).1, equalsAhead]
  cases skipBlanks front with
  | nil =>
    cases rest with
    | nil => rfl
    | cons c rest => simp [(stop c rfl).2]
  | cons c front => rfl

theorem Form.match?_append_of_stop (stop : ∀ c ∈ rest.head?, form.StopsAt c)
    (front : List Char) : form.match? (front ++ rest) = form.match? front := by
  rw [Form.match?, skipBlanks_append_of_stop fun c hc => (stop c hc).blank,
    word?_append_of_stop fun c hc => (stop c hc).keyword, Form.match?]
  cases word? form.keyword (skipBlanks front) with
  | none => rfl
  | some behind =>
    simp only [Option.map_some, bind, Option.bind_some]
    rw [blanks?_append_of_stop fun c hc => (stop c hc).blank]
    cases blanks? behind with
    | none => rfl
    | some name =>
      simp only [Option.map_some, Option.bind_some]
      cases name with
      | nil =>
        cases rest with
        | nil => rfl
        | cons c rest => simp [(stop c rfl).initial, guard]
      | cons c name =>
        have run : (c :: name ++ rest).tail.takeWhile form.inner = name.takeWhile form.inner :=
          takeWhile_append_of_stop name fun c hc => (stop c hc).inner
        have assigned : equalsAhead ((c :: name ++ rest).tail.dropWhile form.inner) =
            equalsAhead (name.dropWhile form.inner) := by
          rw [List.cons_append, List.tail_cons,
            dropWhile_append_of_stop name fun c hc => (stop c hc).inner,
            equalsAhead_append_of_stop fun c hc => ⟨(stop c hc).blank, (stop c hc).equals⟩]
        have column : (front ++ rest).length - (c :: name ++ rest).length =
            front.length - (c :: name).length := by
          rw [List.length_append, List.length_append, Nat.add_sub_add_right]
        rw [run, assigned, column]
        rfl

/-- A definition is read off what stands before the first quote or comment sign. -/
theorem definition?_append_of_stop (stop : ∀ c ∈ rest.head?, isPlain c = false)
    (front : List Char) : definition? (front ++ rest) = definition? front := by
  rw [definition?, ← List.head?_filterMap, definition?, ← List.head?_filterMap]
  congr 1
  apply List.filterMap_congr
  intro form known
  exact Form.match?_append_of_stop (fun c hc => stopsAt_of_mem_forms known (stop c hc)) front

end Definition

theorem Literal.isPlain_of_mem_head? {literal rest : List Char} (h : Literal literal) :
    ∀ c ∈ (literal ++ rest).head?, isPlain c = false := by
  obtain ⟨quotes, -⟩ := h
  rintro c ⟨⟩
  rcases quotes with rfl | rfl <;> decide

theorem WellQuoted.definition?_eq {u line : List Char} {us : List (List Char)}
    (h : WellQuoted (u :: us) line) : definition? line = definition? u := by
  cases h with
  | bare => rfl
  | commented => exact definition?_append_of_stop (by rintro c ⟨⟩; decide) u
  | literal _ isLiteral => exact definition?_append_of_stop isLiteral.isPlain_of_mem_head? u

/-! ### Documents made of the same segments -/

/-- The lines differ in what their literals hold and in their comments only. -/
def SameCode (line other : List Char) : Prop :=
  ∃ segments, WellQuoted segments line ∧ WellQuoted segments other

namespace SameCode

variable {line other : List Char}

theorem codePortion_eq (h : SameCode line other) : codePortion other = codePortion line := by
  obtain ⟨segments, quoted, otherQuoted⟩ := h
  rw [otherQuoted.codePortion_eq, quoted.codePortion_eq]

theorem definition?_eq (h : SameCode line other) : definition? other = definition? line := by
  obtain ⟨segments, quoted, otherQuoted⟩ := h
  cases segments with
  | nil => cases quoted
  | cons u us => rw [otherQuoted.definition?_eq, quoted.definition?_eq]

end SameCode

end Outline

def Relocation.toLineEnds (lines : List (List Char)) : Relocation where
  line := id
  injective := Function.injective_id
  startColumn _ column := column
  stopColumn i _ := (Outline.lineEnd lines i).column

theorem Symbol.forall₂_alike_toLineEnds (lines : List (List Char)) (forest : List Symbol) :
    List.Forall₂ Alike forest (forestRelocate (.toLineEnds lines) forest) := by
  induction forest using forest_induction with
  | nil => exact .nil
  | cons s rest below after =>
    obtain ⟨name, kind, start, stop, children⟩ := s
    exact .cons (.mk below) after

namespace Outline

open Text

variable {lines others : List (List Char)}

theorem SameCode.reads {line other : List Char} {i : Nat} (h : SameCode line other)
    (here : others[i]? = some other) : Reads (.toLineEnds others) i line other where
  definition := by
    rw [h.definition?_eq]
    cases definition? line <;> rfl
  opens := by rw [h.codePortion_eq]
  closes := by rw [h.codePortion_eq]
  length := by simp [Relocation.toLineEnds, lineEnd, here]
  next := rfl

theorem forall₂_reads (h : List.Forall₂ SameCode lines others) :
    List.Forall₂ (fun line other => Reads (.toLineEnds others) line.2 line.1 other) lines.zipIdx
      others := by
  obtain ⟨length, same⟩ := List.forall₂_iff_get.mp h
  refine List.forall₂_iff_get.mpr ⟨by rw [List.length_zipIdx, length], ?_⟩
  intro i inside otherInside
  rw [List.length_zipIdx] at inside
  simp only [List.get_eq_getElem, List.getElem_zipIdx, Nat.zero_add]
  exact (same i inside otherInside).reads (List.getElem?_eq_getElem otherInside)

theorem forall₂_alike_ofLines (h : List.Forall₂ SameCode lines others) :
    List.Forall₂ Symbol.Alike (ofLines lines) (ofLines others) := by
  rw [ofLines_relocate rfl (forall₂_reads h)]
  exact Symbol.forall₂_alike_toLineEnds others (ofLines lines)

/-- The column in which a symbol ends is the length of the line on which it ends. -/
theorem stop_column_of_mem_nodes {s : Symbol} (h : s ∈ Symbol.nodes (ofLines lines)) :
    lines[s.stop.line]?.map List.length = some s.stop.column := by
  obtain ⟨j, -, inside, stop⟩ := exists_stop_eq_lineEnd h
  rw [stop, lineEnd, List.getElem?_eq_getElem inside]
  rfl

/-- Literals and comments do not show in the outline. -/
theorem literals_and_comments_do_not_show :
    (∀ segments line, WellQuoted segments line →
      codePortion line = ['"', '"'].intercalate segments) ∧
    ∀ document other : Content, List.Forall₂ SameCode document.lines other.lines →
      List.Forall₂ Symbol.Alike (ofContent document) (ofContent other) ∧
      (∀ s ∈ Symbol.nodes (ofContent document),
        document.lines[s.stop.line]?.map List.length = some s.stop.column) ∧
      ∀ s ∈ Symbol.nodes (ofContent other),
        other.lines[s.stop.line]?.map List.length = some s.stop.column := by
  refine ⟨fun _ _ quoted => quoted.codePortion_eq, fun document other same => ?_⟩
  exact ⟨forall₂_alike_ofLines same, fun _ => stop_column_of_mem_nodes,
    fun _ => stop_column_of_mem_nodes⟩

def labelledBox : Content := .text "class Box # \"end\n  tag = 'it\\'s # end'\nend".toList

def blankBox : Content := .text "class Box \n  tag = \"\"\nend".toList

theorem isPlain_boxSegments :
    ∀ u ∈ ["class Box ", "  tag = ", "", "end"], ∀ c ∈ u.toList, isPlain c := by
  simp only [← List.all_eq_true]
  decide

theorem wellQuoted_tagLine {literal : List Char} (h : Literal literal) :
    WellQuoted ["  tag = ".toList, []] ("  tag = ".toList ++ (literal ++ [])) :=
  .literal (isPlain_boxSegments "  tag = " (by decide)) h
    (.bare (isPlain_boxSegments "" (by decide)))

theorem literal_tag : Literal "'it\\'s # end'".toList := by
  have body : LiteralBody '\'' "it\\'s # end".toList := by
    repeat' constructor
    all_goals decide
  exact .mk (.inr rfl) body

theorem sameCode_labelledBox : List.Forall₂ SameCode labelledBox.lines blankBox.lines := by
  have lines : labelledBox.lines =
      ["class Box # \"end".toList, "  tag = 'it\\'s # end'".toList, "end".toList] := by
    decide +kernel
  have otherLines : blankBox.lines =
      ["class Box ".toList, "  tag = \"\"".toList, "end".toList] := by
    decide +kernel
  have box := isPlain_boxSegments "class Box " (by decide)
  have close := isPlain_boxSegments "end" (by decide)
  rw [lines, otherLines]
  refine .cons ⟨_, .commented box, .bare box⟩ (.cons ?_ (.cons ⟨_, .bare close, .bare close⟩ .nil))
  exact ⟨_, wellQuoted_tagLine literal_tag, wellQuoted_tagLine (.mk (.inl rfl) .nil)⟩

/-- The literal does not show in the code, and both boxes end with the line that closes them. -/
theorem labelled_box_shows_as_blank_box :
    codePortion "  tag = 'it\\'s # end'".toList = "  tag = \"\"".toList ∧
      List.Forall₂ SameCode labelledBox.lines blankBox.lines ∧
      List.Forall₂ Symbol.Alike (ofContent labelledBox) (ofContent blankBox) ∧
      ofContent labelledBox = [⟨"Box", .classType, ⟨0, 6⟩, ⟨2, 3⟩, []⟩] := by
  have entries : (Scan.run labelledBox.lines).entries =
      [⟨"Box", .classType, ⟨0, 6⟩, ⟨2, 3⟩, none⟩] := by
    decide +kernel
  have code := literals_and_comments_do_not_show.1 _ _ (wellQuoted_tagLine literal_tag)
  have alike := literals_and_comments_do_not_show.2 labelledBox blankBox sameCode_labelledBox
  refine ⟨code, sameCode_labelledBox, alike.1, ?_⟩
  rw [ofContent, ofLines, entries]
  rfl

end Outline
end VibeLens
