import VibeLens.Proofs.Command.Outline
import VibeLens.Proofs.Command.OutlineText
import VibeLens.Proofs.Editor.Forest
import VibeLens.Proofs.Outline.Naming

set_option autoImplicit false

/-!
The two forms of an outline. The text is printed from the listing of a forest and the form for editors
from its nesting, by two recursions that know nothing of each other. Both show the same forest, because
a listing leaves nothing of its forest open.
-/

namespace VibeLens

open Text VibeLens.Symbol

theorem Outline.solid_name {content : Content} {s : Symbol} (mem : s ∈ nodes (ofContent content)) :
    Solid s.name.toList := by
  obtain ⟨d, defined, name, -⟩ := recorded_of_mem_nodes mem
  obtain ⟨line, -, found⟩ := Option.bind_eq_some_iff.mp defined
  rw [name, String.toList_ofList]
  exact fun c member => isBlank_eq_false_of_isWord ((isWordOf_of_definition? found).inked c member)

namespace Command

def forestShown? (json : Bool) (output : List Char) : Option (List Symbol) :=
  if json then (Json.read? output).bind Json.forest? else forestListed? output

section Perform

variable {h : Host} {line : List String} {file : String} {json : Bool} {content : Utf8.Bytes}

theorem perform_outline_text (input : Utf8.Bytes) (read : readFile h file = .ok content) :
    perform h input (.outline file false) =
      .ok ⟨0, outlineText (Outline.ofContent (.bytes content)), [], h⟩ := by
  rw [perform, outline, read, ok_bind]
  rfl

/-- An outline that is not printed has no text for editors. -/
theorem perform_outline_cases (input : Utf8.Bytes) (json : Bool)
    (read : readFile h file = .ok content) :
    (∃ output, perform h input (.outline file json) = .ok ⟨0, output, [], h⟩ ∧
      forestShown? json output = some (Outline.ofContent (.bytes content))) ∨
    ¬ (Json.arr (forestToEditor (Outline.ofContent (.bytes content)))).writable ∧
      perform h input (.outline file json) = .error .unwritable := by
  cases json with
  | false =>
    refine .inl ⟨_, perform_outline_text input read, ?_⟩
    rw [forestShown?, if_neg Bool.false_ne_true]
    exact forestListed?_outlineText fun _ mem => Outline.solid_name mem
  | true =>
    have done := perform_outline_json input read
    by_cases writable : (Json.arr (forestToEditor (Outline.ofContent (.bytes content)))).writable
    · rw [jsonText_of_writable writable, ok_bind] at done
      refine .inl ⟨_, done, ?_⟩
      rw [forestShown?, if_pos rfl, Json.read?_indented, Option.bind_some,
        Json.forest?_canonical (keyed_forestToEditor _), forest?_toEditor]
    · rw [jsonText_of_not_writable writable] at done
      exact .inr ⟨writable, done⟩

theorem carryOut_outline_cases (input : Utf8.Bytes)
    (asked : Request.ofLine line = .ok (.outline file json)) (read : readFile h file = .ok content) :
    (∃ output, carryOut h input line = .reported ⟨0, output, [], h⟩ ∧
      forestShown? json output = some (Outline.ofContent (.bytes content))) ∨
    ¬ (Json.arr (forestToEditor (Outline.ofContent (.bytes content)))).writable ∧
      carryOut h input line = .failed .unwritable := by
  rcases perform_outline_cases input json read with ⟨output, done, shown⟩ | ⟨unwritable, failed⟩
  · exact .inl ⟨output, carryOut_of_ok asked done, shown⟩
  · exact .inr ⟨unwritable, carryOut_of_unreported asked failed rfl⟩

end Perform

/-- A listing determines its forest. Which listings there are can be told from their depths: the first is
the one that is given, none is smaller, and each is at most one more than the one before it; and a
listing has an entry for each symbol. The form for editors is read back as the forest as well, and so
both forms in which the command prints the outline of a document show the same forest, that outline. -/
theorem listing_determines_forest :
    (∀ depth depth' forest other, headings depth forest = headings depth' other →
      forest = other) ∧
    (∀ depth listing, (∃ forest, headings depth forest = listing) ↔
      Descends depth (listing.map Prod.fst)) ∧
    (∀ depth forest, (headings depth forest).length = forestSize forest) ∧
    (∀ forest, (Json.arr (forestToEditor forest)).forest? = some forest) ∧
    ∀ h input line file json content,
      Request.ofLine line = .ok (.outline file json) → readFile h file = .ok content →
      (Outlinable content → ∃ output, carryOut h input line = .reported ⟨0, output, [], h⟩) ∧
      ∀ report, carryOut h input line = .reported report →
        forestShown? json report.output = some (Outline.ofContent (.bytes content)) := by
  refine ⟨?_, fun _ _ => exists_headings_eq_iff, length_headings, forest?_toEditor, ?_⟩
  · intro depth depth' forest other same
    rw [← ofListing_headings depth forest, same, ofListing_headings]
  · intro h input line file json content asked read
    rcases carryOut_outline_cases input asked read with ⟨output, done, shown⟩ | ⟨unwritable, failed⟩
    · refine ⟨fun _ => ⟨output, done⟩, ?_⟩
      intro report reported
      cases done.symm.trans reported
      exact shown
    · constructor
      · intro outlinable
        exact absurd ((Outline.writable_editor_iff outlinable.small).mpr outlinable.nested) unwritable
      · intro report reported
        cases failed.symm.trans reported

def threeLevels : List Char :=
  "class Tür\n  def größe()\n    enum Maß\n    end\n  end\nend\nconst A_1 = 2".toList

def threeLevelsForest : List Symbol :=
  [⟨"Tür", .classType, ⟨0, 6⟩, ⟨5, 3⟩, [⟨"größe", .function, ⟨1, 6⟩, ⟨4, 5⟩,
      [⟨"Maß", .enumType, ⟨2, 9⟩, ⟨3, 7⟩, []⟩]⟩]⟩,
   ⟨"A_1", .constant, ⟨6, 6⟩, ⟨6, 13⟩, []⟩]

/-- The outline is known by its listing, listed one level deeper it is still a listing, and both forms
that are printed show it. -/
theorem threeLevels_shown :
    Outline.ofContent (.bytes (Utf8.encode threeLevels)) = threeLevelsForest ∧
    (∃ forest, headings 1 forest = (headings 0 threeLevelsForest).map fun e => (e.1 + 1, e.2)) ∧
    ∀ json, ∃ line output, Request.ofLine line = .ok (.outline "/ws/a\nb.vb" json) ∧
      carryOut (oneSource (Utf8.encode threeLevels)) [] line =
        .reported ⟨0, output, [], oneSource (Utf8.encode threeLevels)⟩ ∧
      forestShown? json output = some threeLevelsForest := by
  obtain ⟨determines, listings, -, -, shows⟩ := listing_determines_forest
  have forest : Outline.ofContent (.bytes (Utf8.encode threeLevels)) = threeLevelsForest := by
    have same : headings 0 (Outline.ofLines (lines threeLevels)) = headings 0 threeLevelsForest := by
      decide +kernel
    rw [Outline.ofContent, Content.lines, Content.chars_bytes, Utf8.decode_encode]
    exact determines 0 0 _ _ same
  have deeper : Descends 1 [1, 2, 3, 1] := ⟨by simp, by simp, by simp⟩
  refine ⟨forest, (listings 1 _).mpr deeper, fun json => ?_⟩
  have outlinable : Outlinable (Utf8.encode threeLevels) := by
    refine ⟨by decide +kernel, ?_⟩
    rw [forest]
    decide
  have asked : Request.ofLine (["outline", "/ws/a\nb.vb"] ++ if json then ["--json"] else []) =
      .ok (.outline "/ws/a\nb.vb" json) := by
    cases json <;> decide +kernel
  obtain ⟨prints, all⟩ := shows _ [] _ _ json _ asked (oneSource.readFile_eq (Utf8.encode threeLevels))
  obtain ⟨output, printed⟩ := prints outlinable
  exact ⟨_, output, asked, printed, (all _ printed).trans (congrArg some forest)⟩

end Command
end VibeLens
