import Mathlib.Data.List.Forall2
import VibeLens.Proofs.Diagnostic.Reading
import VibeLens.Proofs.Text.Joining
import VibeLens.Proofs.Text.Trimming

set_option autoImplicit false

/-!
Diagnostics line by line. Every line that is not blank gives one, in the order of the lines, and blank
lines give none. So error text can be cut at any line feed: even if the cut tears a line break in two,
only a blank line comes or goes. The message of a diagnostic is the end of its trimmed line.
-/

namespace VibeLens

namespace Content

open Text

/-- The lines of a document that hold more than blanks. -/
def inkedLines (content : Content) : List (List Char) := content.lines.filter hasInk

theorem Joins.inkedLines_eq {upper lower whole : Content} (joined : Joins upper lower whole) :
    whole.inkedLines = upper.inkedLines ++ lower.inkedLines := by
  simp only [inkedLines]
  by_cases returns : upper.chars.getLast? = some '\r'
  · -- The break that the cut tears leaves an empty line at the end of the upper part.
    obtain ⟨front, split⟩ := List.getLast?_eq_some_iff.mp returns
    have below : whole.chars = front ++ '\r' :: '\n' :: lower.chars := by
      rw [joined.chars_eq, split, List.append_assoc]
      rfl
    have above : upper.lines.filter hasInk = (Text.lines front).filter hasInk := by
      rw [lines, split, lines_append_return, List.filter_append]
      exact List.append_nil _
    rw [above, lines, below, lines_append_returnFeed, List.filter_append, lines]
  · rw [joined.lines_eq returns, List.filter_append]

end Content

namespace Diagnostic

open Text

variable {line : List Char}

structure IsMessage (line message : List Char) : Prop where
  trimmed : IsTrimmed message
  unbroken : Unbroken message
  suffix : message <:+ trim line

theorem locate_eq_map (content : Content) :
    locate content = content.inkedLines.map fun line => ofLine (trim line) := by
  have kept (line : List Char) : (!(trim line).isEmpty) = hasInk line := by
    cases ink : hasInk line with
    | false => rw [trim_eq_nil_iff.mpr ink, List.isEmpty_nil, Bool.not_true]
    | true =>
      have := (isTrimmed_trim ink).ne_nil
      cases left : trim line with
      | nil => exact absurd left this
      | cons c rest => rfl
  rw [locate, List.filter_map, List.map_map, Content.inkedLines]
  simp only [Function.comp_def, kept]

/-- The message is what stands behind the place if that is not blank, and else the whole line. -/
theorem message_suffix {text : List Char} (h : IsTrimmed text) :
    IsTrimmed (ofLine text).message.toList ∧ (ofLine text).message.toList <:+ text := by
  have whole : IsTrimmed text ∧ text <:+ text := ⟨h, List.suffix_rfl⟩
  unfold ofLine
  split
  · rename_i row column rest found
    obtain ⟨start, suffix, read⟩ := exists_suffix_of_leftmost? found
    obtain ⟨split, -, -⟩ := eq_of_bracketed? read
    have behind : rest <:+ text := by
      refine List.IsSuffix.trans ⟨'[' :: (row ++ ':' :: (column ++ [']'])), ?_⟩ suffix
      rw [split]
      simp
    simp only [String.toList_ofList]
    split
    · exact whole
    · rename_i nonempty
      have ink : hasInk rest := by
        by_contra blank
        have empty := trim_eq_nil_iff.mpr (eq_false_of_ne_true blank)
        exact nonempty (List.isEmpty_iff.mpr empty)
      exact ⟨isTrimmed_trim ink, h.trim_suffix behind⟩
  · split
    · simpa only [String.toList_ofList] using whole
    · simpa only [String.toList_ofList] using whole

theorem isMessage_ofLine (ink : hasInk line) (unbroken : Unbroken line) :
    IsMessage line (ofLine (trim line)).message.toList := by
  obtain ⟨trimmed, suffix⟩ := message_suffix (isTrimmed_trim ink)
  refine ⟨trimmed, ⟨?_, ?_⟩, suffix⟩
  · intro mem
    exact unbroken.1 (mem_of_mem_trim (suffix.subset mem))
  · intro mem
    exact unbroken.2 (mem_of_mem_trim (suffix.subset mem))

theorem locate_of_joins {upper lower whole : Content} (joined : Content.Joins upper lower whole) :
    locate whole = locate upper ++ locate lower := by
  rw [locate_eq_map, joined.inkedLines_eq, List.map_append, ← locate_eq_map, ← locate_eq_map]

/-- Text put below other text adds its diagnostics to those that are there, and each line that is
not blank gives one diagnostic, whose message is the end of that line. -/
theorem locate_line_by_line :
    (∀ upper lower : List Char,
      locate (.text (upper ++ '\n' :: lower)) = locate (.text upper) ++ locate (.text lower)) ∧
    (∀ upper lower : Utf8.Bytes,
      locate (.bytes (upper ++ 10 :: lower)) =
        locate (.bytes upper) ++ locate (.bytes lower)) ∧
    ∀ content : Content,
      (locate content).length = content.lines.countP hasInk ∧
      List.Forall₂ (fun line d => d = ofLine (trim line) ∧ IsMessage line d.message.toList)
        (content.lines.filter hasInk) (locate content) := by
  refine ⟨?_, ?_, ?_⟩
  · intro upper lower
    exact locate_of_joins (.text upper lower)
  · intro upper lower
    exact locate_of_joins (.bytes upper lower)
  · intro content
    rw [locate_eq_map, List.length_map]
    refine ⟨List.countP_eq_length_filter.symm, ?_⟩
    apply List.forall₂_map_right_iff.mpr
    apply List.forall₂_same.mpr
    intro line mem
    obtain ⟨mem, ink⟩ := List.mem_filter.mp mem
    exact ⟨rfl, isMessage_ofLine ink (unbroken_of_mem_lines mem)⟩

end Diagnostic
end VibeLens
