import VibeLens.Command.Perform

set_option autoImplicit false

/-!
Words of a command line that can only be operands, and the text of an answer in JSON.
-/

namespace VibeLens.Command

/-- The word can only be an operand. -/
def IsPlain (word : String) : Prop := word.toList.head? ≠ some '-'

instance (word : String) : Decidable (IsPlain word) :=
  inferInstanceAs (Decidable (word.toList.head? ≠ some '-'))

theorem read_of_isPlain (g : Grammar) {word : String} (plain : IsPlain word) :
    g.read word = .ok .operand := if_pos plain

theorem IsPlain.ne_dividerWord {word : String} (plain : IsPlain word) : word ≠ dividerWord := by
  rintro rfl
  exact plain rfl

theorem readAll_cons_of_isPlain (g : Grammar) {word : String} {line : List String} {words : Words}
    (plain : IsPlain word) (later : g.readAll line = .ok words) :
    g.readAll (word :: line) = .ok ((.operand, word) :: words) := by
  rw [Grammar.readAll, if_neg plain.ne_dividerWord, later, read_of_isPlain g plain]
  rfl

theorem readAll_of_isPlain (g : Grammar) {line : List String} (plain : ∀ w ∈ line, IsPlain w) :
    g.readAll line = .ok (line.map fun w => (.operand, w)) := by
  induction line with
  | nil => rfl
  | cons word line ih =>
    obtain ⟨first, later⟩ := List.forall_mem_cons.mp plain
    exact readAll_cons_of_isPlain g first (ih later)

theorem jsonText_of_writable {j : Json} (h : j.writable) :
    jsonText j = .ok (j.indented ++ ['\n']) := by
  rw [jsonText, Json.text?, if_pos h]
  rfl

theorem jsonText_of_not_writable {j : Json} (h : ¬ j.writable) : jsonText j = .error .unwritable := by
  rw [jsonText, Json.text?, if_neg h]

/-! ### Answers and failures -/

section CarryOut

variable {h : Host} {input : Text.Utf8.Bytes} {line : List String} {request : Request}

theorem carryOut_of_ok {report : Report} (asked : Request.ofLine line = .ok request)
    (done : perform h input request = .ok report) : carryOut h input line = .reported report := by
  simp only [carryOut, asked, done]

theorem carryOut_of_reported {failure : Failure} {message : List Char}
    (asked : Request.ofLine line = .ok request)
    (failed : perform h input request = .error failure) (told : reported? failure = some message) :
    carryOut h input line = .reported ⟨2, [], "error: ".toList ++ message ++ ['\n'], h⟩ := by
  simp only [carryOut, asked, failed, told]

theorem carryOut_of_unreported {failure : Failure} (asked : Request.ofLine line = .ok request)
    (failed : perform h input request = .error failure) (untold : reported? failure = none) :
    carryOut h input line = .failed failure := by
  simp only [carryOut, asked, failed, untold]

end CarryOut

end VibeLens.Command
