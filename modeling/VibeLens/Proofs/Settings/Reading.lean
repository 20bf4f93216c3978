import VibeLens.Proofs.Datum.Verdict
import VibeLens.Proofs.Toml.LongNumeral
import VibeLens.Settings.Load

set_option autoImplicit false

/-!
What is known of settings that were accepted, and why a file is refused. Accepted settings keep their
bounds and come from data with known keys only. A file is refused for its encoding, for a numeral too
long to convert, for its form or for its values, and there is no other reason.
-/

namespace VibeLens

open Text

namespace Datum

/-- What holds of the default and of all that is read holds of an optional field. -/
theorem of_optional_eq_valid {α : Type} {members : List (String × Datum)} {key : String}
    {default a : α} {read : Datum → Verdict α} {P : α → Prop}
    (accepted : optional members key default read = .valid a)
    (byDefault : P default) (whenRead : ∀ d, read d = .valid a → P a) : P a := by
  rcases optional_eq_valid_iff.mp accepted with ⟨-, rfl⟩ | ⟨d, -, valid⟩
  · exact byDefault
  · exact whenRead d valid

theorem pos_of_positive {d : Datum} {n : Nat} (read : positive d = .valid n) : 0 < n := by
  obtain ⟨m, -, checked⟩ := Verdict.andThen_eq_valid_iff.mp read
  split at checked
  · rename_i above
    cases checked
    exact Int.lt_toNat.mpr above
  · cases checked

theorem isPositive_of_positiveDouble {d : Datum} {x : Double} (read : positiveDouble d = .valid x) :
    x.isPositive := by
  obtain ⟨y, -, checked⟩ := Verdict.andThen_eq_valid_iff.mp read
  split at checked
  · rename_i above
    cases checked
    exact above
  · cases checked

end Datum

/-! ### Accepted settings -/

structure Checking.IsUsable (c : Checking) : Prop where
  timeout : c.timeout.isPositive
  outputLimit : 0 < c.outputLimit

namespace Checking

theorem isUsable_default : default.IsUsable := ⟨by decide, by decide⟩

theorem isUsable_of_ofDatum {d : Datum} {c : Checking} (read : ofDatum d = .valid c) :
    c.IsUsable := by
  simp only [ofDatum, Datum.record_eq_valid_iff, Verdict.alongside_eq_valid_iff,
    Verdict.app_eq_valid_iff, Verdict.valid.injEq] at read
  obtain ⟨members, -, ⟨_, _, ⟨_, _, ⟨_, _, ⟨_, _, rfl, -, rfl⟩, timeout, rfl⟩, limit, rfl⟩,
    -, rfl⟩, -⟩ := read
  constructor
  · exact Datum.of_optional_eq_valid (P := fun x => x.isPositive) timeout isUsable_default.timeout
      fun _ => Datum.isPositive_of_positiveDouble
  · exact Datum.of_optional_eq_valid (P := (0 < ·)) limit isUsable_default.outputLimit
      fun _ => Datum.pos_of_positive

theorem known_of_ofDatum {members : List (String × Datum)} {c : Checking}
    (read : ofDatum (.table members) = .valid c) : ∀ m ∈ members, m.1 ∈ keys :=
  Datum.unknownKeys_eq_nil_iff.mp (Verdict.alongside_eq_valid_iff.mp read).2

end Checking

namespace Settings

structure KnownKeys (members : List (String × Datum)) : Prop where
  top : ∀ m ∈ members, m.1 ∈ keys
  checking : ∀ inner, members.lookup "diagnostics" = some (.table inner) →
    ∀ m ∈ inner, m.1 ∈ Checking.keys

theorem of_ofDatum {d : Datum} {s : Settings} (read : ofDatum d = .valid s) :
    s.checking.IsUsable ∧ ∃ members, d = .table members ∧ KnownKeys members := by
  simp only [ofDatum, Datum.record_eq_valid_iff, Verdict.alongside_eq_valid_iff,
    Verdict.app_eq_valid_iff, Verdict.valid.injEq] at read
  obtain ⟨members, rfl, ⟨_, checking, ⟨_, _, ⟨_, _, ⟨_, _, ⟨_, _, ⟨_, _, rfl, -, rfl⟩, -, rfl⟩,
    -, rfl⟩, -, rfl⟩, -, rfl⟩, accepted, rfl⟩, known⟩ := read
  refine ⟨?_, members, rfl, Datum.unknownKeys_eq_nil_iff.mp known, ?_⟩
  · exact Datum.of_optional_eq_valid accepted Checking.isUsable_default
      fun _ => Checking.isUsable_of_ofDatum
  · intro inner found
    rw [Datum.optional, found] at accepted
    exact Checking.known_of_ofDatum (Verdict.under_eq_valid_iff.mp accepted)

/-! ### The file -/

variable {wording : Wording} {file : String} {content : Utf8.Bytes} {s : Settings}

theorem ofBytes_undecodable (undecoded : Utf8.decode? content = none) :
    ofBytes wording file content = .error .undecodable := by
  rw [ofBytes, undecoded]

/-- A file is accepted if it is a document whose values fit. It then has known keys only, and the
settings are usable. -/
theorem ofBytes_eq_ok_iff :
    ofBytes wording file content = .ok s ↔
      ∃ text members, Utf8.decode? content = some text ∧ Toml.parse text = .ok (.table members) ∧
        ofDatum (.table members) = .valid s ∧ KnownKeys members ∧ s.checking.IsUsable := by
  constructor
  · intro accepted
    unfold ofBytes at accepted
    split at accepted
    · cases accepted
    · rename_i text decoded
      split at accepted
      · cases accepted
      · cases accepted
      · rename_i data parsed
        split at accepted
        · rename_i read
          cases accepted
          obtain ⟨usable, members, rfl, known⟩ := of_ofDatum read
          exact ⟨text, members, decoded, parsed, read, known, usable⟩
        · cases accepted
  · rintro ⟨text, members, decoded, parsed, read, -, -⟩
    simp only [ofBytes, decoded, parsed, read]

/-- What a text is blamed for, and what is said of it. Either it has not the form of a document, or values
in it do not fit. -/
inductive Blamed (wording : Wording) (file : String) (text : List Char) :
    SettingsFault → String → Prop
  | form : Toml.parse text = .error .malformed →
      Blamed wording file text (.malformed file (wording.malformed text))
        ("Invalid TOML in " ++ file ++ ": " ++ wording.malformed text)
  | values {data : Datum} {faults : List Fault} : Toml.parse text = .ok data →
      ofDatum data = .faulty faults →
      Blamed wording file text (.invalid file (wording.invalid text faults) faults)
        ("Invalid config in " ++ file ++ ": " ++ wording.invalid text faults)

theorem Blamed.message?_eq {text : List Char} {fault : SettingsFault} {message : String}
    (blamed : Blamed wording file text fault message) : fault.message? = some message := by
  cases blamed <;> rfl

/-- A file is refused for its encoding, for what its text is blamed for, or for a numeral in it. -/
theorem ofBytes_error_cases {fault : SettingsFault}
    (refused : ofBytes wording file content = .error fault) :
    (fault = .undecodable ∧ Utf8.decode? content = none) ∨
      ∃ text, Utf8.decode? content = some text ∧
        ((∃ message, Blamed wording file text fault message) ∨
          fault = .numeralTooLong ∧ Toml.HasLongNumeral text) := by
  unfold ofBytes at refused
  split at refused
  · rename_i undecoded
    cases refused
    exact .inl ⟨rfl, undecoded⟩
  · rename_i text decoded
    refine .inr ⟨text, decoded, ?_⟩
    split at refused
    · rename_i malformed
      cases refused
      exact .inl ⟨_, .form malformed⟩
    · rename_i tooLong
      cases refused
      exact .inr ⟨rfl, Toml.hasLongNumeral_of_parse tooLong⟩
    · rename_i data parsed
      split at refused
      · cases refused
      · rename_i faults read
        cases refused
        exact .inl ⟨_, .values parsed read⟩

end Settings

/-- What the readers say of a text that ends behind its first key, and of the key `x` if it is not known
and its value is one, naming no address to look the fault up at. -/
def namedFaults : Wording where
  malformed _ := "Expected '=' after a key in a key/value pair (at end of document)"
  invalid _ _ := "1 validation error for VibeConfig\nx\n" ++
    "  Extra inputs are not permitted [type=extra_forbidden, input_value=1, input_type=int]"

end VibeLens
