import Mathlib.Tactic.IntervalCases
import VibeLens.Proofs.Text.Joining

set_option autoImplicit false

/-!
Text written as UTF-8. Strict decoding gives it back, and a line feed among the bytes is a line feed of
the text. The other way round, bytes never decode to more characters than they are, so that every
place in a document is bounded by its size.
-/

namespace VibeLens.Text

namespace Utf8

/-! ### Decoding what was encoded -/

namespace Decoder

variable {d : Decoder} {n : Nat}

theorem feed_first (idle : d.pending = none) (byte : n < 256) :
    d.feed (UInt8.ofNat n) = d.lead n := by
  have value : (UInt8.ofNat n).toNat = n := UInt8.toNat_ofNat_of_lt' byte
  rw [feed, idle, value]

theorem feed_awaited {p : Pending} (waiting : d.pending = some p) (low : p.low ≤ n)
    (high : n ≤ p.high) (byte : n < 256) :
    d.feed (UInt8.ofNat n) =
      if p.missing = 1 then d.emit (Char.ofNat (64 * p.code + (n - 0x80)))
      else d.await (64 * p.code + (n - 0x80)) (p.missing - 1) 0x80 0xBF := by
  have value : (UInt8.ofNat n).toNat = n := UInt8.toNat_ofNat_of_lt' byte
  rw [feed, waiting]
  simp only [value, if_pos (And.intro low high)]

theorem feed_last {code low high : Nat} {c : Char} (fits : low ≤ n ∧ n ≤ high) (byte : n < 256)
    (complete : 64 * code + (n - 0x80) = c.toNat) :
    (d.await code 1 low high).feed (UInt8.ofNat n) = d.emit c := by
  rw [feed_awaited (p := ⟨code, 1, low, high⟩) rfl fits.1 fits.2 byte, if_pos rfl, complete,
    Char.ofNat_toNat]
  rfl

theorem feed_inner {code missing low high : Nat} (more : missing ≠ 0) (fits : low ≤ n ∧ n ≤ high)
    (byte : n < 256) :
    (d.await code (missing + 1) low high).feed (UInt8.ofNat n) =
      d.await (64 * code + (n - 0x80)) missing 0x80 0xBF := by
  have notLast : missing + 1 ≠ 1 := by omega
  rw [feed_awaited (p := ⟨code, missing + 1, low, high⟩) rfl fits.1 fits.2 byte, if_neg notLast]
  rfl

/-! The first byte of a sequence holds the highest bits, and with some of them the range of the second
byte is smaller. -/

theorem lead_two (low : 2 ≤ n) (high : n < 32) :
    d.lead (n + 0xC0) = d.await n 1 0x80 0xBF := by
  interval_cases n <;> rfl

theorem lead_three (high : n < 16) :
    d.lead (n + 0xE0) =
      d.await n 2 (if n = 0 then 0xA0 else 0x80) (if n = 13 then 0x9F else 0xBF) := by
  interval_cases n <;> rfl

theorem lead_four (high : n < 5) :
    d.lead (n + 0xF0) =
      d.await n 3 (if n = 0 then 0x90 else 0x80) (if n = 4 then 0x8F else 0xBF) := by
  interval_cases n <;> rfl

theorem foldl_feed_encodeChar (idle : d.pending = none) (c : Char) :
    (String.utf8EncodeChar c).foldl feed d = d.emit c := by
  have valid : c.toNat < 0xD800 ∨ 0xDFFF < c.toNat ∧ c.toNat < 0x110000 := c.valid
  have value : c.val.toNat = c.toNat := rfl
  unfold String.utf8EncodeChar
  simp only [value]
  split_ifs with one two three
  · rw [List.foldl_cons, feed_first idle (by omega), lead, if_pos (by omega), Char.ofNat_toNat]
    rfl
  · rw [List.foldl_cons, feed_first idle (by omega), lead_two (by omega) (by omega),
      List.foldl_cons, feed_last (c := c) (by omega) (by omega) (by omega)]
    rfl
  · have second : (if c.toNat / 4096 % 16 = 0 then 0xA0 else 0x80) ≤ c.toNat / 64 % 64 + 128 ∧
        c.toNat / 64 % 64 + 128 ≤ if c.toNat / 4096 % 16 = 13 then 0x9F else 0xBF := by
      constructor <;> split_ifs <;> omega
    rw [List.foldl_cons, feed_first idle (by omega), lead_three (by omega), List.foldl_cons,
      feed_inner (by decide) second (by omega), List.foldl_cons,
      feed_last (c := c) (by omega) (by omega) (by omega)]
    rfl
  · have second : (if c.toNat / 262144 % 8 = 0 then 0x90 else 0x80) ≤ c.toNat / 4096 % 64 + 128 ∧
        c.toNat / 4096 % 64 + 128 ≤ if c.toNat / 262144 % 8 = 4 then 0x8F else 0xBF := by
      constructor <;> split_ifs <;> omega
    rw [List.foldl_cons, feed_first idle (by omega), lead_four (by omega), List.foldl_cons,
      feed_inner (by decide) second (by omega), List.foldl_cons,
      feed_inner (by decide) (by omega) (by omega), List.foldl_cons,
      feed_last (c := c) (by omega) (by omega) (by omega)]
    rfl

theorem foldl_feed_encode (idle : d.pending = none) (text : List Char) :
    (encode text).foldl feed d = { d with produced := text.reverse ++ d.produced } := by
  induction text generalizing d with
  | nil => rfl
  | cons c text ih =>
    rw [encode, List.flatMap_cons, List.foldl_append, foldl_feed_encodeChar idle, ← encode, ih rfl]
    simp [emit, idle]

end Decoder

theorem run_encode (text : List Char) : Decoder.run (encode text) = ⟨text.reverse, true, none⟩ := by
  rw [Decoder.run, Decoder.foldl_feed_encode rfl]
  simp [Decoder.finish, Decoder.start]

theorem decode_encode (text : List Char) : decode (encode text) = text := by
  rw [decode, run_encode, List.reverse_reverse]

theorem decode?_encode (text : List Char) : decode? (encode text) = some text := by
  simp [decode?, run_encode]

theorem encode_append (upper lower : List Char) :
    encode (upper ++ lower) = encode upper ++ encode lower := List.flatMap_append

theorem encode_lineFeed : encode ['\n'] = [10] := by decide

theorem eq_lineFeed_of_mem {c : Char} (h : 10 ∈ String.utf8EncodeChar c) : c = '\n' := by
  have value : c.val.toNat = c.toNat := rfl
  have low : ∀ {n : Nat}, (10 : UInt8) = UInt8.ofNat n → n < 256 → n = 10 := by
    intro n same byte
    have := congrArg UInt8.toNat same
    rw [UInt8.toNat_ofNat_of_lt' byte] at this
    exact this.symm
  unfold String.utf8EncodeChar at h
  simp only [value] at h
  split_ifs at h
  · have ten := low (List.mem_singleton.mp h) (by omega)
    rw [← Char.ofNat_toNat c, ten]
  all_goals
    simp only [List.mem_cons, List.not_mem_nil, or_false] at h
  · rcases h with h | h
    all_goals have := low h (by omega); omega
  · rcases h with h | h | h
    all_goals have := low h (by omega); omega
  · rcases h with h | h | h | h
    all_goals have := low h (by omega); omega

theorem notMem_encode {text : List Char} (h : '\n' ∉ text) : 10 ∉ encode text := by
  intro member
  obtain ⟨c, inside, here⟩ := List.mem_flatMap.mp member
  exact h (eq_lineFeed_of_mem here ▸ inside)

/-! ### How much bytes can decode to -/

namespace Decoder

variable {d : Decoder}

/-- The characters produced, and one that is still to come if a sequence is unfinished. -/
def extent (d : Decoder) : Nat := d.produced.length + d.pending.toList.length

theorem extent_lead_le (d : Decoder) (byte : Nat) :
    (d.lead byte).extent ≤ d.produced.length + 1 :=
  lead_cases (R := fun _ d' => d'.extent ≤ d.produced.length + 1) (d := d) byte
    (fun _ => Nat.le_refl _) (Nat.le_refl _) fun _ _ _ _ _ => Nat.le_refl _

theorem extent_feed_le (d : Decoder) (byte : UInt8) : (d.feed byte).extent ≤ d.extent + 1 := by
  refine feed_cases (R := fun _ d' => d'.extent ≤ d.extent + 1) (d := d) rfl byte ?_ ?_ ?_ ?_
  · intro _
    exact Nat.le_trans (extent_lead_le d _) (Nat.succ_le_succ (Nat.le_add_right _ _))
  · intro p _ _ _
    simp [extent, emit]
  · intro p _ _
    simp [extent, await]
  · intro p waiting
    -- The sequence that is given up has taken a byte already, which pays for its replacement.
    have whole : d.extent = d.produced.length + 1 := by simp [extent, waiting]
    rw [whole]
    exact extent_lead_le d.replace _

theorem extent_foldl_le (bytes : Bytes) (d : Decoder) :
    (bytes.foldl feed d).extent ≤ d.extent + bytes.length := by
  induction bytes generalizing d with
  | nil => exact Nat.le_refl _
  | cons byte rest ih =>
    have first := extent_feed_le d byte
    have later := ih (d.feed byte)
    rw [List.foldl_cons, List.length_cons]
    omega

theorem length_produced_finish (d : Decoder) : d.finish.produced.length = d.extent := by
  rw [finish]
  cases waiting : d.pending with
  | none => simp [extent, waiting]
  | some p => simp [extent, waiting, replace]

end Decoder

theorem length_decode_le (bytes : Bytes) : (decode bytes).length ≤ bytes.length := by
  have bound := Decoder.extent_foldl_le bytes Decoder.start
  rw [decode, List.length_reverse, Decoder.run, Decoder.length_produced_finish]
  simpa [Decoder.extent, Decoder.start] using bound

end Utf8

/-! ### How many lines there are, and how long they can be -/

namespace LinesAhead

theorem length_toList_before (c : Char) (ahead : LinesAhead) :
    (before c ahead).toList.length ≤ ahead.toList.length + 1 := by
  unfold before
  split_ifs <;> simp [breakLine, toList]

theorem length_le_before {bound : Nat} {ahead : LinesAhead}
    (h : ∀ line ∈ ahead.toList, line.length ≤ bound) (c : Char) :
    ∀ line ∈ (before c ahead).toList, line.length ≤ bound + 1 := by
  have first : ahead.first.length ≤ bound := h _ List.mem_cons_self
  have others : ∀ line ∈ ahead.others, line.length ≤ bound + 1 := fun line inside =>
    Nat.le_succ_of_le (h line (List.mem_cons_of_mem _ inside))
  unfold before
  split_ifs
  all_goals
    simp only [breakLine, toList, List.mem_cons, forall_eq_or_imp, List.length_cons,
      List.length_nil]
    refine ⟨by omega, ?_⟩
  · exact ⟨by omega, others⟩
  · exact others
  · exact ⟨by omega, others⟩
  · exact others

end LinesAhead

theorem length_lines_le (text : List Char) : (lines text).length ≤ text.length + 1 := by
  induction text with
  | nil => exact Nat.le_refl _
  | cons c text ih =>
    have one := LinesAhead.length_toList_before c (text.foldr LinesAhead.before .none)
    exact Nat.le_trans one (Nat.succ_le_succ ih)

theorem length_le_of_mem_lines {text line : List Char} (h : line ∈ lines text) :
    line.length ≤ text.length := by
  induction text generalizing line with
  | nil =>
    rw [List.mem_singleton.mp h]
    exact Nat.le_refl _
  | cons c text ih => exact LinesAhead.length_le_before (fun _ inside => ih inside) c line h

end VibeLens.Text
