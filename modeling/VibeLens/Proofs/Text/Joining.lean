import Mathlib.Data.List.Basic
import Mathlib.Data.List.Induction
import VibeLens.Text.Lines

set_option autoImplicit false

/-!
Documents put one below the other, with a line feed between them. The lines of the whole are those of
the upper part and then those of the lower one, unless the upper part ends in a carriage return,
which would join the line feed to one break. A line feed also ends whatever byte sequence is
unfinished before it, so this holds of bytes that are not valid UTF-8 as well.
-/

namespace VibeLens

namespace Text

/-! ### Bytes -/

/-- A sequence that is under way neither goes on with an ASCII character nor comes to one. The least
it can come to with the next byte is not zero in its highest bits. -/
structure Utf8.Pending.BeyondAscii (p : Pending) : Prop where
  next : 0x80 ≤ p.low
  least : 2 ≤ 64 * p.code + (p.low - 0x80)
  last : p.missing = 1 → 0x80 ≤ 64 * p.code + (p.low - 0x80)

namespace Utf8.Decoder

theorem rel_ite {R : Decoder → Decoder → Prop} {c : Prop} [Decidable c] {a a' b b' : Decoder}
    (yes : c → R a a') (no : ¬ c → R b b') : R (if c then a else b) (if c then a' else b') := by
  split_ifs with h
  · exact yes h
  · exact no h

/-- What a first byte can do, to two decoders at once: it is a character of ASCII, cannot start a
sequence, or starts one beyond ASCII. -/
theorem lead_cases {R : Decoder → Decoder → Prop} {d d' : Decoder} (byte : Nat)
    (emit : byte < 0x80 → R (d.emit (Char.ofNat byte)) (d'.emit (Char.ofNat byte)))
    (replace : R d.replace d'.replace)
    (await : ∀ code missing low high, Pending.BeyondAscii ⟨code, missing, low, high⟩ →
      R (d.await code missing low high) (d'.await code missing low high)) :
    R (d.lead byte) (d'.lead byte) := by
  unfold lead
  refine rel_ite emit fun _ => rel_ite (fun _ => replace) fun _ => ?_
  iterate 7
    refine rel_ite (fun _ => await _ _ _ _ (by constructor <;> dsimp only <;> omega)) fun _ => ?_
  exact replace

theorem feed_cases {R : Decoder → Decoder → Prop} {d d' : Decoder} (same : d'.pending = d.pending)
    (byte : UInt8)
    (first : d.pending = none → R (d.lead byte.toNat) (d'.lead byte.toNat))
    (last : ∀ p, d.pending = some p → p.low ≤ byte.toNat → p.missing = 1 →
      R (d.emit (Char.ofNat (64 * p.code + (byte.toNat - 0x80))))
        (d'.emit (Char.ofNat (64 * p.code + (byte.toNat - 0x80)))))
    (inner : ∀ p, d.pending = some p → p.low ≤ byte.toNat →
      R (d.await (64 * p.code + (byte.toNat - 0x80)) (p.missing - 1) 0x80 0xBF)
        (d'.await (64 * p.code + (byte.toNat - 0x80)) (p.missing - 1) 0x80 0xBF))
    (behind : ∀ p, d.pending = some p → R (d.replace.lead byte.toNat) (d'.replace.lead byte.toNat)) :
    R (d.feed byte) (d'.feed byte) := by
  simp only [feed, same]
  cases waiting : d.pending with
  | none => exact first waiting
  | some p =>
    refine rel_ite (fun fits => ?_) fun _ => behind p waiting
    exact rel_ite (last p waiting fits.1) fun _ => inner p waiting fits.1

/-- What is under way, if anything, is beyond ASCII. -/
def AwaitsHigh (d : Decoder) : Prop := ∀ p, d.pending = some p → p.BeyondAscii

theorem awaitsHigh_emit (d : Decoder) (c : Char) : (d.emit c).AwaitsHigh := by
  intro p pending
  cases pending

theorem awaitsHigh_replace (d : Decoder) : d.replace.AwaitsHigh := by
  intro p pending
  cases pending

theorem awaitsHigh_await (d : Decoder) {code missing low high : Nat}
    (beyond : Pending.BeyondAscii ⟨code, missing, low, high⟩) :
    (d.await code missing low high).AwaitsHigh := by
  intro p pending
  rw [← Option.some.inj pending]
  exact beyond

theorem awaitsHigh_lead (d : Decoder) (byte : Nat) : (d.lead byte).AwaitsHigh :=
  lead_cases (R := fun _ d => d.AwaitsHigh) (d := d) byte (fun _ => awaitsHigh_emit d _)
    (awaitsHigh_replace d) fun _ _ _ _ => awaitsHigh_await d

theorem AwaitsHigh.feed {d : Decoder} (high : d.AwaitsHigh) (byte : UInt8) :
    (d.feed byte).AwaitsHigh := by
  refine feed_cases (R := fun _ d => d.AwaitsHigh) (d := d) rfl byte ?_ ?_ ?_ ?_
  · exact fun _ => awaitsHigh_lead d _
  · exact fun _ _ _ _ => awaitsHigh_emit d _
  · intro p waiting low
    have := (high p waiting).next
    have := (high p waiting).least
    apply awaitsHigh_await
    constructor <;> dsimp only <;> omega
  · exact fun _ _ => awaitsHigh_lead d.replace _

theorem AwaitsHigh.foldl {d : Decoder} (high : d.AwaitsHigh) (bytes : Bytes) :
    (bytes.foldl Decoder.feed d).AwaitsHigh := by
  induction bytes generalizing d with
  | nil => exact high
  | cons byte rest ih => exact ih (high.feed byte)

theorem awaitsHigh_start : start.AwaitsHigh := by
  intro p pending
  cases pending

/-- A byte of ASCII gives up what is unfinished, as the end of the input does, and stands for
itself. -/
theorem feed_ascii {d : Decoder} (high : d.AwaitsHigh) {byte : UInt8} (ascii : byte.toNat < 0x80) :
    d.feed byte = d.finish.emit (Char.ofNat byte.toNat) := by
  rw [feed, finish]
  cases waiting : d.pending with
  | none => exact if_pos ascii
  | some p =>
    have above := (high p waiting).next
    have outside : ¬ (p.low ≤ byte.toNat ∧ byte.toNat ≤ p.high) := by omega
    simp only [outside, if_false]
    exact if_pos ascii

def Trails (past : List Char) (d d' : Decoder) : Prop :=
  d'.produced = d.produced ++ past ∧ d'.pending = d.pending

section Trails

variable {past : List Char} {d d' : Decoder}

theorem Trails.emit (h : Trails past d d') (c : Char) : Trails past (d.emit c) (d'.emit c) :=
  ⟨by simp [Decoder.emit, h.1], rfl⟩

theorem Trails.replace (h : Trails past d d') : Trails past d.replace d'.replace :=
  ⟨by simp [Decoder.replace, h.1], rfl⟩

theorem Trails.await (h : Trails past d d') (code missing low high : Nat) :
    Trails past (d.await code missing low high) (d'.await code missing low high) :=
  ⟨h.1, rfl⟩

theorem Trails.lead (h : Trails past d d') (byte : Nat) :
    Trails past (d.lead byte) (d'.lead byte) :=
  lead_cases byte (fun _ => h.emit _) h.replace fun code missing low high _ =>
    h.await code missing low high

theorem Trails.feed (h : Trails past d d') (byte : UInt8) :
    Trails past (d.feed byte) (d'.feed byte) :=
  feed_cases h.2 byte (fun _ => h.lead _) (fun _ _ _ _ => h.emit _) (fun _ _ _ => h.await _ _ _ _)
    fun _ _ => h.replace.lead _

theorem Trails.foldl (h : Trails past d d') (bytes : Bytes) :
    Trails past (bytes.foldl Decoder.feed d) (bytes.foldl Decoder.feed d') := by
  induction bytes generalizing d d' with
  | nil => exact h
  | cons byte rest ih => exact ih (h.feed byte)

theorem Trails.finish (h : Trails past d d') : Trails past d.finish d'.finish := by
  simp only [Decoder.finish, h.2]
  cases d.pending with
  | none => exact h
  | some p => exact h.replace

end Trails

end Utf8.Decoder

theorem Utf8.decode_append_ascii (upper lower : Utf8.Bytes) {byte : UInt8}
    (ascii : byte.toNat < 0x80) :
    Utf8.decode (upper ++ byte :: lower) =
      Utf8.decode upper ++ Char.ofNat byte.toNat :: Utf8.decode lower := by
  have trails : Decoder.Trails (Char.ofNat byte.toNat :: (Decoder.run upper).produced)
      Decoder.start ((Decoder.run upper).emit (Char.ofNat byte.toNat)) := ⟨rfl, rfl⟩
  rw [Utf8.decode, Decoder.run, List.foldl_append, List.foldl_cons,
    Decoder.feed_ascii (Decoder.awaitsHigh_start.foldl upper) ascii, ← Decoder.run,
    (trails.foldl lower).finish.1]
  simp [Utf8.decode, Decoder.run]

theorem Utf8.decode_append_lineFeed (upper lower : Utf8.Bytes) :
    Utf8.decode (upper ++ 10 :: lower) = Utf8.decode upper ++ '\n' :: Utf8.decode lower :=
  Utf8.decode_append_ascii upper lower (by decide)

/-! ### Lines -/

namespace LinesAhead

def extend (ahead : LinesAhead) (more : List (List Char)) : LinesAhead :=
  { ahead with others := ahead.others ++ more }

theorem before_extend (c : Char) (ahead : LinesAhead) (more : List (List Char)) :
    before c (ahead.extend more) = (before c ahead).extend more := by
  cases feed : ahead.feedNext
  all_goals
    simp only [before, extend, breakLine, feed]
    split_ifs <;> rfl

theorem foldr_extend (text : List Char) (ahead : LinesAhead) (more : List (List Char)) :
    text.foldr before (ahead.extend more) = (text.foldr before ahead).extend more := by
  induction text with
  | nil => rfl
  | cons c text ih => rw [List.foldr_cons, ih, before_extend, List.foldr_cons]

theorem before_return {ahead : LinesAhead} (alone : ahead.feedNext = false) :
    before '\r' ahead = ahead.breakLine false := by
  simp [before, alone]

theorem feedNext_foldr (text : List Char) :
    (text.foldr before .none).feedNext = (text.head? == some '\n') := by
  cases text with
  | nil => rfl
  | cons c text =>
    rw [List.foldr_cons, before, List.head?_cons]
    split_ifs <;> simp_all [breakLine]

theorem before_breakLine {c : Char} (h : c ≠ '\r') (ahead : LinesAhead) :
    before c (ahead.breakLine true) = (before c none).extend ahead.toList := by
  simp only [before, h, if_false]
  split_ifs <;> rfl

end LinesAhead

theorem lines_return {text : List Char} (alone : text.head? ≠ some '\n') :
    lines ('\r' :: text) = [] :: lines text := by
  have noFeed : (text.foldr LinesAhead.before .none).feedNext = false := by
    rw [LinesAhead.feedNext_foldr, beq_eq_false_iff_ne]
    exact alone
  rw [lines, List.foldr_cons, LinesAhead.before_return noFeed]
  rfl

theorem lines_cons {c : Char} (notReturn : c ≠ '\r') (notFeed : c ≠ '\n') (text : List Char) :
    lines (c :: text) = (lines text).modifyHead (c :: ·) := by
  rw [lines, List.foldr_cons, LinesAhead.before, if_neg notFeed, if_neg notReturn]
  rfl

theorem lines_append_lineFeed {upper : List Char} (h : upper.getLast? ≠ some '\r')
    (lower : List Char) : lines (upper ++ '\n' :: lower) = lines upper ++ lines lower := by
  have whole : lines (upper ++ '\n' :: lower) = (upper.foldr LinesAhead.before
      ((lower.foldr LinesAhead.before .none).breakLine true)).toList := by
    rw [lines, List.foldr_append, List.foldr_cons]
    rfl
  induction upper using List.reverseRecOn with
  | nil => rfl
  | append_singleton upper c =>
    have last : c ≠ '\r' := by simpa using h
    rw [whole, List.foldr_append, List.foldr_cons, List.foldr_nil,
      LinesAhead.before_breakLine last, LinesAhead.foldr_extend, lines, List.foldr_append]
    rfl

theorem lines_append_returnFeed (upper lower : List Char) :
    lines (upper ++ '\r' :: '\n' :: lower) = lines upper ++ lines lower := by
  have below : (('\r' :: '\n' :: lower).foldr LinesAhead.before .none) =
      LinesAhead.none.extend (lines lower) := rfl
  rw [lines, List.foldr_append, below, LinesAhead.foldr_extend]
  rfl

theorem lines_append_return (upper : List Char) :
    lines (upper ++ ['\r']) = lines upper ++ [[]] := by
  have below : (['\r'].foldr LinesAhead.before .none) = LinesAhead.none.extend [[]] := rfl
  rw [lines, List.foldr_append, below, LinesAhead.foldr_extend]
  rfl

def Unbroken (line : List Char) : Prop := '\r' ∉ line ∧ '\n' ∉ line

theorem unbroken_nil : Unbroken [] := ⟨List.not_mem_nil, List.not_mem_nil⟩

theorem Unbroken.cons {c : Char} {line : List Char} (h : Unbroken line) (notReturn : c ≠ '\r')
    (notFeed : c ≠ '\n') : Unbroken (c :: line) :=
  ⟨List.not_mem_cons_of_ne_of_not_mem notReturn.symm h.1,
   List.not_mem_cons_of_ne_of_not_mem notFeed.symm h.2⟩

theorem Unbroken.append {upper lower : List Char} (h : Unbroken upper) (h' : Unbroken lower) :
    Unbroken (upper ++ lower) :=
  ⟨List.not_mem_append h.1 h'.1, List.not_mem_append h.2 h'.2⟩

theorem Unbroken.of_cons {c : Char} {line : List Char} (h : Unbroken (c :: line)) :
    c ≠ '\r' ∧ c ≠ '\n' ∧ Unbroken line :=
  ⟨(List.ne_of_not_mem_cons h.1).symm, (List.ne_of_not_mem_cons h.2).symm,
    List.not_mem_of_not_mem_cons h.1, List.not_mem_of_not_mem_cons h.2⟩

theorem Unbroken.foldr_before {front : List Char} (h : Unbroken front) (ahead : LinesAhead) :
    front.foldr LinesAhead.before ahead =
      ⟨front ++ ahead.first, ahead.others, front.isEmpty && ahead.feedNext⟩ := by
  induction front with
  | nil => rfl
  | cons c front ih =>
    obtain ⟨notReturn, notFeed, later⟩ := h.of_cons
    rw [List.foldr_cons, ih later, LinesAhead.before, if_neg notFeed, if_neg notReturn]
    rfl

theorem Unbroken.lines_eq {line : List Char} (h : Unbroken line) : lines line = [line] := by
  rw [lines, h.foldr_before, LinesAhead.toList, LinesAhead.none, List.append_nil]

/-- Lines put one below the other, with a line feed between each two. -/
def unlines (lines : List (List Char)) : List Char := ['\n'].intercalate lines

theorem LinesAhead.unbroken_before {ahead : LinesAhead} (h : ∀ line ∈ ahead.toList, Unbroken line)
    (c : Char) : ∀ line ∈ (before c ahead).toList, Unbroken line := by
  have broken : ∀ feed, ∀ line ∈ (ahead.breakLine feed).toList, Unbroken line := by
    intro feed line hl
    cases hl with
    | head => exact unbroken_nil
    | tail _ hl => exact h line hl
  unfold before
  split
  · exact broken true
  · split
    · split
      · exact h
      · exact broken false
    · rename_i notFeed notReturn
      intro line hl
      cases hl with
      | head => exact (h _ List.mem_cons_self).cons notReturn notFeed
      | tail _ hl => exact h line (List.mem_cons_of_mem _ hl)

theorem unbroken_of_mem_lines {text line : List Char} (h : line ∈ lines text) :
    Unbroken line := by
  induction text generalizing line with
  | nil =>
    cases List.mem_singleton.mp h
    exact unbroken_nil
  | cons c text ih => exact LinesAhead.unbroken_before (fun _ hl => ih hl) c line h

end Text

namespace Content

inductive Joins : (upper lower whole : Content) → Prop
  | text (upper lower : List Char) : Joins (.text upper) (.text lower)
      (.text (upper ++ '\n' :: lower))
  | bytes (upper lower : Text.Utf8.Bytes) : Joins (.bytes upper) (.bytes lower)
      (.bytes (upper ++ 10 :: lower))

theorem Joins.chars_eq {upper lower whole : Content} (h : Joins upper lower whole) :
    whole.chars = upper.chars ++ '\n' :: lower.chars := by
  cases h with
  | text => rfl
  | bytes upper lower => exact Text.Utf8.decode_append_lineFeed upper lower

theorem Joins.lines_eq {upper lower whole : Content} (h : Joins upper lower whole)
    (noReturn : upper.chars.getLast? ≠ some '\r') :
    whole.lines = upper.lines ++ lower.lines := by
  rw [lines, h.chars_eq, Text.lines_append_lineFeed noReturn, lines, lines]

end Content
end VibeLens
