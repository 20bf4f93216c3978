import VibeLens.Proofs.Text.Breaks
import VibeLens.Proofs.Text.Encoding

set_option autoImplicit false

/-!
Lines of bytes. Whatever is ill-formed among bytes, it never reaches over a line break and never
becomes one: a carriage return and a line feed give up the sequence that is under way, and nothing
else decodes to them. So bytes may be cut at their breaks before they are decoded.
-/

namespace VibeLens.Text.Utf8

/-! ### Bytes without a break -/

theorem eq_of_ofNat_eq {n : Nat} {c : Char} (same : Char.ofNat n = c) (notZero : c.toNat ≠ 0) :
    n = c.toNat := by
  subst same
  by_cases valid : n.isValidChar
  · rw [Char.ofNat, dif_pos valid]
    rfl
  · exact absurd (by simp [Char.ofNat, valid]) notZero

theorem Unbroken.cons_ofNat {line : List Char} (h : Unbroken line) {n : Nat} (notReturn : n ≠ 13)
    (notFeed : n ≠ 10) : Unbroken (Char.ofNat n :: line) :=
  h.cons (fun same => notReturn (eq_of_ofNat_eq same (by decide)))
    (fun same => notFeed (eq_of_ofNat_eq same (by decide)))

namespace Decoder

variable {d : Decoder}

theorem unbroken_replace (h : Unbroken d.produced) : Unbroken d.replace.produced :=
  h.cons (by decide) (by decide)

theorem unbroken_lead (h : Unbroken d.produced) {byte : Nat} (notReturn : byte ≠ 13)
    (notFeed : byte ≠ 10) : Unbroken (d.lead byte).produced :=
  lead_cases (R := fun _ d => Unbroken d.produced) (d := d) byte
    (fun _ => Unbroken.cons_ofNat h notReturn notFeed) (unbroken_replace h) fun _ _ _ _ _ => h

theorem unbroken_feed (high : d.AwaitsHigh) (h : Unbroken d.produced) {byte : UInt8}
    (notReturn : byte ≠ 13) (notFeed : byte ≠ 10) : Unbroken (d.feed byte).produced := by
  have noReturn : byte.toNat ≠ 13 := fun same => notReturn (UInt8.toNat.inj same)
  have noFeed : byte.toNat ≠ 10 := fun same => notFeed (UInt8.toNat.inj same)
  refine feed_cases (R := fun _ d => Unbroken d.produced) (d := d) rfl byte ?_ ?_ ?_ ?_
  · exact fun _ => unbroken_lead h noReturn noFeed
  · intro p waiting low missing
    have := (high p waiting).last missing
    exact Unbroken.cons_ofNat h (by omega) (by omega)
  · exact fun _ _ _ => h
  · exact fun _ _ => unbroken_lead (unbroken_replace h) noReturn noFeed

theorem unbroken_foldl (high : d.AwaitsHigh) (h : Unbroken d.produced) {raw : Bytes}
    (isRow : IsRow raw) : Unbroken (raw.foldl feed d).produced := by
  induction raw generalizing d with
  | nil => exact h
  | cons byte raw ih =>
    obtain ⟨notReturn, notFeed, later⟩ := isRow_cons_iff.mp isRow
    exact ih (high.feed byte) (unbroken_feed high h notReturn notFeed) later

theorem unbroken_finish (h : Unbroken d.produced) : Unbroken d.finish.produced := by
  rw [finish]
  split
  · exact h
  · exact unbroken_replace h

theorem extent_feed_pos (d : Decoder) (byte : UInt8) : 0 < (d.feed byte).extent := by
  have lead (d : Decoder) (byte : Nat) : 0 < (d.lead byte).extent :=
    lead_cases (R := fun _ d => 0 < d.extent) (d := d) byte (fun _ => Nat.succ_pos _)
      (Nat.succ_pos _) fun _ _ _ _ _ => Nat.succ_pos _
  exact feed_cases (R := fun _ d => 0 < d.extent) (d := d) rfl byte (fun _ => lead d _)
    (fun _ _ _ _ => Nat.succ_pos _) (fun _ _ _ => Nat.succ_pos _) fun _ _ => lead d.replace _

end Decoder

theorem unbroken_decode {raw : Bytes} (isRow : IsRow raw) : Unbroken (decode raw) := by
  have produced := Decoder.unbroken_finish
    (Decoder.unbroken_foldl Decoder.awaitsHigh_start unbroken_nil isRow)
  exact ⟨fun mem => produced.1 (List.mem_reverse.mp mem),
    fun mem => produced.2 (List.mem_reverse.mp mem)⟩

theorem decode_ne_nil {raw : Bytes} (nonempty : raw ≠ []) : decode raw ≠ [] := by
  obtain ⟨front, byte, rfl⟩ := (List.eq_nil_or_concat' raw).resolve_left nonempty
  have length : (decode (front ++ [byte])).length =
      ((front.foldl Decoder.feed Decoder.start).feed byte).extent := by
    rw [decode, List.length_reverse, Decoder.run, Decoder.length_produced_finish,
      List.foldl_append]
    rfl
  exact List.ne_nil_of_length_pos (length ▸ Decoder.extent_feed_pos _ byte)

/-! ### Bytes cut at their breaks -/

theorem decode_append_break (upper lower : Bytes) (b : LineBreak) :
    decode (upper ++ (b.symbols ++ lower)) = decode upper ++ (b.symbols ++ decode lower) := by
  cases b with
  | returnFeed =>
    have feed : decode (10 :: lower) = '\n' :: decode lower :=
      decode_append_ascii [] lower (by decide)
    have ret : decode (upper ++ 13 :: 10 :: lower) = decode upper ++ '\r' :: decode (10 :: lower) :=
      decode_append_ascii upper (10 :: lower) (by decide)
    rw [feed] at ret
    exact ret
  | ret => exact decode_append_ascii upper lower (by decide)
  | feed => exact decode_append_ascii upper lower (by decide)

theorem head?_of_head?_decode {raw : Bytes} (h : (decode raw).head? = some '\n') :
    raw.head? = some 10 := by
  obtain ⟨breaks, woven⟩ := exists_woven_cut raw
  have isRow : ∀ piece ∈ cut raw, IsRow piece := fun _ mem => isRow_of_mem_cut mem
  generalize cut raw = pieces at woven isRow
  cases woven with
  | last =>
    have unbroken := unbroken_decode (isRow _ List.mem_cons_self)
    exact absurd (List.mem_of_head? h) unbroken.2
  | next piece b whole later =>
    rw [decode_append_break] at h
    cases piece with
    | nil => cases b <;> first | rfl | cases h
    | cons byte piece =>
      have unbroken := unbroken_decode (isRow _ List.mem_cons_self)
      rw [List.head?_append_of_ne_nil _ (decode_ne_nil (List.cons_ne_nil byte piece))] at h
      exact absurd (List.mem_of_head? h) unbroken.2

theorem woven_decode {pieces : List Bytes} {breaks : List LineBreak} {raw : Bytes}
    (woven : Woven pieces breaks raw) : Woven (pieces.map decode) breaks (decode raw) := by
  induction woven with
  | last piece => exact .last (decode piece)
  | next piece b whole _ ih =>
    rw [decode_append_break]
    exact .next (decode piece) b (fun alone head => whole alone (head?_of_head?_decode head)) ih

theorem lines_decode (raw : Bytes) : lines (decode raw) = (cut raw).map decode := by
  obtain ⟨breaks, woven⟩ := exists_woven_cut raw
  apply (woven_decode woven).lines_eq
  intro line mem
  obtain ⟨piece, inside, rfl⟩ := List.mem_map.mp mem
  exact unbroken_decode (isRow_of_mem_cut inside)

end VibeLens.Text.Utf8
