import Mathlib.Data.List.Induction
import Mathlib.Data.Nat.Digits.Defs
import Adjacency.Codec

/-!
# Frames

A length-prefixed code is a header with as many bytes as it announces. Read as a signed byte the
header has the sign of the integer, and the bytes behind it are the digits of the magnitude, the
most significant first. There are at most eight of them; unsigned integers have no negative header,
and signed ones stay in the range of 64 bits (`IsFrame`).

The reader takes every frame and nothing else (`decode_of_isFrame`, `exists_isFrame_of_decode`),
also leading zeros and a zero with a sign. A frame that is no longer than the code of its integer is
that code (`IsFrame.eq_code`).
-/

namespace Adjacency

namespace LengthPrefixed

/-- The number of bytes that a header announces, with the sign of the integer. -/
def announced (header : UInt8) : Int := header.toInt8.toInt

/-- The number whose bytes are `body`, the most significant first. -/
def magnitude (body : List UInt8) : Nat := Nat.ofDigits 256 (body.reverse.map UInt8.toNat)

/-- The integer that a header and the bytes behind it write. -/
def value (header : UInt8) (body : List UInt8) : Int :=
  if announced header < 0 then -(magnitude body : Int) else magnitude body

/-- A header and as many bytes as it announces. Only signed integers have a negative header, and
their magnitude is bounded. -/
structure IsFrame (s : Signedness) (header : UInt8) (body : List UInt8) : Prop where
  ge : (match s with | .unsigned => 0 | .signed => -8) ≤ announced header
  le : announced header ≤ 8
  length_eq : body.length = (announced header).natAbs
  range : s = .signed → -2 ^ 63 ≤ value header body ∧ value header body < 2 ^ 63

variable {s : Signedness} {header : UInt8} {body rest bytes : List UInt8} {v : Int} {len : Nat}

theorem announced_eq (header : UInt8) :
    announced header = if header.toNat < 128 then (header.toNat : Int) else header.toNat - 256 := by
  rw [announced, ← Int8.toInt_toBitVec, UInt8.toBitVec_toInt8, BitVec.toInt_eq_toNat_cond,
    UInt8.toNat_toBitVec]
  split <;> split <;> omega

/-! ## Magnitudes -/

theorem toNat_eq_magnitude (body : List UInt8) : BigEndian.toNat body = magnitude body := by
  induction body using List.reverseRecOn with
  | nil => rfl
  | append_singleton body b ih =>
    rw [BigEndian.toNat_concat, ih, magnitude, magnitude, List.reverse_concat, List.map_cons,
      Nat.ofDigits_cons, Nat.add_comm]

theorem magnitude_lt_pow (body : List UInt8) : magnitude body < 256 ^ body.length := by
  have hdigits : ∀ d ∈ body.reverse.map UInt8.toNat, d < 256 :=
    List.forall_mem_map.mpr fun b _ ↦ b.toNat_lt
  have hlt := Nat.ofDigits_lt_base_pow_length (by decide) hdigits
  rw [List.length_map, List.length_reverse] at hlt
  exact hlt

theorem eq_ofNat_magnitude (body : List UInt8) :
    body = BigEndian.ofNat body.length (magnitude body) := by
  induction body using List.reverseRecOn with
  | nil => rfl
  | append_singleton body b ih =>
    have hb := b.toNat_lt
    have hvalue : magnitude (body ++ [b]) = 256 * magnitude body + b.toNat := by
      rw [← toNat_eq_magnitude, BigEndian.toNat_concat, toNat_eq_magnitude]
    have hhigh : (256 * magnitude body + b.toNat) / 256 = magnitude body := by omega
    have hlow : (256 * magnitude body + b.toNat) % 256 = b.toNat := by omega
    rw [hvalue, List.length_append, List.length_singleton, BigEndian.ofNat, hhigh, hlow, ← ih,
      UInt8.ofNat_toNat]

/-! ## Reading frames -/

theorem announced_neg_iff : announced header < 0 ↔ 128 ≤ header.toNat := by
  have hlt := header.toNat_lt
  rw [announced_eq]
  split <;> omega

theorem natAbs_announced (header : UInt8) :
    (announced header).natAbs
      = if announced header < 0 then 256 - header.toNat else header.toNat := by
  have hlt := header.toNat_lt
  rw [announced_eq]
  split <;> split <;> omega

theorem split_cons (header : UInt8) (rest : List UInt8) :
    split (header :: rest) =
      if 8 < (announced header).natAbs then .error .lengthTooLarge
      else if rest.length < (announced header).natAbs then .error .magnitudeTruncated
      else .ok (decide (announced header < 0),
        magnitude (rest.take (announced header).natAbs), (announced header).natAbs + 1) := by
  rw [split, natAbs_announced, ← toNat_eq_magnitude]
  simp only [decide_eq_true_eq, announced_neg_iff]

theorem split_of_length_eq (hlen : body.length = (announced header).natAbs) (hle : body.length ≤ 8)
    (rest : List UInt8) :
    split (header :: body ++ rest)
      = .ok (decide (announced header < 0), magnitude body, body.length + 1) := by
  rw [List.cons_append, split_cons, ← hlen, if_neg (Nat.not_lt_of_le hle),
    if_neg (by rw [List.length_append]; omega), List.take_left]

theorem exists_of_split {negative : Bool} {m : Nat} (h : split bytes = .ok (negative, m, len)) :
    ∃ header body rest, bytes = header :: body ++ rest ∧ body.length + 1 = len ∧
      body.length = (announced header).natAbs ∧ body.length ≤ 8 ∧
      decide (announced header < 0) = negative ∧ magnitude body = m := by
  rcases bytes with _ | ⟨header, bytes⟩
  · exact nomatch h
  rw [split_cons] at h
  split at h
  · exact nomatch h
  · next hle =>
    split at h
    · exact nomatch h
    · next hroom =>
      have hlen : (bytes.take (announced header).natAbs).length = (announced header).natAbs :=
        List.length_take_of_le (Nat.le_of_not_lt hroom)
      obtain ⟨rfl, hrest⟩ := Prod.mk.inj (Except.ok.inj h)
      obtain ⟨rfl, rfl⟩ := Prod.mk.inj hrest
      refine ⟨header, _, bytes.drop (announced header).natAbs, ?_, congrArg Nat.succ hlen, hlen,
        ?_, rfl, rfl⟩
      · rw [List.cons_append, List.take_append_drop]
      · rw [hlen]
        exact Nat.le_of_not_lt hle

theorem IsFrame.length_le (h : IsFrame s header body) : body.length ≤ 8 := by
  have hge := h.ge
  have hle := h.le
  rw [h.length_eq]
  cases s with
  | unsigned => dsimp only at hge; omega
  | signed => dsimp only at hge; omega

theorem decode_eq_ok_iff :
    Codec.lengthPrefixed.decode s bytes = .ok (v, len) ↔
      ∃ negative m, split bytes = .ok (negative, m, len) ∧
        (if negative then -(m : Int) else m) = v ∧
        match s with
        | .unsigned => negative = false
        | .signed => -2 ^ 63 ≤ v ∧ v < 2 ^ 63 := by
  rcases hsplit : split bytes with e | ⟨negative, m, k⟩
  · refine iff_of_false ?_ fun ⟨_, _, heq, _⟩ ↦ nomatch heq
    cases s with
    | unsigned => rw [Codec.decode, decodeUnsigned, hsplit]; rintro ⟨⟩
    | signed => rw [Codec.decode, decodeSigned, hsplit]; rintro ⟨⟩
  · simp only [Except.ok.injEq, Prod.mk.injEq, and_assoc, exists_eq_left', exists_and_left]
    cases s with
    | unsigned =>
      rw [Codec.decode, decodeUnsigned, hsplit]
      cases negative with
      | true => simp only [if_true, reduceCtorEq, Bool.true_eq_false, and_false]
      | false =>
        simp only [Bool.false_eq_true, if_false, Except.ok.injEq, Prod.mk.injEq, and_true]
        exact and_comm
    | signed =>
      rw [Codec.decode, decodeSigned, hsplit]
      cases negative with
      | true =>
        by_cases hm : 2 ^ 63 < m
        · simp only [if_true, hm, reduceCtorEq, false_iff]
          omega
        · simp only [if_true, if_neg hm, Except.ok.injEq, Prod.mk.injEq]
          omega
      | false =>
        by_cases hm : 2 ^ 63 ≤ m
        · simp only [Bool.false_eq_true, if_false, hm, if_true, reduceCtorEq, false_iff]
          omega
        · simp only [Bool.false_eq_true, if_false, if_neg hm, Except.ok.injEq, Prod.mk.injEq]
          omega

theorem decode_of_isFrame (h : IsFrame s header body) (rest : List UInt8) :
    Codec.lengthPrefixed.decode s (header :: body ++ rest)
      = .ok (value header body, body.length + 1) := by
  refine decode_eq_ok_iff.mpr ⟨_, _, split_of_length_eq h.length_eq h.length_le rest, ?_, ?_⟩
  · simp only [value, decide_eq_true_eq]
  · cases s with
    | unsigned => exact decide_eq_false (Int.not_lt.mpr h.ge)
    | signed => exact h.range rfl

theorem exists_isFrame_of_decode (h : Codec.lengthPrefixed.decode s bytes = .ok (v, len)) :
    ∃ header body rest, bytes = header :: body ++ rest ∧ body.length + 1 = len ∧
      IsFrame s header body ∧ value header body = v := by
  obtain ⟨negative, m, hsplit, hv, hsign⟩ := decode_eq_ok_iff.mp h
  obtain ⟨header, body, rest, rfl, hk, hlen, hle, rfl, rfl⟩ := exists_of_split hsplit
  have hvalue : value header body = v := by
    simp only [decide_eq_true_eq] at hv
    exact hv
  refine ⟨header, body, rest, rfl, hk, ⟨?_, by omega, hlen, ?_⟩, hvalue⟩
  · cases s with
    | unsigned => exact Int.not_lt.mp (of_decide_eq_false hsign)
    | signed => dsimp only; omega
  · rintro rfl
    rw [hvalue]
    exact hsign

/-! ## One frame for each integer and length -/

theorem IsFrame.admits (h : IsFrame s header body) : s.Admits (value header body) := by
  cases s with
  | unsigned =>
    have hlt := magnitude_lt_pow body
    have hpow : 256 ^ body.length ≤ 256 ^ 8 := Nat.pow_le_pow_right (by decide) h.length_le
    rw [value, if_neg (Int.not_lt.mpr h.ge)]
    exact ⟨Int.natCast_nonneg _, by omega⟩
  | signed => exact h.range rfl

theorem natAbs_value (header : UInt8) (body : List UInt8) :
    (value header body).natAbs = magnitude body := by
  rw [value]
  split
  · rw [Int.natAbs_neg, Int.natAbs_natCast]
  · rw [Int.natAbs_natCast]

theorem width_le_of_lt_pow {n : Nat} (h : n < 256 ^ len) : width n ≤ len := by
  unfold width
  split
  · exact Nat.zero_le _
  · next hn =>
    rw [show (256 : Nat) = 2 ^ 8 from rfl, ← Nat.pow_mul] at h
    have hlog := (Nat.log2_lt hn).mpr h
    omega

theorem size_value_le (header : UInt8) (body : List UInt8) :
    size (value header body) ≤ body.length + 1 := by
  rw [size, natAbs_value, Nat.add_comm]
  exact Nat.succ_le_succ (width_le_of_lt_pow (magnitude_lt_pow body))

theorem header_announced (header : UInt8) :
    LengthPrefixed.header (announced header < 0) (announced header).natAbs = header := by
  have hlt := header.toNat_lt
  rw [LengthPrefixed.header, natAbs_announced]
  by_cases hneg : announced header < 0
  · have hge := announced_neg_iff.mp hneg
    rw [if_pos hneg, decide_eq_true hneg, if_pos rfl, Nat.sub_sub_self (Nat.le_of_lt hlt),
      UInt8.ofNat_toNat]
  · rw [if_neg hneg, decide_eq_false hneg, if_neg Bool.false_ne_true, UInt8.ofNat_toNat]

theorem IsFrame.eq_code (h : IsFrame s header body)
    (hsize : body.length + 1 = size (value header body)) :
    header :: body = code (value header body) := by
  have hwidth : width (value header body).natAbs = body.length := by
    rw [size] at hsize
    omega
  -- The sign of a header is that of the integer, since zero announces no bytes.
  have hsign : value header body < 0 ↔ announced header < 0 := by
    have hzero : magnitude body = 0 → announced header = 0 := by
      intro hzero
      rw [natAbs_value, hzero, width, if_pos rfl, h.length_eq] at hwidth
      exact Int.natAbs_eq_zero.mp hwidth.symm
    rw [value]
    split <;> omega
  rw [← sized_width, sized, hwidth, natAbs_value, ← eq_ofNat_magnitude]
  simp only [hsign]
  rw [h.length_eq, header_announced]

end LengthPrefixed

end Adjacency
