import Adjacency.Bytes.BigEndian
import Adjacency.Error

/-!
# Length-prefixed codes

An integer is written as one header byte and its magnitude in big-endian bytes without leading
zeros. Read as a signed byte, the header is the number of magnitude bytes with the sign of the
integer. Zero is the header `0` alone.

The number of magnitude bytes is known in advance (`width`), so a code can be laid into a buffer
with the magnitude cut to that width (`sized`) as well as produced digit by digit (`code`). Both
give the same bytes (`sized_width`), and a code is taken apart again whatever follows it
(`split_code`).
-/

namespace Adjacency

namespace LengthPrefixed

/-- The longest code of a 64-bit number. -/
def maxLen : Nat := 9

/-- The number of magnitude bytes: the binary length in eighths, rounded up. -/
def width (magnitude : Nat) : Nat := if magnitude = 0 then 0 else magnitude.log2 / 8 + 1

/-- The length of the code of `v`. -/
def size (v : Int) : Nat := 1 + width v.natAbs

/-- The header byte of `n` magnitude bytes, in two's complement. -/
def header (negative : Bool) (n : Nat) : UInt8 := UInt8.ofNat (if negative then 256 - n else n)

/-- The code of `v`. -/
def code (v : Int) : List UInt8 :=
  let magnitude := BigEndian.digits v.natAbs
  header (v < 0) magnitude.length :: magnitude

/-- A code with exactly `n` magnitude bytes. -/
def sized (n : Nat) (v : Int) : List UInt8 := header (v < 0) n :: BigEndian.ofNat n v.natAbs

/-- Sign, magnitude and length of the code at the front of a list. -/
def split : List UInt8 → Except Inconsistency (Bool × Nat × Nat)
  | [] => .error .lengthMissing
  | h :: rest =>
    let negative := decide (128 ≤ h.toNat)
    let n := if negative then 256 - h.toNat else h.toNat
    if 8 < n then .error .lengthTooLarge
    else if rest.length < n then .error .magnitudeTruncated
    else .ok (negative, BigEndian.toNat (rest.take n), n + 1)

/-- Reads the code of a number without sign. -/
def decodeUnsigned (bytes : List UInt8) : Except Inconsistency (Nat × Nat) :=
  match split bytes with
  | .error e => .error e
  | .ok (negative, magnitude, len) =>
    if negative then .error .negativeUnsigned else .ok (magnitude, len)

/-- Reads the code of a signed 64-bit number, whose magnitude reaches one further below zero. -/
def decodeSigned (bytes : List UInt8) : Except Inconsistency (Int × Nat) :=
  match split bytes with
  | .error e => .error e
  | .ok (negative, magnitude, len) =>
    if negative then
      if 2 ^ 63 < magnitude then .error .magnitudeOverflow else .ok (-(magnitude : Int), len)
    else
      if 2 ^ 63 ≤ magnitude then .error .magnitudeOverflow else .ok ((magnitude : Int), len)

@[simp] theorem length_sized (n : Nat) (v : Int) : (sized n v).length = n + 1 := by
  simp [sized]

theorem length_digits (n : Nat) : (BigEndian.digits n).length = width n := by
  unfold width
  split
  · next h => rw [h, BigEndian.digits]; rfl
  · next h => exact BigEndian.length_digits h

theorem length_code (v : Int) : (code v).length = size v := by
  simp [code, size, length_digits, Nat.add_comm]

theorem sized_width (v : Int) : sized (width v.natAbs) v = code v := by
  rw [sized, code, ← length_digits, BigEndian.ofNat_length_digits]

theorem width_le {n : Nat} (h : n < 2 ^ 64) : width n ≤ 8 := by
  unfold width
  split
  · omega
  · next hn =>
    have := (Nat.log2_lt hn).2 h
    omega

theorem width_pos {n : Nat} (h : n ≠ 0) : 0 < width n := by
  rw [width, if_neg h]
  omega

theorem split_code {v : Int} (h : v.natAbs < 2 ^ 64) (rest : List UInt8) :
    split (code v ++ rest) = .ok (decide (v < 0), v.natAbs, size v) := by
  have hw := width_le h
  rw [code, List.cons_append, split, length_digits]
  by_cases hv : v < 0
  · have hpos : 0 < width v.natAbs := width_pos (by omega)
    have hh : (header true (width v.natAbs)).toNat = 256 - width v.natAbs := by
      simp only [header, if_true, UInt8.toNat_ofNat']
      omega
    have hn : 256 - (256 - width v.natAbs) = (BigEndian.digits v.natAbs).length := by
      rw [length_digits]; omega
    simp only [hv, decide_true, hh, show 128 ≤ 256 - width v.natAbs by omega, if_true, hn]
    rw [if_neg (by rw [length_digits]; omega), if_neg (by simp), List.take_left,
      BigEndian.toNat_digits, length_digits, size, Nat.add_comm]
  · have hh : (header false (width v.natAbs)).toNat = width v.natAbs := by
      simp only [header, UInt8.toNat_ofNat']
      simp only [Bool.false_eq_true, if_false]
      omega
    have hn : width v.natAbs = (BigEndian.digits v.natAbs).length := (length_digits _).symm
    simp only [hv, decide_false, hh, show ¬ 128 ≤ width v.natAbs by omega, Bool.false_eq_true,
      if_false]
    rw [if_neg (by omega), hn, if_neg (by simp), List.take_left, BigEndian.toNat_digits,
      length_digits, size, Nat.add_comm]

end LengthPrefixed

end Adjacency
