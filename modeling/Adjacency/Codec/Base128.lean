import Adjacency.Error
import Adjacency.Word

/-!
# Base-128 codes

A natural number is written in groups of seven bits, the lowest group first. Every byte but the last
carries the flag `128`, so a code shows where it ends. Numbers of 64 bits take at most ten groups,
and the tenth has room for one bit only.

The number of groups is known in advance (`size`), so a code can be laid into a buffer group by
group (`groups`) as well as produced by repeated division (`code`). Both give the same bytes
(`groups_size`), and a code reads back whatever follows it (`decodeWithin_code`).
-/

namespace Adjacency

namespace Base128

/-- The longest code of a 64-bit number. -/
def maxLen : Nat := 10

/-- The number of groups `n` takes: its binary length in sevenths, rounded up. -/
def size (n : Nat) : Nat := n.log2 / 7 + 1

/-- The code of `n`. -/
def code (n : Nat) : List UInt8 :=
  if n < 128 then [UInt8.ofNat n] else UInt8.ofNat (n % 128 + 128) :: code (n / 128)
decreasing_by omega

/-- The lowest `len` groups of `n`, flagged as a code of that length. -/
def groups : (len : Nat) → Nat → List UInt8
  | 0, _ => []
  | 1, n => [UInt8.ofNat (n % 128)]
  | len + 2, n => UInt8.ofNat (n % 128 + 128) :: groups (len + 1) (n / 128)

/-- Reads a code that may still take `room` bytes: the number and the length of its code. -/
def decodeWithin : (room : Nat) → List UInt8 → Except Inconsistency (Nat × Nat)
  | 0, _ => .error .varintTooLong
  | _ + 1, [] => .error .varintTruncated
  | room + 1, b :: rest =>
    -- The last byte there is room for holds one bit of the number, flagged or not.
    if room = 0 ∧ 1 < b.toNat % 128 then .error .varintOverflow
    else if b.toNat < 128 then .ok (b.toNat, 1)
    else match decodeWithin room rest with
      | .ok (n, len) => .ok (b.toNat % 128 + 128 * n, len + 1)
      | .error e => .error e

/-- Reads the code at the front of a list: the number and the length of its code. -/
def decode (bytes : List UInt8) : Except Inconsistency (Nat × Nat) := decodeWithin maxLen bytes

@[simp] theorem length_groups (len n : Nat) : (groups len n).length = len := by
  fun_induction groups len n with
  | case1 => rfl
  | case2 => rfl
  | case3 len n ih => simp [ih]

theorem size_of_lt {n : Nat} (h : n < 128) : size n = 1 := by
  have : n.log2 < 7 := by
    rcases Nat.eq_zero_or_pos n with rfl | hn
    · decide
    · exact (Nat.log2_lt (by omega)).2 h
  simp only [size]
  omega

theorem size_of_ge {n : Nat} (h : 128 ≤ n) : size n = size (n / 128) + 1 := by
  have hlog : n.log2 = (n / 128).log2 + 7 := by
    have hlow : 2 ^ ((n / 128).log2 + 7) ≤ n := by
      have := Nat.log2_self_le (n := n / 128) (by omega)
      rw [Nat.pow_add]
      omega
    have hhigh : n < 2 ^ ((n / 128).log2 + 7 + 1) := by
      have := Nat.lt_log2_self (n := n / 128)
      rw [show (n / 128).log2 + 7 + 1 = (n / 128).log2 + 1 + 7 by omega, Nat.pow_add]
      omega
    have h1 := (Nat.le_log2 (by omega)).2 hlow
    have h2 := (Nat.log2_lt (by omega)).2 hhigh
    omega
  simp only [size, hlog]
  omega

theorem length_code (n : Nat) : (code n).length = size n := by
  fun_induction code n with
  | case1 n h => rw [size_of_lt h]; rfl
  | case2 n h ih => rw [size_of_ge (by omega), List.length_cons, ih]

theorem groups_size (n : Nat) : groups (size n) n = code n := by
  fun_induction code n with
  | case1 n h => rw [size_of_lt h, groups, Nat.mod_eq_of_lt h]
  | case2 n h ih =>
    rw [size_of_ge (by omega), ← ih]
    cases hs : size (n / 128) with
    | zero => simp [size] at hs
    | succ len => rfl

/-- A code reads back, whatever follows it, if there is room for all its groups and one binary digit
in the last. -/
theorem decodeWithin_code {room n : Nat} (h : n < 2 * 128 ^ room) (rest : List UInt8) :
    decodeWithin (room + 1) (code n ++ rest) = .ok (n, size n) := by
  induction room generalizing n with
  | zero =>
    have : n < 2 := h
    rw [code, if_pos (by omega), size_of_lt (by omega)]
    have hn : (UInt8.ofNat n).toNat = n := by rw [UInt8.toNat_ofNat']; omega
    simp only [List.cons_append, decodeWithin, hn]
    rw [if_neg (by omega), if_pos (by omega)]
  | succ room ih =>
    rw [Nat.pow_succ] at h
    rw [code]
    split
    · next hlt =>
      have hn : (UInt8.ofNat n).toNat = n := by rw [UInt8.toNat_ofNat']; omega
      simp only [List.cons_append, decodeWithin, hn]
      rw [if_neg (by omega), if_pos hlt, size_of_lt hlt]
    · next hge =>
      have hn : (UInt8.ofNat (n % 128 + 128)).toNat = n % 128 + 128 := by
        rw [UInt8.toNat_ofNat']; omega
      rw [List.cons_append, decodeWithin, hn, if_neg (by omega), if_neg (by omega), ih (by omega)]
      simp only [size_of_ge (n := n) (by omega), Except.ok.injEq, Prod.mk.injEq, and_true]
      omega

end Base128

end Adjacency
