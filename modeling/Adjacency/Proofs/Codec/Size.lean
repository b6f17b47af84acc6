import Adjacency.Codec

/-!
# How long codes are

No code is empty (`size_pos`), none of a 64-bit integer is longer than the codec allows
(`size_le_maxLen`), and among the integers that are not negative a larger one never has a shorter
code (`size_mono`). Zero is the single byte `0` (`code_zero`), which is what makes fresh memory
readable.
-/

namespace Adjacency

theorem log2_mono {m n : Nat} (h : m ≤ n) : m.log2 ≤ n.log2 := by
  rcases Nat.eq_zero_or_pos m with rfl | hm
  · rw [Nat.log2_zero]
    exact Nat.zero_le _
  · exact (Nat.le_log2 (by omega)).mpr (Nat.le_trans (Nat.log2_self_le (by omega)) h)

namespace Base128

theorem size_pos (n : Nat) : 0 < size n := Nat.succ_pos _

theorem size_mono {m n : Nat} (h : m ≤ n) : size m ≤ size n := by
  have hlog := log2_mono h
  rw [size, size]
  omega

theorem size_le_maxLen {n : Nat} (h : n < 2 ^ 64) : size n ≤ maxLen := by
  have hlog : n.log2 < 64 := by
    rcases Nat.eq_zero_or_pos n with rfl | hn
    · rw [Nat.log2_zero]
      omega
    · exact (Nat.log2_lt (by omega)).mpr h
  rw [size, maxLen]
  omega

end Base128

namespace LengthPrefixed

theorem width_mono {m n : Nat} (h : m ≤ n) : width m ≤ width n := by
  have hlog := log2_mono h
  unfold width
  split
  · exact Nat.zero_le _
  · rw [if_neg (by omega)]
    omega

end LengthPrefixed

namespace Signedness

theorem fold_mono {s : Signedness} {v w : Int} (hv : 0 ≤ v) (h : v ≤ w) : s.fold v ≤ s.fold w := by
  cases s with
  | unsigned => simp only [fold]; omega
  | signed => simp only [fold, ZigZag.toNat]; rw [if_pos hv, if_pos (by omega)]; omega

theorem Admits.natAbs_lt {s : Signedness} {v : Int} (h : s.Admits v) : v.natAbs < 2 ^ 64 := by
  cases s with
  | unsigned => simp only [Admits] at h; omega
  | signed => simp only [Admits] at h; omega

@[simp] theorem admits_zero (s : Signedness) : s.Admits 0 := by
  cases s <;> simp [Admits]

@[simp] theorem admits_toNat (v : UInt64) : Signedness.unsigned.Admits v.toNat := by
  have hlt := v.toNat_lt
  simp only [Admits]
  omega

@[simp] theorem admits_toInt (v : Int64) : Signedness.signed.Admits v.toInt :=
  ⟨v.le_toInt, v.toInt_lt⟩

end Signedness

namespace Codec

variable (c : Codec) {s : Signedness} {v w : Int}

theorem size_pos (s : Signedness) (v : Int) : 0 < c.size s v := by
  cases c with
  | base128 => exact Base128.size_pos _
  | lengthPrefixed => simp only [size, LengthPrefixed.size]; omega

theorem size_mono (hv : 0 ≤ v) (h : v ≤ w) : c.size s v ≤ c.size s w := by
  cases c with
  | base128 => exact Base128.size_mono (Signedness.fold_mono hv h)
  | lengthPrefixed =>
    have hwidth : LengthPrefixed.width v.natAbs ≤ LengthPrefixed.width w.natAbs :=
      LengthPrefixed.width_mono (by omega)
    simp only [size, LengthPrefixed.size]
    omega

theorem size_le_maxLen (h : s.Admits v) : c.size s v ≤ c.maxLen := by
  cases c with
  | base128 => exact Base128.size_le_maxLen (Signedness.fold_lt h)
  | lengthPrefixed =>
    have hwidth := LengthPrefixed.width_le h.natAbs_lt
    simp only [size, LengthPrefixed.size, maxLen, LengthPrefixed.maxLen]
    omega

theorem code_zero (s : Signedness) : c.code s 0 = [0] := by
  cases c with
  | base128 => cases s <;> rw [code, Base128.code] <;> rfl
  | lengthPrefixed => rw [code, LengthPrefixed.code, BigEndian.digits]; rfl

@[simp] theorem size_zero (s : Signedness) : c.size s 0 = 1 := by
  rw [← length_code, code_zero, List.length_singleton]

end Codec

end Adjacency
