import Adjacency.Proofs.Codec.Size

/-!
# Codes grow with the magnitude

Folding numbers the signed words by the unsigned ones, each once. What the machine shifts and
exclusive-ors is the same numbering (`encode_eq_xor`, `decode_eq_xor`), and what it counts as
leading zeros gives the same lengths (`Base128.size_toNat`, `LengthPrefixed.width_toNat`).

A folded number is about twice its magnitude: one less below zero. So a number of smaller magnitude
has the smaller folded number, but of two opposite ones the negative is folded to less, and at the
border of seven digits its code is shorter by a byte. The length-prefixed codes do not see the sign.
-/

namespace Adjacency

namespace ZigZag

theorem toNat_lt (v : Int64) : toNat v.toInt < 2 ^ 64 :=
  Signedness.fold_lt (Signedness.admits_toInt v)

@[simp] theorem toNat_encode (v : Int64) : (encode v).toNat = toNat v.toInt :=
  UInt64.toNat_ofNat_of_lt' (toNat_lt v)

@[simp] theorem toInt_decode (z : UInt64) : (decode z).toInt = ofNat z.toNat := by
  have hz := z.toNat_lt
  apply Int64.toInt_ofInt_of_le
  · simp only [ofNat]; split <;> omega
  · simp only [ofNat]; split <;> omega

@[simp] theorem decode_encode (v : Int64) : decode (encode v) = v := by
  rw [← Int64.toInt_inj, toInt_decode, toNat_encode, ofNat_toNat]

@[simp] theorem encode_decode (z : UInt64) : encode (decode z) = z := by
  rw [← UInt64.toNat_inj, toNat_encode, toInt_decode, toNat_ofNat]

/-! ## By shifts and exclusive or -/

theorem natCast_toNat (v : Int) : (toNat v : Int) = if 0 ≤ v then 2 * v else -(2 * v) - 1 := by
  unfold toNat
  split <;> omega

theorem shiftRight_sign (v : Int64) : v >>> 63 = if 0 ≤ v.toInt then 0 else -1 := by
  have hlow := v.le_toInt
  have hhigh := v.toInt_lt
  have hshift : (v >>> 63).toInt = v.toInt / 2 ^ 63 := by
    rw [← Int64.toInt_toBitVec, Int64.toBitVec_shiftRight]
    exact BitVec.toInt_sshiftRight.trans (Int.shiftRight_eq_div_pow _ _)
  rw [← Int64.toInt_inj, hshift]
  split
  · rw [Int64.toInt_zero]
    omega
  · rw [show (-1 : Int64).toInt = -1 by decide]
    omega

theorem shiftLeft_one (v : Int64) : v <<< 1 = 2 * v := by
  rw [← Int64.toBitVec_inj, Int64.toBitVec_shiftLeft, Int64.toBitVec_mul, BitVec.mul_comm]
  exact BitVec.shiftLeft_eq_mul_twoPow _ 1

/-- **The numbering of the signed words is the shift that brings the sign into the lowest digit,**
with the other digits turned over below zero. -/
theorem encode_eq_xor (v : Int64) : encode v = ((v <<< 1) ^^^ (v >>> 63)).toUInt64 := by
  have hdouble : Int64.ofInt (2 * v.toInt) = 2 * v := by
    rw [Int64.ofInt_mul, Int64.ofInt_toInt]
    rfl
  rw [encode, ← Int64.toUInt64_ofNat', ← Int64.ofInt_eq_ofNat, natCast_toNat, shiftRight_sign,
    shiftLeft_one]
  split
  · rw [hdouble, Int64.xor_zero]
  · rw [Int64.xor_neg_one, Int64.not_eq_neg_sub, Int64.ofInt_sub, Int64.ofInt_neg, hdouble]
    rfl

/-- **The numbering is undone by the shift the other way,** with the digits turned over again at
the places that are odd. -/
theorem decode_eq_xor (z : UInt64) : decode z = (z >>> 1).toInt64 ^^^ -(z &&& 1).toInt64 := by
  have hhalf : (z >>> 1).toInt64 = Int64.ofInt (z.toNat / 2 : Nat) := by
    rw [← UInt64.ofNat_toNat (x := z >>> 1), UInt64.toInt64_ofNat', Int64.ofInt_eq_ofNat,
      UInt64.toNat_shiftRight]
    rfl
  have hlow : (z &&& 1).toInt64 = Int64.ofInt (z.toNat % 2 : Nat) := by
    rw [← UInt64.ofNat_toNat (x := z &&& 1), UInt64.toInt64_ofNat', Int64.ofInt_eq_ofNat,
      UInt64.toNat_and]
    exact congrArg _ (Nat.and_one_is_mod _)
  rw [decode, ofNat, hhalf, hlow]
  split
  · next h =>
    rw [h]
    exact Int64.xor_zero.symm
  · next h =>
    rw [show z.toNat % 2 = 1 by omega, Int64.ofInt_sub, Int64.ofInt_neg]
    exact (Int64.not_eq_neg_sub _).symm.trans Int64.xor_neg_one.symm

end ZigZag

/-! ## By leading zeros -/

/-- The digits of a word that are not leading zeros are one more than its binary logarithm. -/
theorem log2_toNat {v : UInt64} (h : v ≠ 0) : v.toNat.log2 + 1 = 64 - v.toBitVec.clz.toNat := by
  have hne : v.toBitVec ≠ 0#64 := fun hv ↦ h (UInt64.toBitVec_inj.mp hv)
  have hlow := BitVec.two_pow_sub_clz_le_toNat_of_ne_zero (by decide) hne
  have hhigh := BitVec.toNat_lt_two_pow_sub_clz (x := v.toBitVec)
  have hclz : v.toBitVec.clz.toNat < 64 := BitVec.clz_lt_iff_ne_zero.mpr hne
  change _ ≤ v.toNat at hlow
  change v.toNat < _ at hhigh
  have hpos : v.toNat ≠ 0 := fun hv ↦ h (UInt64.toNat_inj.mp hv)
  have hle := (Nat.le_log2 hpos).mpr hlow
  have hlt := (Nat.log2_lt hpos).mpr hhigh
  omega

theorem Base128.size_toNat (v : UInt64) :
    size v.toNat = (64 - (v ||| 1).toBitVec.clz.toNat + 6) / 7 := by
  have hne : v ||| 1 ≠ 0 := fun h ↦ by
    have hlow := congrArg UInt64.toNat h
    rw [UInt64.toNat_or] at hlow
    exact absurd (Nat.or_eq_zero_iff.mp hlow).2 (by decide)
  -- The lowest digit, set to give zero a digit as well, is below the highest one.
  have hlog : (v ||| 1).toNat.log2 = v.toNat.log2 := by
    have hpos : (v ||| 1).toNat ≠ 0 := fun h ↦ hne (UInt64.toNat_inj.mp h)
    refine Nat.le_antisymm (Nat.le_of_lt_succ ((Nat.log2_lt hpos).mpr ?_)) (log2_mono ?_)
    · rw [UInt64.toNat_or]
      exact Nat.or_lt_two_pow Nat.lt_log2_self (Nat.one_lt_two_pow (Nat.succ_ne_zero _))
    · rw [UInt64.toNat_or]
      exact Nat.left_le_or
  have hclz := log2_toNat hne
  rw [size, ← hclz, hlog]
  omega

theorem LengthPrefixed.width_toNat (v : UInt64) :
    width v.toNat = (64 - v.toBitVec.clz.toNat + 7) / 8 := by
  by_cases h : v = 0
  · subst h
    decide
  · have hpos : v.toNat ≠ 0 := fun hv ↦ h (UInt64.toNat_inj.mp hv)
    rw [width, if_neg hpos, ← log2_toNat h]
    omega

/-! ## The order of the lengths -/

theorem Signedness.fold_le_of_natAbs_lt {v w : Int} (h : v.natAbs < w.natAbs) :
    Signedness.signed.fold v ≤ Signedness.signed.fold w := by
  simp only [fold, ZigZag.toNat]
  split <;> split <;> omega

namespace Codec

theorem size_lengthPrefixed_le (s : Signedness) {v w : Int} (h : v.natAbs ≤ w.natAbs) :
    lengthPrefixed.size s v ≤ lengthPrefixed.size s w :=
  Nat.add_le_add_left (LengthPrefixed.width_mono h) 1

theorem size_le_of_natAbs_lt (c : Codec) {v w : Int} (h : v.natAbs < w.natAbs) :
    c.size .signed v ≤ c.size .signed w := by
  cases c with
  | base128 => exact Base128.size_mono (Signedness.fold_le_of_natAbs_lt h)
  | lengthPrefixed => exact size_lengthPrefixed_le .signed (Nat.le_of_lt h)

theorem size_zero_le (c : Codec) (s : Signedness) (v : Int) : c.size s 0 ≤ c.size s v := by
  rw [size_zero]
  exact c.size_pos s v

theorem push_zero (c : Codec) (s : Signedness) (out : Array UInt8) :
    c.push s 0 out = (out.push 0, 1) := by
  rw [push, code_zero]
  rfl

/-- The codes of words are as long as their magnitudes are large: from the one byte of zero up to
the longest code there is. -/
structure Graded (c : Codec) : Prop where
  unsigned : ∀ v w : UInt64, v ≤ w → c.sizeUInt64 v ≤ c.sizeUInt64 w
  signed : ∀ v w : Int64, v.toInt.natAbs < w.toInt.natAbs → c.sizeInt64 v ≤ c.sizeInt64 w
  zero_unsigned : ∀ out, c.pushUInt64 0 out = (out.push 0, 1)
  zero_signed : ∀ out, c.pushInt64 0 out = (out.push 0, 1)
  extent_unsigned : ∀ v : UInt64, c.sizeUInt64 0 ≤ c.sizeUInt64 v ∧ c.sizeUInt64 v ≤ c.maxLen
  extent_signed : ∀ v : Int64, c.sizeInt64 0 ≤ c.sizeInt64 v ∧ c.sizeInt64 v ≤ c.maxLen

theorem graded (c : Codec) : c.Graded where
  unsigned _ _ h :=
    c.size_mono (Int.natCast_nonneg _) (Int.ofNat_le.mpr (UInt64.le_iff_toNat_le.mp h))
  signed _ _ h := c.size_le_of_natAbs_lt h
  zero_unsigned := c.push_zero .unsigned
  zero_signed := c.push_zero .signed
  extent_unsigned v :=
    ⟨c.size_zero_le .unsigned _, c.size_le_maxLen (Signedness.admits_toNat v)⟩
  extent_signed v :=
    ⟨c.size_zero_le .signed _, c.size_le_maxLen (Signedness.admits_toInt v)⟩

/-- **The signed words are numbered by the unsigned ones, and a number of smaller magnitude has no
longer code.** Of two opposite numbers a length-prefixed code does not tell which is meant. -/
theorem graded_words :
    (∀ v, ZigZag.decode (ZigZag.encode v) = v) ∧ (∀ z, ZigZag.encode (ZigZag.decode z) = z) ∧
      (∀ c : Codec, c.Graded) ∧
      ∀ v w : Int64, v.toInt.natAbs ≤ w.toInt.natAbs →
        lengthPrefixed.sizeInt64 v ≤ lengthPrefixed.sizeInt64 w :=
  ⟨ZigZag.decode_encode, ZigZag.encode_decode, graded,
    fun _ _ ↦ size_lengthPrefixed_le .signed⟩

/-- Base-128 codes of opposite numbers differ at a border of seven digits. -/
example : base128.sizeInt64 64 = 2 ∧ base128.sizeInt64 (-64) = 1 := by decide

end Codec

end Adjacency
