import Adjacency.Lifecycle
import Mathlib.Data.Nat.Log
import Mathlib.Order.Bounds.Basic

/-!
# The room a node starts with

A node starts with room for twice the mean number of relationships, rounded up to a power of two.
Rounding up is adjoint to the powers: a number is not above `2 ^ k` exactly if its power of two is
not (`leastPowerOfTwo_le_iff`). So the power grows with the number, and no other lies between them.

In words neither step can always be made. Twice the mean may be beyond 64 bits, and above `2 ^ 63`
there is no power of two that a word holds. The doubling then stops at the top, and `2 ^ 63` stands
in for the power. Both come to the same as stopping at `2 ^ 63` once, after unbounded arithmetic
(`Sizing.estimatedFanOut_eq_getD`), so the order of the estimates is not broken at the border.
-/

namespace Adjacency

variable {n m k : Nat}

/-! ## Powers of two -/

theorem leastPowerOfTwo_eq_two_pow_clog (n : Nat) : leastPowerOfTwo n = 2 ^ Nat.clog 2 n := by
  rw [leastPowerOfTwo]
  split
  · next h => rw [Nat.clog_of_right_le_one h, Nat.pow_zero]
  · next h =>
    have hpred : n - 1 ≠ 0 := by omega
    congr 1
    apply Nat.le_antisymm
    · rw [Nat.succ_le_iff, Nat.lt_clog_iff_pow_lt Nat.one_lt_two]
      have hlog := Nat.log2_self_le hpred
      omega
    · rw [Nat.clog_le_iff_le_pow Nat.one_lt_two]
      have hlog := Nat.lt_log2_self (n := n - 1)
      omega

theorem le_leastPowerOfTwo (n : Nat) : n ≤ leastPowerOfTwo n := by
  rw [leastPowerOfTwo_eq_two_pow_clog]
  exact Nat.le_pow_clog Nat.one_lt_two n

/-- **Rounding up to a power of two is adjoint to the powers of two.** -/
theorem leastPowerOfTwo_le_iff : leastPowerOfTwo n ≤ 2 ^ k ↔ n ≤ 2 ^ k := by
  rw [leastPowerOfTwo_eq_two_pow_clog, Nat.pow_le_pow_iff_right Nat.one_lt_two,
    Nat.clog_le_iff_le_pow Nat.one_lt_two]

theorem isLeast_leastPowerOfTwo (n : Nat) :
    IsLeast {p : Nat | p.isPowerOfTwo ∧ n ≤ p} (leastPowerOfTwo n) := by
  constructor
  · exact ⟨⟨_, leastPowerOfTwo_eq_two_pow_clog n⟩, le_leastPowerOfTwo n⟩
  · rintro _ ⟨⟨k, rfl⟩, hle⟩
    exact leastPowerOfTwo_le_iff.mpr hle

theorem leastPowerOfTwo_mono (h : n ≤ m) : leastPowerOfTwo n ≤ leastPowerOfTwo m := by
  obtain ⟨⟨k, hk⟩, hle⟩ := (isLeast_leastPowerOfTwo m).1
  rw [hk] at hle ⊢
  exact leastPowerOfTwo_le_iff.mpr (Nat.le_trans h hle)

theorem two_pow_succ_le_leastPowerOfTwo (h : 2 ^ k < n) : 2 ^ (k + 1) ≤ leastPowerOfTwo n := by
  rw [leastPowerOfTwo_eq_two_pow_clog, Nat.pow_le_pow_iff_right Nat.one_lt_two]
  exact (Nat.lt_clog_iff_pow_lt Nat.one_lt_two).mpr h

/-- The least power of two that is not below `n`, if a word holds it. -/
def leastPowerOfTwo? (n : Nat) : Option Nat :=
  if leastPowerOfTwo n ≤ Word.max then some (leastPowerOfTwo n) else none

/-- **Words hold the powers of two up to `2 ^ 63`,** and above that there is none to be had. -/
theorem leastPowerOfTwo?_getD (n : Nat) :
    (leastPowerOfTwo? n).getD (2 ^ 63) = min (leastPowerOfTwo n) (2 ^ 63) := by
  rw [leastPowerOfTwo?, Word.max]
  by_cases h : n ≤ 2 ^ 63
  · have hpower := leastPowerOfTwo_le_iff.mpr h
    rw [if_pos (by omega), Option.getD_some, Nat.min_eq_left hpower]
  · have hpower := two_pow_succ_le_leastPowerOfTwo (Nat.lt_of_not_le h)
    rw [if_neg (by omega), Option.getD_none, Nat.min_eq_right (by omega)]

namespace Sizing

variable {totalNodes totalRels minFanOut : UInt64}

/-! ## The estimate -/

/-- **The estimate is found in words,** by a doubling that stops at the top and a power of two that
may not be there. -/
theorem estimatedFanOut_eq_getD (totalNodes totalRels minFanOut : UInt64) :
    estimatedFanOut totalNodes totalRels minFanOut
      = max ((leastPowerOfTwo? (Word.saturate
          (2 * (totalRels.toNat / max totalNodes.toNat 1)))).getD (2 ^ 63)) minFanOut.toNat := by
  rw [estimatedFanOut, leastPowerOfTwo?_getD]
  congr 1
  by_cases h : 2 * (totalRels.toNat / max totalNodes.toNat 1) ≤ Word.max
  · rw [Word.saturate_of_le h]
  · -- A doubling that was stopped is above `2 ^ 63` like the one that was not.
    have htop : (2 : Nat) ^ 63 < Word.max := by decide
    have hstopped := two_pow_succ_le_leastPowerOfTwo htop
    have hpower := two_pow_succ_le_leastPowerOfTwo (Nat.lt_trans htop (Nat.lt_of_not_le h))
    rw [Word.saturate, Nat.min_eq_right (Nat.le_of_not_le h)]
    omega

theorem estimatedFanOut_le (totalNodes totalRels minFanOut : UInt64) :
    estimatedFanOut totalNodes totalRels minFanOut ≤ Word.max := by
  have hmin := minFanOut.toNat_lt
  rw [estimatedFanOut, Word.max]
  omega

theorem two_mul_div_le_estimatedFanOut
    (h : estimatedFanOut totalNodes totalRels minFanOut < 2 ^ 63) :
    2 * (totalRels.toNat / max totalNodes.toNat 1)
      ≤ estimatedFanOut totalNodes totalRels minFanOut := by
  have hpower := le_leastPowerOfTwo (2 * (totalRels.toNat / max totalNodes.toNat 1))
  rw [estimatedFanOut] at h ⊢
  omega

theorem estimatedFanOut_mono {fewerNodes moreRels higherFloor : UInt64}
    (hnodes : fewerNodes ≤ totalNodes) (hrels : totalRels ≤ moreRels)
    (hfloor : minFanOut ≤ higherFloor) :
    estimatedFanOut totalNodes totalRels minFanOut
      ≤ estimatedFanOut fewerNodes moreRels higherFloor := by
  rw [UInt64.le_iff_toNat_le] at hnodes hrels hfloor
  have hmean : totalRels.toNat / max totalNodes.toNat 1
      ≤ moreRels.toNat / max fewerNodes.toNat 1 :=
    Nat.div_le_div hrels (by omega) (by omega)
  have hpower := leastPowerOfTwo_mono (Nat.mul_le_mul_left 2 hmean)
  rw [estimatedFanOut, estimatedFanOut]
  omega

section

variable (hnodes : 0 < totalNodes.toNat)

include hnodes

theorem estimatedFanOut_of_le (hmean : totalRels.toNat / totalNodes.toNat ≤ 2 ^ 62) :
    estimatedFanOut totalNodes totalRels minFanOut
      = max minFanOut.toNat (leastPowerOfTwo (2 * (totalRels.toNat / totalNodes.toNat))) := by
  have hpower : leastPowerOfTwo (2 * (totalRels.toNat / totalNodes.toNat)) ≤ 2 ^ 63 :=
    leastPowerOfTwo_le_iff.mpr (by omega)
  rw [estimatedFanOut, Nat.max_eq_left hnodes, Nat.min_eq_left hpower, Nat.max_comm]

theorem estimatedFanOut_of_lt (hmean : 2 ^ 62 < totalRels.toNat / totalNodes.toNat) :
    estimatedFanOut totalNodes totalRels minFanOut = max minFanOut.toNat (2 ^ 63) := by
  have hpower := le_leastPowerOfTwo (2 * (totalRels.toNat / totalNodes.toNat))
  rw [estimatedFanOut, Nat.max_eq_left hnodes, Nat.min_eq_right (by omega), Nat.max_comm]

theorem totalRels_le_estimatedFanOut_mul (hmean : totalRels.toNat / totalNodes.toNat ≤ 2 ^ 62) :
    totalRels.toNat ≤ estimatedFanOut totalNodes totalRels minFanOut * totalNodes.toNat := by
  -- The division loses less than a relationship for each node. What it loses has room because the
  -- mean is doubled, and where there is nothing to double the power is one.
  have hroom : totalRels.toNat / totalNodes.toNat + 1
      ≤ leastPowerOfTwo (2 * (totalRels.toNat / totalNodes.toNat)) := by
    obtain ⟨⟨k, hk⟩, hle⟩ :=
      (isLeast_leastPowerOfTwo (2 * (totalRels.toNat / totalNodes.toNat))).1
    have hpos := Nat.two_pow_pos k
    omega
  calc totalRels.toNat
      ≤ (totalRels.toNat / totalNodes.toNat + 1) * totalNodes.toNat := by
        rw [Nat.mul_comm]
        exact Nat.le_of_lt (Nat.lt_mul_div_succ _ hnodes)
    _ ≤ estimatedFanOut totalNodes totalRels minFanOut * totalNodes.toNat := by
        refine Nat.mul_le_mul_right _ ?_
        rw [estimatedFanOut_of_le hnodes hmean]
        omega

end

/-- How a fan-out comes from the totals and the floor, and what it is good for. -/
structure Estimated (totalNodes totalRels minFanOut : UInt64) : Prop where
  /-- The steps in words, of which the second may not give a power. -/
  words : estimatedFanOut totalNodes totalRels minFanOut
    = max ((leastPowerOfTwo? (Word.saturate
        (2 * (totalRels.toNat / totalNodes.toNat)))).getD (2 ^ 63)) minFanOut.toNat
  /-- Up to the border it is the least power of two with room for twice the mean, or the floor. -/
  up_to : totalRels.toNat / totalNodes.toNat ≤ 2 ^ 62 → ∃ power,
    IsLeast {p : Nat | p.isPowerOfTwo ∧ 2 * (totalRels.toNat / totalNodes.toNat) ≤ p} power ∧
      estimatedFanOut totalNodes totalRels minFanOut = max minFanOut.toNat power
  beyond : 2 ^ 62 < totalRels.toNat / totalNodes.toNat →
    estimatedFanOut totalNodes totalRels minFanOut = max minFanOut.toNat (2 ^ 63)
  grows_rels : ∀ moreRels, totalRels ≤ moreRels →
    estimatedFanOut totalNodes totalRels minFanOut ≤ estimatedFanOut totalNodes moreRels minFanOut
  grows_floor : ∀ higherFloor, minFanOut ≤ higherFloor →
    estimatedFanOut totalNodes totalRels minFanOut
      ≤ estimatedFanOut totalNodes totalRels higherFloor
  shrinks_nodes : ∀ moreNodes, totalNodes ≤ moreNodes →
    estimatedFanOut moreNodes totalRels minFanOut ≤ estimatedFanOut totalNodes totalRels minFanOut
  /-- Up to the border all nodes together have room for all relationships. -/
  room : totalRels.toNat / totalNodes.toNat ≤ 2 ^ 62 →
    totalRels.toNat ≤ estimatedFanOut totalNodes totalRels minFanOut * totalNodes.toNat

/-- **The fan-out of a store with nodes** is the least power of two with room for twice the mean
number of relationships, stopped at `2 ^ 63` and raised to the floor. It keeps the order of its
arguments also across the border, and below the border all relationships have room. -/
theorem estimated_of_pos (hnodes : 1 ≤ totalNodes) (totalRels minFanOut : UInt64) :
    Estimated totalNodes totalRels minFanOut := by
  have hpos : 0 < totalNodes.toNat := UInt64.le_iff_toNat_le.mp hnodes
  refine ⟨?_, fun hmean ↦ ⟨_, isLeast_leastPowerOfTwo _, estimatedFanOut_of_le hpos hmean⟩,
    estimatedFanOut_of_lt hpos, ?_, ?_, ?_, totalRels_le_estimatedFanOut_mul hpos⟩
  · rw [estimatedFanOut_eq_getD, Nat.max_eq_left hpos]
  · intro moreRels h
    exact estimatedFanOut_mono (UInt64.le_refl _) h (UInt64.le_refl _)
  · intro higherFloor h
    exact estimatedFanOut_mono (UInt64.le_refl _) (UInt64.le_refl _) h
  · intro moreNodes h
    exact estimatedFanOut_mono h (UInt64.le_refl _) (UInt64.le_refl _)

/-- At the border the division has lost two relationships of three nodes, and the next power of two
would no longer be a word. -/
theorem estimated_at_border :
    (1 : UInt64) ≤ 3 ∧ Estimated 3 (UInt64.ofNat (3 * 2 ^ 62 + 2)) 4 ∧
      estimatedFanOut 3 (UInt64.ofNat (3 * 2 ^ 62 + 2)) 4 = 2 ^ 63 ∧
      estimatedFanOut 3 (UInt64.ofNat (3 * 2 ^ 62 + 3)) 4 = 2 ^ 63 :=
  ⟨by decide, estimated_of_pos (by decide) _ _, by decide +kernel, by decide +kernel⟩

end Sizing

end Adjacency
