import Mathlib.Algebra.Order.BigOperators.Group.List
import Mathlib.Algebra.Ring.Int.Defs
import Adjacency.Proofs.PairBlock.Lookup
import Adjacency.Proofs.RunLength.Cost

/-!
# Differences of ascending ids

The ids of a list without negative primary ids, once sorted, are ascending (`Pair.Ascending`). Their
differences are exact: no subtraction in 64 bits wraps around. They add up to the last id
(`sum_differences`), and this limits how large and how frequent they can be. None is larger than the
last id, and equal values make up a run in the primary buffer whose length can be written
(`count_lt_of_mem_runs`), even where the two values of the preamble join it.
-/

namespace Adjacency

open RunLength (Streak)

namespace Pair

/-- No primary id is negative, and none is less than one in front of it. -/
structure Ascending (ps : List Pair) : Prop where
  nonneg : ∀ p ∈ ps, 0 ≤ p.primary
  sorted : ps.Pairwise fun p q ↦ p.primary ≤ q.primary

variable {p q : Pair} {ps pairs : List Pair}

theorem ascending_sort (h : anyNegative pairs = false) : Ascending (sort pairs) where
  nonneg p hp := anyNegative_eq_false.mp h p ((perm_sort pairs).mem_iff.mp hp)
  sorted := sorted_sort pairs

theorem Ascending.of_cons (h : Ascending (p :: ps)) : Ascending ps where
  nonneg q hq := h.nonneg q (List.mem_cons_of_mem p hq)
  sorted := h.sorted.of_cons

theorem Ascending.toInt_sub (h : Ascending (p :: ps)) (hq : q ∈ ps) :
    (q.primary - p.primary).toInt = q.primary.toInt - p.primary.toInt :=
  Int64.toInt_sub_of_le _ _ (h.nonneg p List.mem_cons_self) (List.rel_of_pairwise_cons h.sorted hq)

theorem Ascending.isChain_toInt_sub (h : Ascending ps) :
    ps.IsChain fun p q ↦ (q.primary - p.primary).toInt = q.primary.toInt - p.primary.toInt := by
  refine (h.sorted.imp_of_mem ?_).isChain
  intro p q hp _ hle
  exact Int64.toInt_sub_of_le _ _ (h.nonneg p hp) hle

end Pair

namespace PairBlock

open Pair (Ascending)

variable {p : Pair} {ps : List Pair} {v : Int64} {r : Streak}

/-! ## Sums of differences -/

/-- How far each primary id is from the one before, or from zero. -/
def differences (prev : Option Pair) (ps : List Pair) : List Int64 :=
  (Pair.steps prev ps).map Step.primary

theorem primaryValues_eq (ps : List Pair) :
    primaryValues ps = lastOf ps :: Int64.ofNat ps.length :: differences none ps := rfl

theorem length_differences (prev : Option Pair) (ps : List Pair) :
    (differences prev ps).length = ps.length := by
  rw [differences, List.length_map, Pair.length_steps]

theorem differences_nonneg (h : Ascending ps) : ∀ v ∈ differences none ps, 0 ≤ v := by
  intro v hv
  obtain ⟨s, hs, rfl⟩ := List.mem_map.mp hv
  exact Pair.steps_nonneg h.nonneg (by rintro q ⟨⟩) h.sorted s hs

theorem lastOf_cons_cons (p q : Pair) (ps : List Pair) :
    lastOf (p :: q :: ps) = lastOf (q :: ps) := by
  rw [lastOf, lastOf, List.getLast?_cons_cons]

theorem sum_differences_from (h : Ascending (p :: ps)) :
    ((differences (some p) ps).map Int64.toInt).sum
      = (lastOf (p :: ps)).toInt - p.primary.toInt := by
  induction ps generalizing p with
  | nil =>
    show (0 : Int) = p.primary.toInt - p.primary.toInt
    omega
  | cons q ps ih =>
    show (q.primary - p.primary).toInt + ((differences (some q) ps).map Int64.toInt).sum = _
    rw [ih h.of_cons, h.toInt_sub List.mem_cons_self, lastOf_cons_cons]
    omega

theorem sum_differences (h : Ascending ps) :
    ((differences none ps).map Int64.toInt).sum = (lastOf ps).toInt := by
  cases ps with
  | nil => rfl
  | cons p ps =>
    show p.primary.toInt + ((differences (some p) ps).map Int64.toInt).sum = _
    rw [sum_differences_from h]
    omega

/-- **A difference that occurs often is small:** so many steps lead no further than to the last
id. -/
theorem count_mul_le_lastOf (h : Ascending ps) (v : Int64) :
    (differences none ps).count v * v.toInt ≤ (lastOf ps).toInt := by
  have hsub : (List.replicate ((differences none ps).count v) v).Sublist (differences none ps) :=
    List.replicate_sublist_iff.mpr (Nat.le_refl _)
  have hnonneg : ∀ n ∈ (differences none ps).map Int64.toInt, (0 : Int) ≤ n := by
    intro n hn
    obtain ⟨w, hw, rfl⟩ := List.mem_map.mp hn
    exact Int64.le_iff_toInt_le.mp (differences_nonneg h w hw)
  have hsum := (hsub.map Int64.toInt).sum_le_sum hnonneg
  rw [List.map_replicate, List.sum_replicate, Int.nsmul_eq_mul] at hsum
  exact hsum.trans_eq (sum_differences h)

theorem le_lastOf_of_mem (h : Ascending ps) (hv : v ∈ differences none ps) : v ≤ lastOf ps := by
  have hoccurs : 0 < (differences none ps).count v := List.count_pos_iff.mpr hv
  have hnonneg := Int64.le_iff_toInt_le.mp (differences_nonneg h v hv)
  rw [Int64.le_iff_toInt_le]
  calc v.toInt = 1 * v.toInt := (Int.one_mul _).symm
    _ ≤ (differences none ps).count v * v.toInt :=
      Int.mul_le_mul_of_nonneg_right (by omega) hnonneg
    _ ≤ (lastOf ps).toInt := count_mul_le_lastOf h v

/-! ## Runs of equal values -/

theorem count_differences_le (v : Int64) : (differences none ps).count v ≤ ps.length :=
  length_differences none ps ▸ List.count_le_length

/-- Few values for the primary buffer are as large as the list is long, although the length itself is
one of them. -/
theorem count_length_lt (h : Ascending ps) (hlen : ps.length < 2 ^ 63 - 1) :
    (primaryValues ps).count (Int64.ofNat ps.length) < 2 ^ 63 - 1 := by
  have hlength : (Int64.ofNat ps.length).toInt = ps.length :=
    ofNat_length_toInt (Nat.le_of_lt hlen)
  have hsmall : (differences none ps).count (Int64.ofNat ps.length) * ps.length < 2 ^ 63 := by
    have hle := count_mul_le_lastOf h (Int64.ofNat ps.length)
    have hlt := (lastOf ps).toInt_lt
    rw [hlength] at hle
    exact_mod_cast hle.trans_lt hlt
  have hall : (primaryValues ps).count (Int64.ofNat ps.length)
      ≤ (differences none ps).count (Int64.ofNat ps.length) + 2 := by
    rw [primaryValues_eq, List.count_cons, List.count_cons_self]
    split <;> omega
  by_contra hlarge
  have hmany : 2 ^ 63 - 3 ≤ (differences none ps).count (Int64.ofNat ps.length) := by omega
  have hproduct := Nat.mul_le_mul hmany (Nat.le_trans hmany (count_differences_le _))
  omega

/-- **A run in the primary buffer is no longer than its length can be written.** The length of the
list stands between its last id and the differences, so a run reaches across only if its value is
that length. -/
theorem count_lt_of_mem_runs (h : Ascending ps) (hlen : ps.length < 2 ^ 63 - 1)
    (hr : r ∈ Streak.runs (primaryValues ps)) : r.count < 2 ^ 63 - 1 := by
  by_cases hlength : r.value = Int64.ofNat ps.length
  · have hle := Streak.count_le_of_mem_runs hr
    rw [hlength] at hle
    exact Nat.lt_of_le_of_lt hle (count_length_lt h hlen)
  have hbehind : (Int64.ofNat ps.length :: differences none ps).count r.value ≤ ps.length := by
    rw [List.count_cons_of_ne (Ne.symm hlength)]
    exact count_differences_le r.value
  rw [primaryValues_eq] at hr
  by_cases hlast : lastOf ps = Int64.ofNat ps.length
  · have hle := Streak.count_le_of_mem_runs hr
    rw [List.count_cons_of_ne (hlast ▸ Ne.symm hlength)] at hle
    omega
  · have hapart : ∀ v ∈ [lastOf ps].getLast?,
        ∀ w ∈ (Int64.ofNat ps.length :: differences none ps).head?, v ≠ w := by
      rintro _ ⟨⟩ _ ⟨⟩
      exact hlast
    rw [← List.singleton_append, Streak.runs_append hapart] at hr
    rcases List.mem_append.mp hr with hr | hr
    · have hle := (Streak.count_le_of_mem_runs hr).trans List.count_le_length
      rw [List.length_singleton] at hle
      omega
    · have hle := Streak.count_le_of_mem_runs hr
      omega

end PairBlock

end Adjacency
