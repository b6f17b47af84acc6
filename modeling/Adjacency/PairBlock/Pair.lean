/-!
# Pairs of ids and their differences

A pair joins a primary id to a secondary one. In a list sorted by primary id, secondary ids often
grow in step with primary ids, so a pair is described by how far its primary id is from the one
before and by how much the offset from primary to secondary has changed. The second difference is
mostly zero.

All differences wrap around in 64 bits, and so do the sums that undo them: `Pair.follow` finds each
pair again from its predecessor and its differences, whatever the ids.
-/

namespace Adjacency

/-- A primary id and the secondary id that belongs to it. -/
structure Pair where
  primary : Int64
  secondary : Int64
  deriving DecidableEq, Repr, Inhabited

/-- What leads from one pair to the next. -/
structure Step where
  /-- The difference of the primary ids. -/
  primary : Int64
  /-- The difference of the offsets. -/
  offset : Int64
  deriving DecidableEq, Repr

namespace Pair

/-- How far the secondary id is from the primary one. -/
def offset (p : Pair) : Int64 := p.secondary - p.primary

/-- The pair with a given primary id and offset. -/
def ofOffset (primary offset : Int64) : Pair := ⟨primary, primary + offset⟩

/-- What leads to `p` from the pair before it, or from nothing. -/
def stepFrom (prev : Option Pair) (p : Pair) : Step :=
  match prev with
  | none => ⟨p.primary, p.offset⟩
  | some q => ⟨p.primary - q.primary, p.offset - q.offset⟩

/-- The pair that a step leads to. -/
def follow (prev : Option Pair) (s : Step) : Pair :=
  match prev with
  | none => ofOffset s.primary s.offset
  | some q => ofOffset (q.primary + s.primary) (q.offset + s.offset)

/-- The steps through a list of pairs. -/
def steps (prev : Option Pair) : List Pair → List Step
  | [] => []
  | p :: ps => p.stepFrom prev :: steps (some p) ps

/-! ## Sorting -/

/-- Pairs in ascending order of their primary ids; pairs of equal primary id keep their order. -/
def sort (ps : List Pair) : List Pair := ps.mergeSort fun p q ↦ decide (p.primary ≤ q.primary)

theorem perm_sort (ps : List Pair) : (sort ps).Perm ps := List.mergeSort_perm _ _

theorem primary_le_trans (p q r : Pair) (hpq : decide (p.primary ≤ q.primary))
    (hqr : decide (q.primary ≤ r.primary)) : decide (p.primary ≤ r.primary) := by
  rw [decide_eq_true_eq] at hpq hqr ⊢
  exact Int64.le_trans hpq hqr

theorem primary_le_total (p q : Pair) :
    decide (p.primary ≤ q.primary) || decide (q.primary ≤ p.primary) := by
  rw [Bool.or_eq_true, decide_eq_true_eq, decide_eq_true_eq]
  exact Int64.le_total ..

theorem sorted_sort (ps : List Pair) : (sort ps).Pairwise fun p q ↦ p.primary ≤ q.primary := by
  have h := List.pairwise_mergeSort primary_le_trans primary_le_total ps
  simp only [decide_eq_true_eq] at h
  exact h

/-- Sorting is stable: pairs of equal primary id keep their order. -/
theorem filter_sort (ps : List Pair) (v : Int64) :
    ((sort ps).filter fun p ↦ p.primary = v) = ps.filter fun p ↦ p.primary = v := by
  have hequal : (ps.filter fun p ↦ p.primary = v).Pairwise
      fun p q ↦ decide (p.primary ≤ q.primary) = true := by
    apply List.pairwise_of_forall_mem_list
    intro p hp q hq
    rw [of_decide_eq_true (List.mem_filter.mp hp).2, of_decide_eq_true (List.mem_filter.mp hq).2,
      decide_eq_true_eq]
    exact Int64.le_refl v
  have hsub := (List.sublist_mergeSort primary_le_trans primary_le_total hequal
    List.filter_sublist).filter fun p ↦ p.primary = v
  rw [List.filter_filter] at hsub
  simp only [Bool.and_self] at hsub
  exact (hsub.eq_of_length ((perm_sort ps).filter _).length_eq.symm).symm

/-! ## Following steps -/

@[simp] theorem ofOffset_offset (p : Pair) : ofOffset p.primary p.offset = p := by
  have h : p.primary + (p.secondary - p.primary) = p.secondary := by
    rw [Int64.add_comm, Int64.sub_add_cancel]
  simp [ofOffset, offset, h]

@[simp] theorem follow_stepFrom (prev : Option Pair) (p : Pair) :
    follow prev (p.stepFrom prev) = p := by
  cases prev with
  | none => simp [follow, stepFrom]
  | some q =>
    have h (a b : Int64) : b + (a - b) = a := by rw [Int64.add_comm, Int64.sub_add_cancel]
    simp [follow, stepFrom, h]

@[simp] theorem length_steps (prev : Option Pair) (ps : List Pair) :
    (steps prev ps).length = ps.length := by
  induction ps generalizing prev with
  | nil => rfl
  | cons p ps ih => simp [steps, ih]

end Pair

end Adjacency
