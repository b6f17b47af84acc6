import Adjacency.PairBlock.Block

/-!
# The values of a block

The values for the two buffers of a block are stored in one interleaved script. Each buffer gets its
own values in their own order (`storedOn_script_primary`, `storedOn_script_secondary`), and if no
primary id is negative, none of the values for the primary buffer is (`primaryValues_nonneg`):
sorted ids never go down.
-/

namespace Adjacency

namespace Pair

/-! ## Negative primary ids -/

/-- Some primary id is negative. -/
def anyNegative (ps : List Pair) : Bool := ps.any fun p ↦ decide (p.primary < 0)

theorem anyNegative_eq_false {ps : List Pair} :
    anyNegative ps = false ↔ ∀ p ∈ ps, 0 ≤ p.primary := by
  rw [anyNegative, List.any_eq_false]
  simp only [decide_eq_true_eq, Int64.not_lt]

/-- In a sorted list it is the first id that tells whether some id is negative. -/
theorem any_head?_sort (ps : List Pair) :
    ((sort ps).head?.any fun p ↦ decide (p.primary < 0)) = anyNegative ps := by
  have hsorted := sorted_sort ps
  have hmem : ∀ p, p ∈ sort ps ↔ p ∈ ps := fun p ↦ (perm_sort ps).mem_iff
  rw [Bool.eq_iff_iff, anyNegative, List.any_eq_true]
  cases hsort : sort ps with
  | nil =>
    rw [hsort] at hmem
    refine iff_of_false (fun h ↦ nomatch h) ?_
    rintro ⟨p, hp, -⟩
    exact absurd ((hmem p).mpr hp) List.not_mem_nil
  | cons first more =>
    rw [hsort] at hmem hsorted
    rw [List.head?_cons, Option.any_some]
    constructor
    · intro h
      exact ⟨first, (hmem first).mp List.mem_cons_self, h⟩
    · rintro ⟨p, hp, hneg⟩
      rw [decide_eq_true_eq] at hneg ⊢
      rcases List.mem_cons.mp ((hmem p).mpr hp) with rfl | hp
      · exact hneg
      · exact Int64.lt_of_le_of_lt (List.rel_of_pairwise_cons hsorted hp) hneg

theorem sub_nonneg {a b : Int64} (hb : 0 ≤ b) (h : b ≤ a) : 0 ≤ a - b := by
  have hle := Int64.le_iff_toInt_le.mp h
  rw [Int64.le_iff_toInt_le, Int64.toInt_sub_of_le a b hb h, Int64.toInt_zero]
  omega

theorem steps_nonneg {prev : Option Pair} {ps : List Pair} (hpos : ∀ p ∈ ps, 0 ≤ p.primary)
    (hprev : ∀ q, prev = some q → 0 ≤ q.primary ∧ ∀ p ∈ ps, q.primary ≤ p.primary)
    (hsorted : ps.Pairwise fun p q ↦ p.primary ≤ q.primary) :
    ∀ s ∈ steps prev ps, 0 ≤ s.primary := by
  induction ps generalizing prev with
  | nil => exact fun s hs ↦ absurd hs List.not_mem_nil
  | cons p ps ih =>
    intro s hs
    rcases List.mem_cons.mp hs with rfl | hs
    · cases prev with
      | none => exact hpos p List.mem_cons_self
      | some q =>
        obtain ⟨hq, hle⟩ := hprev q rfl
        exact sub_nonneg hq (hle p List.mem_cons_self)
    · refine ih (fun p' hp' ↦ hpos p' (List.mem_cons_of_mem p hp')) ?_ hsorted.of_cons s hs
      rintro q ⟨⟩
      exact ⟨hpos p List.mem_cons_self, fun p' hp' ↦ List.rel_of_pairwise_cons hsorted hp'⟩

end Pair

namespace PairBlock

/-! ## The script -/

/-- The values that a script stores in one of the buffers. -/
def storedOn (side : Side) (values : List (Side × Int64)) : List Int64 :=
  (values.filter fun x ↦ x.1 = side).map Prod.snd

theorem storedOn_cons_self (side : Side) (v : Int64) (values : List (Side × Int64)) :
    storedOn side ((side, v) :: values) = v :: storedOn side values := by
  rw [storedOn, List.filter_cons_of_pos (by rw [decide_eq_true_eq]), List.map_cons, storedOn]

theorem storedOn_cons_of_ne {side other : Side} (h : other ≠ side) (v : Int64)
    (values : List (Side × Int64)) :
    storedOn side ((other, v) :: values) = storedOn side values := by
  rw [storedOn, List.filter_cons_of_neg (by rw [decide_eq_true_eq]; exact h), storedOn]

theorem storedOn_steps (steps : List Step) :
    storedOn .primary (steps.flatMap fun s ↦ [(.primary, s.primary), (.secondary, s.offset)])
        = steps.map Step.primary ∧
      storedOn .secondary (steps.flatMap fun s ↦ [(.primary, s.primary), (.secondary, s.offset)])
        = steps.map Step.offset := by
  induction steps with
  | nil => exact ⟨rfl, rfl⟩
  | cons s steps ih =>
    obtain ⟨hprimary, hsecondary⟩ := ih
    rw [List.flatMap_cons, List.cons_append, List.singleton_append]
    constructor
    · rw [storedOn_cons_self, storedOn_cons_of_ne (by decide), hprimary, List.map_cons]
    · rw [storedOn_cons_of_ne (by decide), storedOn_cons_self, hsecondary, List.map_cons]

theorem storedOn_script_primary (ps : List Pair) :
    storedOn .primary (script ps) = primaryValues ps := by
  rw [script, preamble, List.map_cons, List.map_cons, List.map_nil, List.cons_append,
    List.cons_append, List.nil_append, storedOn_cons_self, storedOn_cons_self,
    (storedOn_steps _).1, primaryValues, preamble]
  rfl

theorem storedOn_script_secondary (ps : List Pair) :
    storedOn .secondary (script ps) = secondaryValues ps := by
  rw [script, preamble, List.map_cons, List.map_cons, List.map_nil, List.cons_append,
    List.cons_append, List.nil_append, storedOn_cons_of_ne (by decide),
    storedOn_cons_of_ne (by decide), (storedOn_steps _).2, secondaryValues]

/-! ## Values that are not negative -/

theorem lastOf_nonneg {ps : List Pair} (hpos : ∀ p ∈ ps, 0 ≤ p.primary) : 0 ≤ lastOf ps := by
  rw [lastOf]
  cases hlast : ps.getLast? with
  | none => exact Int64.le_refl 0
  | some p => exact hpos p (List.mem_of_getLast? hlast)

theorem ofNat_length_toInt {ps : List Pair} (hlen : ps.length ≤ Word.signedMax) :
    (Int64.ofNat ps.length).toInt = ps.length :=
  Int64.toInt_ofNat_of_lt (by rw [Word.signedMax] at hlen; omega)

theorem primaryValues_nonneg {ps : List Pair} (hpos : ∀ p ∈ ps, 0 ≤ p.primary)
    (hsorted : ps.Pairwise fun p q ↦ p.primary ≤ q.primary)
    (hlen : ps.length ≤ Word.signedMax) : ∀ v ∈ primaryValues ps, 0 ≤ v := by
  intro v hv
  rcases List.mem_append.mp hv with hv | hv
  · rcases List.mem_cons.mp hv with rfl | hv
    · exact lastOf_nonneg hpos
    · rw [List.mem_singleton.mp hv, Int64.le_iff_toInt_le, ofNat_length_toInt hlen]
      exact Int.natCast_nonneg _
  · obtain ⟨s, hs, rfl⟩ := List.mem_map.mp hv
    exact Pair.steps_nonneg hpos (by rintro q ⟨⟩) hsorted s hs

end PairBlock

end Adjacency
