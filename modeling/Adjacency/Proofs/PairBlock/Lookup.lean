import Adjacency.Proofs.PairBlock.History

/-!
# A lookup agrees with a full scan

A lookup leaves out the scan if the key is behind the last primary id, and stops it at the first id
behind the key. Both are right because the pairs of a block are sorted: no pair is behind the last
(`primary_le_lastOf`), and none behind a greater id has the key (`findSome?_verdict`). Sorting is
stable, so the pair that is found is also the first with its key among the pairs as they were given
(`Pair.first_sort`).
-/

namespace Adjacency

namespace Pair

/-- The secondary id of the first pair with the given primary id. -/
def first (v : Int64) (ps : List Pair) : Option Int64 :=
  (ps.find? fun p ↦ p.primary = v).map secondary

theorem first_sort (v : Int64) (ps : List Pair) : first v (sort ps) = first v ps := by
  rw [first, first, ← List.head?_filter, ← List.head?_filter, filter_sort]

theorem first_eq_none {v : Int64} {ps : List Pair} :
    first v ps = none ↔ ∀ p ∈ ps, p.primary ≠ v := by
  rw [first, Option.map_eq_none_iff, List.find?_eq_none]
  simp only [decide_eq_true_eq, ne_eq]

end Pair

namespace PairBlock

variable {k : PairBlock} {ps : List Pair} {v : Int64}

theorem primary_le_lastOf (hsorted : ps.Pairwise fun p q ↦ p.primary ≤ q.primary) :
    ∀ p ∈ ps, p.primary ≤ lastOf ps := by
  rcases List.eq_nil_or_concat ps with rfl | ⟨front, q, hps⟩
  · exact fun p hp ↦ absurd hp List.not_mem_nil
  · rw [List.concat_eq_append] at hps
    subst hps
    have hlast : lastOf (front ++ [q]) = q.primary := by
      rw [lastOf, List.getLast?_concat]
      rfl
    rw [List.pairwise_append] at hsorted
    rw [hlast]
    intro p hp
    rcases List.mem_append.mp hp with hp | hp
    · exact hsorted.2.2 p hp q (List.mem_singleton_self q)
    · rw [List.mem_singleton.mp hp]
      exact Int64.le_refl _

/-- **On a sorted list a scan that stops behind the key finds the first pair with the key.** -/
theorem findSome?_verdict (hsorted : ps.Pairwise fun p q ↦ p.primary ≤ q.primary) (v : Int64) :
    (ps.findSome? (verdict v)).join = Pair.first v ps := by
  induction ps with
  | nil => rfl
  | cons p ps ih =>
    rw [List.findSome?_cons, Pair.first, List.find?_cons, verdict]
    by_cases heq : p.primary = v
    · rw [if_pos heq, decide_eq_true heq]
      rfl
    rw [if_neg heq, decide_eq_false heq]
    by_cases hlt : v < p.primary
    · -- All pairs to come are behind the key too.
      rw [if_pos hlt]
      refine (Pair.first_eq_none.mpr ?_).symm
      rintro q hq rfl
      exact Int64.lt_irrefl (Int64.lt_of_lt_of_le hlt (List.rel_of_pairwise_cons hsorted hq))
    · rw [if_neg hlt]
      exact ih hsorted.of_cons

/-- **A lookup finds the first pair with the key,** also if it does not read at all. -/
theorem Loaded.lookup_eq_first (h : k.Loaded ps)
    (hsorted : ps.Pairwise fun p q ↦ p.primary ≤ q.primary) (v : Int64) :
    (k.lookup v).result = .ok (Pair.first v ps) := by
  rw [(h.lookup v).1]
  obtain ⟨rest₁, rest₂, hreplays⟩ := h
  split
  · next hskip =>
    refine congrArg Except.ok (Pair.first_eq_none.mpr ?_).symm
    intro p hp
    rcases hskip with hempty | hbehind
    · rw [hreplays.count_eq, List.length_eq_zero_iff] at hempty
      rw [hempty] at hp
      exact absurd hp List.not_mem_nil
    · rw [hreplays.last_eq] at hbehind
      exact Int64.ne_of_lt (Int64.lt_of_le_of_lt (primary_le_lastOf hsorted p hp) hbehind)
  · rw [findSome?_verdict hsorted]

theorem Holds.loaded_set {held : Option (List Pair)} {pairs : List Pair} (h : k.Holds held)
    (hset : (k.set pairs).result = .ok ()) : (k.set pairs).state.Loaded (Pair.sort pairs) := by
  have hholds := h.set pairs
  rw [hset, heldNext] at hholds
  by_cases hnegative : Pair.anyNegative pairs = true
  · rw [set_of_anyNegative hnegative] at hset
    cases hset
  · rw [if_neg hnegative] at hholds
    exact hholds

theorem Loaded.after (h : k.Loaded ps) {reads : List Call}
    (hreads : ∀ call ∈ reads, ∀ pairs, call ≠ .set pairs) :
    (Outcome.after PairBlock.step k reads).Loaded ps := by
  induction reads generalizing k with
  | nil => exact h
  | cons call reads ih =>
    refine ih (Loaded.step h (hreads call List.mem_cons_self)) ?_
    exact fun call' hcall ↦ hreads call' (List.mem_cons_of_mem call hcall)

/-- **A lookup agrees with a full scan.** Take any history of calls on a fresh block, a list of pairs
that is then set, and any calls that read afterwards. A lookup answers for every key. It gives the
secondary id of the first pair with that primary id, both in the list of all pairs that the block
gives and in the list as it was set, and nothing exactly if no pair has that primary id. -/
theorem lookup_after (size : RunLength.Preset) (codec : Codec) (before : List Call)
    (pairs : List Pair) (reads : List Call) :
    let filled := (Outcome.after step (ofPreset size codec) before).set pairs
    let k := Outcome.after step filled.state reads
    filled.result = .ok () → (∀ call ∈ reads, ∀ other, call ≠ .set other) → ∀ v,
      (∃ ps, k.toList.result = .ok ps ∧
        (k.lookup v).result = .ok ((ps.find? fun p ↦ p.primary = v).map Pair.secondary)) ∧
      (k.lookup v).result = .ok ((pairs.find? fun p ↦ p.primary = v).map Pair.secondary) ∧
      ((k.lookup v).result = .ok none ↔ ∀ p ∈ pairs, p.primary ≠ v) := by
  intro filled k hset hreads v
  have hloaded : k.Loaded (Pair.sort pairs) :=
    ((holds_after size codec before).loaded_set hset).after hreads
  have hlookup := hloaded.lookup_eq_first (Pair.sorted_sort pairs) v
  refine ⟨⟨Pair.sort pairs, hloaded.toList.1, hlookup⟩, ?_, ?_⟩
  · rw [hlookup, Pair.first_sort]
    rfl
  · rw [hlookup, Pair.first_sort, Except.ok.injEq, Pair.first_eq_none]

/-- Of two pairs with the same primary id the one that was given first is found, and in a gap there
is none. The block was read before, and an earlier list was replaced. -/
theorem lookup_after_twins :
    let pairs : List Pair := [⟨7, 1⟩, ⟨3, 5⟩, ⟨7, 2⟩]
    let filled := (Outcome.after step (ofPreset .small .lengthPrefixed) [.set [⟨5, 9⟩]]).set pairs
    let k := Outcome.after step filled.state [.lookup 3, .toList]
    filled.result = .ok () ∧ (k.lookup 7).result = .ok (some 1) ∧ (k.lookup 5).result = .ok none := by
  intro pairs filled k
  have hsort : Pair.sort pairs = [⟨3, 5⟩, ⟨7, 1⟩, ⟨7, 2⟩] := by
    simp [pairs, Pair.sort, List.mergeSort]
  have hset : filled.result = .ok () := by
    show (PairBlock.set _ pairs).result = _
    rw [PairBlock.set, hsort]
    decide +kernel
  have hfinds := lookup_after .small .lengthPrefixed [.set [⟨5, 9⟩]] pairs [.lookup 3, .toList] hset
    (by simp)
  exact ⟨hset, (hfinds 7).2.1, (hfinds 5).2.1⟩

end PairBlock

end Adjacency
