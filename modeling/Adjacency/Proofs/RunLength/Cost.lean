import Mathlib.Algebra.GroupWithZero.Nat
import Mathlib.Data.List.SplitBy
import Adjacency.Proofs.RunLength.Streak

/-!
# What a list costs

A list falls apart into its maximal runs of equal neighbours (`Streak.runs`), and what it costs is
what these runs take: for each its biased value, and for one that is longer than one also the marker
and its biased count. Runs that are not empty and whose neighbours have different values are the
maximal runs of their values (`runs_valuesAll`), in whatever way they were found. The bytes that such
runs are written as are therefore counted by their values alone (`length_codeAll`).
-/

namespace Adjacency

namespace RunLength

namespace Streak

/-- The run that a list of equal values is. -/
def ofValues (vs : List Int64) : Streak := ⟨vs.headD 0, vs.length⟩

/-- The maximal runs of equal neighbours in a list, in order. -/
def runs (vs : List Int64) : List Streak := (vs.splitBy (· == ·)).map ofValues

/-- The bytes that a run takes: those of its biased value and, if it is longer than one, those of the
marker and of its biased count. -/
def cost (c : Codec) (s : Signedness) (r : Streak) : Nat :=
  c.size s (away r.value.toInt) + if 1 < r.count then 1 + c.size s (r.count + 1) else 0

/-- The bytes that a list takes. -/
def costAll (c : Codec) (s : Signedness) (vs : List Int64) : Nat :=
  ((runs vs).map (cost c s)).sum

/-- No run is empty, and none goes on in the next. -/
structure Maximal (rs : List Streak) : Prop where
  count_pos : ∀ r ∈ rs, 0 < r.count
  chain : (rs.map value).IsChain (· ≠ ·)

variable {c : Codec} {s : Signedness} {r : Streak} {rs : List Streak} {v : Int64}
  {n : Nat} {vs more : List Int64}

/-! ## Maximal runs -/

theorem ofValues_values (h : 0 < r.count) : ofValues r.values = r := by
  rcases r with ⟨v, _ | n⟩
  · exact absurd h (Nat.lt_irrefl 0)
  · simp [ofValues, values, List.replicate_succ]

theorem values_ne_nil (h : 0 < r.count) : r.values ≠ [] :=
  List.length_pos_iff.mp (by rwa [length_values])

/-- **Maximal runs are those of their values.** -/
theorem runs_valuesAll (h : Maximal rs) : runs (valuesAll rs) = rs := by
  have hsplit : (valuesAll rs).splitBy (· == ·) = rs.map values := by
    rw [List.splitBy_eq_iff]
    refine ⟨List.flatMap_def .., ?_, ?_, ?_⟩
    · intro hmem
      obtain ⟨r, hr, hnil⟩ := List.mem_map.mp hmem
      exact values_ne_nil (h.count_pos r hr) hnil
    · intro m hm
      obtain ⟨r, -, rfl⟩ := List.mem_map.mp hm
      exact List.isChain_replicate_of_rel r.count (beq_self_eq_true r.value)
    · rw [List.isChain_map]
      refine ((List.isChain_map value).mp h.chain).imp_of_mem_imp ?_
      intro a b ha hb hne
      refine ⟨values_ne_nil (h.count_pos a ha), values_ne_nil (h.count_pos b hb), ?_⟩
      simpa [values] using hne
  rw [runs, hsplit, List.map_map]
  exact (List.map_congr_left fun r hr ↦ ofValues_values (h.count_pos r hr)).trans (List.map_id rs)

theorem sublist_of_mem_runs (h : r ∈ runs vs) : r.values.Sublist vs := by
  obtain ⟨group, hgroup, rfl⟩ := List.mem_map.mp h
  have hsame : (ofValues group).values = group := by
    cases group with
    | nil => rfl
    | cons v more =>
      have hchain := (List.isChain_of_mem_splitBy hgroup).pairwise
      refine (List.eq_replicate_of_mem fun w hw ↦ ?_).symm
      rcases List.mem_cons.mp hw with rfl | hw
      · rfl
      · exact (eq_of_beq (List.rel_of_pairwise_cons hchain hw)).symm
  have hsub := List.sublist_flatten_of_mem hgroup
  rw [List.flatten_splitBy] at hsub
  rw [hsame]
  exact hsub

theorem count_le_of_mem_runs (h : r ∈ runs vs) : r.count ≤ vs.count r.value := by
  have hle := (sublist_of_mem_runs h).count_le r.value
  rw [values, List.count_replicate_self] at hle
  exact hle

theorem runs_append (h : ∀ v ∈ vs.getLast?, ∀ w ∈ more.head?, v ≠ w) :
    runs (vs ++ more) = runs vs ++ runs more := by
  rw [runs, List.splitBy_append, List.map_append]
  · rfl
  · intro v hv w hw
    exact beq_false_of_ne (h v hv w hw)

theorem Maximal.concat (h : Maximal (rs ++ [r])) (hne : v ≠ r.value) :
    Maximal (rs ++ [r] ++ [⟨v, 1⟩]) := by
  refine ⟨?_, ?_⟩
  · intro r' hr'
    rcases List.mem_append.mp hr' with hr' | hr'
    · exact h.count_pos r' hr'
    · rw [List.mem_singleton.mp hr']
      exact Nat.one_pos
  · have hchain := h.chain
    rw [List.map_append, List.map_singleton] at hchain
    rw [List.append_assoc, List.map_append]
    refine List.isChain_split.mpr ⟨hchain, List.isChain_pair.mpr hne.symm⟩

theorem Maximal.grow (h : Maximal (rs ++ [⟨v, n⟩])) : Maximal (rs ++ [⟨v, n + 1⟩]) := by
  refine ⟨?_, ?_⟩
  · intro r' hr'
    rcases List.mem_append.mp hr' with hr' | hr'
    · exact h.count_pos r' (List.mem_append_left _ hr')
    · rw [List.mem_singleton.mp hr']
      exact Nat.succ_pos n
  · have hchain := h.chain
    rw [List.map_append] at hchain ⊢
    exact hchain

/-! ## Costs -/

theorem length_code (r : Streak) : (r.code c s).length = r.cost c s := by
  rw [code, raws, cost]
  split
  · next hone =>
    rw [if_neg (Nat.not_lt_of_le hone), Codec.codes_singleton, Codec.length_code]
    rfl
  · next hmany =>
    rw [if_pos (Nat.lt_of_not_le hmany), away_natCast]
    simp only [Codec.codes_cons, Codec.codes_nil, List.length_append, Codec.length_code,
      List.length_nil, marker, Codec.size_zero]
    omega

theorem length_codeAll (h : Maximal rs) :
    (codeAll c s rs).length = costAll c s (valuesAll rs) := by
  rw [costAll, runs_valuesAll h, codeAll, List.length_flatMap]
  congr 1
  exact List.map_congr_left fun r _ ↦ length_code r

theorem costAll_le_append (h : ∀ v ∈ vs.getLast?, ∀ w ∈ more.head?, v ≠ w) :
    costAll c s vs ≤ costAll c s (vs ++ more) := by
  rw [costAll, costAll, runs_append h, List.map_append, List.sum_append]
  exact Nat.le_add_right _ _

end Streak

end RunLength

end Adjacency
