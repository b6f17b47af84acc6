import Adjacency.Proofs.PairBlock.Differences

/-!
# Sums of ids are exact

Pairs are read back by adding each step to the pair before it. These sums are taken in 64 bits too,
but a block holds ascending ids only, and a sum that leads from one of them to the next does not
wrap around (`Replay.Coming.exact`). This is so for every read of a block, whatever its history
(`replaysExactly_after`).
-/

namespace Adjacency

namespace PairBlock

open Pair (Ascending)

/-- If the next step is read, the primary ids before and behind it differ by just that step. -/
def Replay.Exact (r : Replay) : Prop :=
  ∀ q s, r.prev = some q → r.block.readStep.result = .ok s →
    (q.primary + s.primary).toInt = q.primary.toInt + s.primary.toInt

/-- The replay behind the next `n` pairs. -/
def Replay.skip : Nat → Replay → Replay
  | 0, r => r
  | n + 1, r => skip n r.next.state

/-- No sum of primary ids wraps around while the pairs of the block are read. -/
def ReplaysExactly (k : PairBlock) : Prop :=
  ∀ count, k.startReading.result = .ok count →
    ∀ n < count, (Replay.skip n ⟨k.startReading.state, none⟩).Exact

variable {k : PairBlock} {r : Replay} {p : Pair} {ps todo : List Pair}

/-! ## One read -/

theorem Replay.prev_next (h : r.next.result = .ok p) : r.next.state.prev = some p := by
  rw [Replay.next] at h ⊢
  rcases heq : r.block.readStep with ⟨e | s, c, events⟩
  · rw [heq] at h
    cases h
  · rw [heq] at h
    exact congrArg some (Except.ok.inj h)

theorem Replay.Coming.exact_next (h : r.Coming ps (p :: todo))
    (hascending : Ascending (r.prev.toList ++ p :: todo)) : r.Exact := by
  intro q s hprev hread
  obtain ⟨c, hstep, -⟩ := Replays.readStep h
  rw [hstep, hprev] at hread
  rw [hprev, Option.toList_some, List.singleton_append] at hascending
  obtain rfl : Pair.stepFrom (some q) p = s := Except.ok.inj hread
  have hdifference := hascending.toInt_sub (q := p) List.mem_cons_self
  have hsum : q.primary + (p.primary - q.primary) = p.primary := by
    rw [Int64.add_comm, Int64.sub_add_cancel]
  show (q.primary + (p.primary - q.primary)).toInt
    = q.primary.toInt + (p.primary - q.primary).toInt
  rw [hsum, hdifference]
  omega

/-! ## All reads -/

theorem Replay.Coming.exact (h : r.Coming ps todo)
    (hascending : Ascending (r.prev.toList ++ todo)) : ∀ n < todo.length, (r.skip n).Exact := by
  induction todo generalizing r with
  | nil => exact fun n hn ↦ absurd hn (Nat.not_lt_zero n)
  | cons p todo ih =>
    rintro (_ | n) hn
    · exact h.exact_next hascending
    · obtain ⟨hread, hnext⟩ := h.next
      refine ih hnext ?_ n (Nat.lt_of_succ_lt_succ hn)
      rw [Replay.prev_next hread, Option.toList_some, List.singleton_append]
      have hbehind := List.suffix_append r.prev.toList (p :: todo)
      exact ⟨fun q hq ↦ hascending.nonneg q (hbehind.mem hq),
        hascending.sorted.sublist hbehind.sublist⟩

theorem Loaded.replaysExactly (h : k.Loaded ps) (hascending : Ascending ps) : k.ReplaysExactly := by
  obtain ⟨c, hstart, hc⟩ := h.startReading
  have hcoming : (Replay.mk c none).Coming ps ps := hc
  intro count hcount
  rw [hstart] at hcount ⊢
  obtain rfl : ps.length = count := Except.ok.inj hcount
  exact hcoming.exact hascending

theorem Holds.replaysExactly {held : Option (List Pair)} (h : k.Holds held)
    (hascending : ∀ ps, held = some ps → Ascending ps) : k.ReplaysExactly := by
  cases held with
  | none => exact fun count hcount ↦ absurd (h.startReading.ok count hcount) id
  | some ps => exact Loaded.replaysExactly h (hascending ps rfl)

/-! ## Histories -/

theorem ascending_heldNext {held : Option (List Pair)} (h : ∀ ps, held = some ps → Ascending ps)
    (call : Call) (answered : Bool) :
    ∀ ps, heldNext held call answered = some ps → Ascending ps := by
  cases call with
  | set pairs =>
    rw [heldNext]
    cases hnegative : Pair.anyNegative pairs with
    | true => exact h
    | false =>
      cases answered with
      | true =>
        rintro ps ⟨⟩
        exact Pair.ascending_sort hnegative
      | false => rintro ps ⟨⟩
  | get target => exact h
  | toList => exact h
  | lookup primary => exact h

theorem holds_ascending_after (size : RunLength.Preset) (codec : Codec) (calls : List Call) :
    let k := Outcome.after step (ofPreset size codec) calls
    let held := Outcome.account step heldNext (ofPreset size codec) none calls
    k.Holds held ∧ ∀ ps, held = some ps → Ascending ps := by
  have hfresh : (ofPreset size codec).Holds none := Or.inl (vacant_ofPreset size codec)
  refine Outcome.account_after (P := fun (k : PairBlock) (held : Option (List Pair)) ↦
    k.Holds held ∧ ∀ ps, held = some ps → Ascending ps) ?_ ⟨hfresh, nofun⟩ calls
  rintro k held call ⟨hholds, hascending⟩
  exact ⟨hholds.step call, ascending_heldNext hascending call _⟩

/-- **No sum wraps around in any read of a block,** whatever its history. -/
theorem replaysExactly_after (size : RunLength.Preset) (codec : Codec) (calls : List Call) :
    (Outcome.after step (ofPreset size codec) calls).ReplaysExactly := by
  obtain ⟨hholds, hascending⟩ := holds_ascending_after size codec calls
  exact hholds.replaysExactly hascending

end PairBlock

end Adjacency
