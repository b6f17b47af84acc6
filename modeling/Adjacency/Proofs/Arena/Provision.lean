import Adjacency.Proofs.Arena.Represents

/-!
# Room and memory in an arena

A block is left for a new one when a difference and an id may not fit into it any more. Since it has
room for one of each beyond the differences that are expected, it holds as many of those as expected
by then (`le_used_of_full`).

Memory is asked for in advance, for half as much again as there is (`Arena.reservation`). As long as
another block stays below the limit, this is a block at least and does not pass the limit. So a new
block never needs more memory than was granted before it was laid out (`allocateBlock_eq_done`).

Both are invariants of an arena, beside the chains that it represents (`Arena.Provided`).
-/

namespace Adjacency

namespace Arena

/-- How much more memory is asked for if there is too little for another block. -/
def reservation (a : Arena) : Nat :=
  min (max (a.bytes.size / 2) a.layout.blockSize) (a.layout.arenaLimit - a.bytes.size)

/-- The memory there is once there is enough for another block. -/
def provision (a : Arena) : Nat :=
  if a.bytes.size + a.layout.blockSize ≤ a.capacity then a.capacity
  else a.bytes.size + a.reservation

/-- The arena represents chains, with blocks that hold what is expected before they are left, and
its memory stays within its limit. -/
structure Provided (a : Arena) (nodes room : Nat) (chains : Nat → Chain) : Prop where
  represents : a.Represents nodes room chains
  le_used : ∀ n, n < nodes → ∀ p ∈ (chains n).full, room ≤ p.used a.codec
  size_le : a.bytes.size ≤ a.capacity
  capacity_le : a.capacity ≤ a.layout.arenaLimit

variable {a : Arena} {nodes room node : Nat} {chains : Nat → Chain} {k : Chain} {target : UInt64}

/-! ## Memory -/

section

variable (hle : a.bytes.size + a.layout.blockSize ≤ a.layout.arenaLimit)

include hle

theorem le_reservation :
    a.layout.blockSize ≤ a.reservation ∧
      a.reservation ≤ a.layout.arenaLimit - a.bytes.size := by
  rw [reservation]
  omega

/-- **What is asked for is granted exactly, or nothing is.** -/
theorem reserveUpTo_of_lt (hlt : a.capacity < a.bytes.size + a.layout.blockSize) :
    a.reserveUpTo (a.bytes.size + a.layout.blockSize)
      = if a.bytes.size + a.reservation ≤ Memory.granted then
          .done { a with capacity := a.bytes.size + a.reservation } ()
        else
          .fail a (.capacityExceeded .pagedArena a.capacity (a.bytes.size + a.layout.blockSize))
            [.arenaReserveFailed a.bytes.size a.reservation] := by
  have hreserve := (le_reservation hle).1
  have hextend : Memory.extend a.bytes.size a.capacity a.reservation
      = a.bytes.size + a.reservation := by
    rw [Memory.extend]
    omega
  rw [reserveUpTo]
  dsimp only
  rw [if_neg (Nat.not_le_of_lt hlt), ← reservation, hextend]

theorem le_provision :
    a.capacity ≤ a.provision ∧ a.bytes.size + a.layout.blockSize ≤ a.provision ∧
      (a.capacity ≤ a.layout.arenaLimit → a.provision ≤ a.layout.arenaLimit) := by
  have hreserve := le_reservation hle
  rw [provision]
  split <;> omega

end

/-- **A block that is added lies in memory that was granted before.** -/
theorem allocateBlock_eq_done (hfree : a.nextFree = a.bytes.size) {b : Arena} {start : Nat}
    (h : a.allocateBlock = .done b start) :
    a.bytes.size + a.layout.blockSize ≤ a.layout.arenaLimit ∧ start = a.bytes.size ∧
      b = a.grown a.provision := by
  rw [allocateBlock, hfree] at h
  dsimp only at h
  split at h
  · cases h
  · next hlimit =>
    have hle : a.bytes.size + a.layout.blockSize ≤ a.layout.arenaLimit := Nat.le_of_not_lt hlimit
    refine ⟨hle, ?_⟩
    rw [provision]
    by_cases hroom : a.bytes.size + a.layout.blockSize ≤ a.capacity
    · rw [reserveUpTo, if_pos hroom, Outcome.done_andThen, Nat.add_sub_cancel_left] at h
      rw [if_pos hroom]
      cases h
      exact ⟨rfl, rfl⟩
    · rw [reserveUpTo_of_lt hle (Nat.lt_of_not_le hroom)] at h
      rw [if_neg hroom]
      split at h
      · rw [Outcome.done_andThen, Nat.add_sub_cancel_left] at h
        cases h
        exact ⟨rfl, rfl⟩
      · cases h

theorem Provided.lt_of_allocateBlock (h : a.Provided nodes room chains) {requested : Nat}
    {events : List Event}
    (hfail : a.allocateBlock
      = .fail a (.capacityExceeded .pagedArena a.layout.arenaLimit requested) events) :
    a.layout.arenaLimit < a.bytes.size + a.layout.blockSize := by
  refine Nat.lt_of_not_le fun hle ↦ ?_
  rw [allocateBlock, h.represents.nextFree_eq] at hfail
  dsimp only at hfail
  rw [if_neg (Nat.not_lt.mpr hle)] at hfail
  by_cases hroom : a.bytes.size + a.layout.blockSize ≤ a.capacity
  · rw [reserveUpTo, if_pos hroom, Outcome.done_andThen] at hfail
    cases hfail
  · rw [reserveUpTo_of_lt hle (Nat.lt_of_not_le hroom)] at hfail
    split at hfail
    · rw [Outcome.done_andThen] at hfail
      cases hfail
    · -- The memory was refused, and there was less of it than the limit allows.
      rw [Outcome.fail_andThen] at hfail
      have hcapacity : a.capacity = a.layout.arenaLimit := by
        injection hfail with hresult
        injection hresult with hcause
        injection hcause
      omega

/-! ## Room -/

/-- **A block without room for another difference and id holds what was expected of it.** -/
theorem le_used_of_full (hl : a.layout.Sound a.codec nodes room)
    (hfull : a.layout.blockSize ≤ a.demand k target) : room ≤ k.last.used a.codec := by
  have hdelta := a.codec.size_le_maxLen (Signedness.admits_toInt (k.step target))
  have hid := a.codec.size_le_maxLen (Signedness.admits_toNat target)
  have hblock := hl.blockSize_eq
  rw [demand, Codec.sizeInt64, Codec.sizeUInt64] at hfull
  omega

theorem provided_allocate {extraBlocks : Nat → Nat → Nat} {options : Options} {sizing : Sizing}
    (hroom : 0 < sizing.fanOut * options.bytesPerEdge.toNat)
    (h : Arena.allocate extraBlocks options sizing = .ok a) :
    a.Provided sizing.totalNodes.toNat (sizing.fanOut * options.bytesPerEdge.toNat)
      fun n ↦ Chain.blank (n * a.layout.blockSize) := by
  have hrepresents := represents_allocate hroom h
  have hcapacity : a.capacity = a.bytes.size := by
    rw [Arena.allocate, Check.bind_eq_ok] at h
    obtain ⟨l, -, h⟩ := h
    rw [Check.bind_eq_ok] at h
    obtain ⟨-, -, h⟩ := h
    cases h
    exact Array.size_replicate.symm
  refine ⟨hrepresents, fun n _ p hp ↦ absurd hp List.not_mem_nil, Nat.le_of_eq hcapacity.symm, ?_⟩
  rw [hcapacity]
  exact hrepresents.size_le

theorem Provided.le_used_update (h : a.Provided nodes room chains)
    (hk : ∀ p ∈ k.full, room ≤ p.used a.codec) :
    ∀ n, n < nodes → ∀ p ∈ (Function.update chains node k n).full, room ≤ p.used a.codec :=
  (Function.forall_update_iff chains
    fun n k ↦ n < nodes → ∀ p ∈ Chain.full k, room ≤ p.used a.codec).mpr
    ⟨fun _ ↦ hk, fun n _ ↦ h.le_used n⟩

/-- **An append keeps what an arena provides,** and gives no memory back. -/
theorem Provided.append (h : a.Provided nodes room chains) (hn : node < nodes) (target : UInt64) :
    a.capacity ≤ (a.append node target).state.capacity ∧
      ∃ more, (a.append node target).state.Provided nodes room more := by
  have hrepresents := h.represents
  rcases hrepresents.append_cases hn target with ⟨hroom, heq⟩ |
    ⟨hfull, hle, capacity, hblock, heq⟩ | ⟨-, limit, requested, event, -, heq⟩
  · rw [heq]
    refine ⟨Nat.le_refl _, _, hrepresents.extend hn hroom, ?_, ?_, h.capacity_le⟩
    · exact h.le_used_update (h.le_used node hn)
    · rw [size_bytes_placed]
      exact h.size_le
  · rw [heq]
    -- The memory is that of the arena with the block added.
    obtain ⟨-, -, hgrown⟩ := allocateBlock_eq_done hrepresents.nextFree_eq hblock
    obtain rfl : capacity = a.provision := congrArg Arena.capacity hgrown
    obtain ⟨hmore, hsuffices, hlimit⟩ := le_provision hle
    refine ⟨hmore, _, hrepresents.turn hn hle hfull, ?_, ?_, hlimit h.capacity_le⟩
    · refine h.le_used_update ?_
      intro p hp
      rcases List.mem_append.mp hp with hp | hp
      · exact h.le_used node hn p hp
      · rw [List.mem_singleton.mp hp]
        exact le_used_of_full hrepresents.sound hfull
    · rw [size_bytes_placed, size_bytes_linked]
      exact hsuffices
  · rw [heq]
    exact ⟨Nat.le_refl _, chains, h⟩

end Arena

end Adjacency
