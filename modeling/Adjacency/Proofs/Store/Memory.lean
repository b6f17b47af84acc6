import Adjacency.Proofs.Arena.Provision
import Adjacency.Proofs.Store.Confinement
import Adjacency.Proofs.Store.Stages

/-!
# The memory of a paged store

What an arena provides is upheld by every stage in the history of a paged store
(`Store.Walk.provided`). So the memory of a paged store begins with a block for each node and never
passes the limit of its arena. It is never given back, and it only grows by what was asked for.
-/

namespace Adjacency

namespace Contents

theorem state_append_paged (a : Arena) (node : Nat) (target : NodeId) :
    ((paged a).append node target).state = .paged (a.append node target).state := by
  rw [append]
  rcases a.append node target with ⟨result, b, events⟩
  cases result with
  | ok trace => rfl
  | error e => rfl

/-- The contents are an arena that gives each node the room it is expected to take. -/
def Provided (options : Options) (sizing : Sizing) (c : Contents) : Prop :=
  ∃ a chains, c = .paged a ∧
    a.Provided sizing.totalNodes.toNat (sizing.fanOut * options.bytesPerEdge.toNat) chains

end Contents

namespace Store

variable {options : Options} {s t : Store} {done : List (Store × Store)}

/-- **The arena of a paged store is provided for,** from the stage that opened the store on. -/
theorem Walk.provided (h : Walk (new .pagedBuffer options) done s) :
    s.Upholds .pagedBuffer options (fun sizing _ c ↦ c.Provided options sizing) done := by
  refine h.upholds ?_ ?_
  · intro totalNodes totalRels sizing c hplan hallocate
    obtain ⟨a, ha, rfl⟩ := Check.map_eq_ok.mp hallocate
    exact ⟨a, _, rfl, Arena.provided_allocate (Lifecycle.room_pos hplan) ha⟩
  · rintro sizing growths _ node target hnode ⟨a, chains, rfl, ha⟩
    obtain ⟨-, more, hmore⟩ := ha.append hnode target
    rw [Contents.state_append_paged]
    exact ⟨_, more, rfl, hmore⟩

theorem Walk.size_le_of_passes (h : Walk (new .pagedBuffer options) done s) (hpass : s.Passes t) :
    s.size ≤ t.size := by
  have hupholds := h.provided
  cases hpass with
  | keeps hoptions hsizing hcontents => rw [size, size, hcontents]
  | opens hoptions hplan hsizing hcontents =>
    obtain ⟨hcreated, -, -⟩ := Lifecycle.plan_eq_ok hplan
    rw [size, (hupholds.unopened (by rw [hcreated]; rfl)).1]
    exact Nat.zero_le _
  | adds target hoptions hopen hsizing hnode hcontents =>
    obtain ⟨a, chains, hpaged, ha⟩ := hupholds.opened _ hopen
    rw [size, size, hcontents, hpaged, Contents.state_append_paged]
    exact (ha.append hnode target).1

theorem Walk.size_le {rest : List (Store × Store)} (h : Walk (new .pagedBuffer options) done s)
    (hrest : Walk s rest t) : s.size ≤ t.size := by
  induction hrest generalizing done with
  | nil s => exact Nat.le_refl _
  | cons hpass _ ih =>
    exact Nat.le_trans (h.size_le_of_passes hpass) (ih (h.append (.single hpass)))

theorem exists_provided (options : Options) (calls : List Call) {totalNodes totalRels : UInt64}
    (hinit : Call.init totalNodes totalRels
      ∈ Outcome.answered step (new .pagedBuffer options) calls) :
    ∃ sizing a chains, sizing.totalNodes = totalNodes ∧
      (Outcome.after step (new .pagedBuffer options) calls).lifecycle.sizing? = some sizing ∧
      (Outcome.after step (new .pagedBuffer options) calls).contents = .paged a ∧
      a.Provided totalNodes.toNat (sizing.fanOut * options.bytesPerEdge.toNat) chains := by
  obtain ⟨sizing, hsizing, rfl, -⟩ :=
    (lives_after .pagedBuffer options calls).sizing_eq _ _ hinit
  obtain ⟨a, chains, hpaged, ha⟩ :=
    (walk_allStages (new .pagedBuffer options) calls).provided.opened sizing hsizing
  exact ⟨sizing, a, chains, rfl, hsizing, hpaged, ha⟩

/-- **The memory of a paged store stays within the limit of its arena.** After any history in which
the store was opened:

* its arena has a block for each node at least, new blocks go to its end, and there is memory for
  all that it takes;
* there is no more memory than the limit allows, and it is never given back;
* if memory for another block below the limit has to be asked for, then a block at least is asked
  for, and no more than the limit leaves, and this is granted exactly or the arena stays as it is;
* a block that is added lies in the memory there was or that was granted. -/
theorem memory_after (options : Options) (calls : List Call) {totalNodes totalRels : UInt64}
    (hinit : Call.init totalNodes totalRels
      ∈ Outcome.answered step (new .pagedBuffer options) calls) :
    let s := Outcome.after step (new .pagedBuffer options) calls
    ∃ a, s.contents = .paged a ∧ a.nextFree = a.bytes.size ∧
      totalNodes.toNat * a.layout.blockSize ≤ a.bytes.size ∧
      a.bytes.size ≤ s.size ∧ s.size ≤ a.layout.arenaLimit ∧
      (∀ more, s.size ≤ (Outcome.after step s more).size) ∧
      (a.nextFree + a.layout.blockSize ≤ a.layout.arenaLimit →
        a.capacity < a.nextFree + a.layout.blockSize →
        a.layout.blockSize ≤ a.reservation ∧
          a.reservation ≤ a.layout.arenaLimit - a.bytes.size ∧
          (a.reserveUpTo (a.nextFree + a.layout.blockSize)
              = .done { a with capacity := a.bytes.size + a.reservation } () ∨
            a.reserveUpTo (a.nextFree + a.layout.blockSize)
              = .fail a (.capacityExceeded .pagedArena a.capacity (a.nextFree + a.layout.blockSize))
                [.arenaReserveFailed a.bytes.size a.reservation])) ∧
      ∀ b start, a.allocateBlock = .done b start →
        b.bytes.size = a.nextFree + a.layout.blockSize ∧ b.bytes.size ≤ b.capacity ∧
          b.capacity = a.provision := by
  intro s
  obtain ⟨sizing, a, chains, -, -, hpaged, h⟩ := exists_provided options calls hinit
  have hfree := h.represents.nextFree_eq
  have hstop : a.nextFree + a.layout.blockSize = a.bytes.size + a.layout.blockSize := by rw [hfree]
  have hsize : s.size = a.capacity := by
    rw [size, hpaged]
    rfl
  refine ⟨a, hpaged, hfree, ?_, ?_, ?_, ?_, ?_, ?_⟩
  · rw [h.represents.size_eq]
    exact Nat.mul_le_mul_right _ (Nat.le_add_right _ _)
  · rw [hsize]
    exact h.size_le
  · rw [hsize]
    exact h.capacity_le
  · intro more
    exact (walk_allStages (new .pagedBuffer options) calls).size_le (walk_allStages s more)
  · rw [hstop]
    intro hle hlt
    obtain ⟨hblock, hlimit⟩ := Arena.le_reservation hle
    refine ⟨hblock, hlimit, ?_⟩
    rw [Arena.reserveUpTo_of_lt hle hlt]
    split
    · exact Or.inl rfl
    · exact Or.inr rfl
  · intro b start hblock
    obtain ⟨hle, -, rfl⟩ := Arena.allocateBlock_eq_done hfree hblock
    obtain ⟨-, hsuffices, -⟩ := Arena.le_provision hle
    rw [Arena.size_bytes_grown, hstop]
    exact ⟨rfl, hsuffices, rfl⟩

/-- With the first block full, the three blocks of 22 bytes have 66 bytes more to grow by. Memory is
asked for half as much again as there is: for more than a block, and for less than the limit
leaves. -/
theorem memory_after_brimful :
    Call.init 3 5 ∈ Outcome.answered step (new .pagedBuffer doubling) brimful ∧
      ∃ a, (Outcome.after step (new .pagedBuffer doubling) brimful).contents = .paged a ∧
        a.nextFree + a.layout.blockSize ≤ a.layout.arenaLimit ∧
        a.capacity < a.nextFree + a.layout.blockSize ∧
        a.reservation = 33 ∧ a.layout.blockSize ≤ a.reservation ∧
        a.reservation ≤ a.layout.arenaLimit - a.bytes.size := by
  have hinit : Call.init 3 5 ∈ Outcome.answered step (new .pagedBuffer doubling) brimful := by
    decide +kernel
  have hlayout : (Outcome.after step (new .pagedBuffer doubling) brimful).contents.layout?
      = some ⟨22, 2, 66, 132⟩ := by decide +kernel
  have hcapacity : (Outcome.after step (new .pagedBuffer doubling) brimful).contents.size = 66 := by
    decide +kernel
  obtain ⟨a, ha, hfree, hleast, hheld, -, -, hreserve, -⟩ := memory_after doubling brimful hinit
  rw [size, hcapacity] at hheld
  rw [ha] at hlayout hcapacity
  have hlayout : a.layout = ⟨22, 2, 66, 132⟩ := Option.some.inj hlayout
  have hcapacity : a.capacity = 66 := hcapacity
  have hsize : a.bytes.size = 66 := by
    rw [hlayout] at hleast
    exact Nat.le_antisymm hheld hleast
  have hreservation : a.reservation = 33 := by
    rw [Arena.reservation, hlayout, hsize]
    rfl
  have hle : a.nextFree + a.layout.blockSize ≤ a.layout.arenaLimit := by
    rw [hfree, hsize, hlayout]
    decide
  have hlt : a.capacity < a.nextFree + a.layout.blockSize := by
    rw [hfree, hsize, hcapacity, hlayout]
    decide
  obtain ⟨hblock, hlimit, -⟩ := hreserve hle hlt
  exact ⟨hinit, a, ha, hle, hlt, hreservation, hblock, hlimit⟩

end Store

end Adjacency
