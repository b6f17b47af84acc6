import Adjacency.Proofs.Store.Growth
import Adjacency.Proofs.Store.Memory
import Mathlib.Algebra.BigOperators.Ring.Finset
import Mathlib.Algebra.Group.Action.Defs
import Mathlib.Algebra.Order.BigOperators.Group.Finset
import Mathlib.Algebra.Order.BigOperators.Group.List

/-!
# Nothing grows before it has to

A sizing tells how much each node is expected to take, its room. An array is only grown, and a block
only left for another one, when it holds that much. So an arena that has reached its limit holds at
least the room of all blocks that were added to it and of one block more, the one that could not be
left (`Arena.Provided.le_sum_used`).
-/

namespace Adjacency

theorem Chain.getLast?_infos (c : Codec) (k : Chain) :
    (k.infos c).getLast? = some ⟨k.last.block, k.last.used c, none⟩ := by
  rw [infos, Page.infos_eq_concat, List.getLast?_concat]

namespace Arena

namespace Provided

variable {a : Arena} {nodes room node n : Nat} {chains : Nat → Chain} {target : UInt64}
  (h : a.Provided nodes room chains)

include h

/-! ## One append -/

theorem le_used_of_relocated (hn : node < nodes) {t : AppendTrace}
    (hok : (a.append node target).result = .ok t) (hnew : t.relocatedTo.isSome = true) :
    room ≤ (chains node).last.used a.codec := by
  rcases h.represents.append_cases hn target with ⟨-, heq⟩ | ⟨hfull, -, capacity, -, -⟩ |
    ⟨-, limit, requested, event, -, heq⟩
  · rw [heq] at hok
    cases hok
    cases hnew
  · exact le_used_of_full h.represents.sound hfull
  · rw [heq] at hok
    cases hok

/-- An arena is used up when the last block of a node holds what is expected and no other block fits
below the limit. -/
theorem exhausted (hn : node < nodes) {requested : Nat}
    (herror : (a.append node target).result
      = .error (.capacityExceeded .pagedArena a.layout.arenaLimit requested)) :
    room ≤ (chains node).last.used a.codec ∧
      a.layout.arenaLimit < a.bytes.size + a.layout.blockSize := by
  rcases h.represents.append_cases hn target with ⟨-, heq⟩ | ⟨-, -, capacity, -, heq⟩ |
    ⟨hfull, limit, _, event, hblock, heq⟩
  · rw [heq] at herror
    cases herror
  · rw [heq] at herror
    cases herror
  · rw [heq] at herror
    cases herror
    exact ⟨le_used_of_full h.represents.sound hfull, h.lt_of_allocateBlock hblock⟩

/-! ## All blocks -/

theorem length_mul_le (hn : n < nodes) :
    (chains n).full.length * room ≤ ((chains n).full.map (Page.used a.codec)).sum := by
  have hle := List.card_nsmul_le_sum ((chains n).full.map (Page.used a.codec)) room (by
    intro used hused
    obtain ⟨p, hp, rfl⟩ := List.mem_map.mp hused
    exact h.le_used n hn p hp)
  rw [List.length_map, smul_eq_mul] at hle
  exact hle

theorem sum_length_full :
    ∑ n ∈ Finset.range nodes, (chains n).full.length = a.reallocations := by
  rw [← h.represents.partition.reallocations_eq]
  refine congrArg List.sum (List.map_congr_left fun n _ ↦ ?_)
  rw [Chain.infos, Page.length_infos, Nat.add_sub_cancel]

/-- **What an arena holds when a block cannot be left:** the room of this block, and of each block
that was left before. -/
theorem le_sum_used (hn : node < nodes) (hlast : room ≤ (chains node).last.used a.codec) :
    (a.reallocations + 1) * room
      ≤ ∑ n ∈ Finset.range nodes, (((chains n).infos a.codec).map BlockInfo.used).sum := by
  calc (a.reallocations + 1) * room
      = ∑ n ∈ Finset.range nodes,
          ((chains n).full.length * room + if n = node then room else 0) := by
        rw [Finset.sum_add_distrib, ← Finset.sum_mul, h.sum_length_full, Finset.sum_ite_eq',
          if_pos (Finset.mem_range.mpr hn), Nat.succ_mul]
    _ ≤ ∑ n ∈ Finset.range nodes, (((chains n).infos a.codec).map BlockInfo.used).sum := by
        refine Finset.sum_le_sum fun n hmem ↦ ?_
        have hfull := h.length_mul_le (Finset.mem_range.mp hmem)
        rw [Chain.infos, Page.used_infos, List.map_append, List.sum_append, List.map_singleton,
          List.sum_singleton]
        split
        · next heq =>
          subst heq
          exact Nat.add_le_add hfull hlast
        · exact Nat.le_trans hfull (Nat.le_add_right _ _)

theorem div_le_reallocations (hlimit : a.layout.arenaLimit < a.bytes.size + a.layout.blockSize) :
    (a.layout.arenaLimit - nodes * a.layout.blockSize) / a.layout.blockSize ≤ a.reallocations := by
  have hsize := h.represents.size_eq
  have hle := h.represents.size_le
  rw [Nat.add_mul] at hsize
  refine Nat.le_of_lt_succ ((Nat.div_lt_iff_lt_mul h.represents.sound.blockSize_pos).mpr ?_)
  rw [Nat.succ_mul]
  omega

end Provided

end Arena

namespace Store

/-- The blocks of a paged store are not left, and its arena is not used up, before they hold the
room they were given. -/
structure TimelyBlocks (s : Store) (a : Arena) (nodes room : Nat) (blocks : Nat → List BlockInfo) :
    Prop where
  chain_eq : ∀ n, n < nodes → a.chain n = .ok (blocks n)
  /-- Each block that was left for another one holds its room. -/
  le_used : ∀ n, n < nodes → ∀ b ∈ (blocks n).dropLast, room ≤ b.used
  /-- A block that is left for another one holds its room. -/
  relocated : ∀ node target t, (s.append node target).result = .ok (some t) →
    t.relocatedTo.isSome = true →
    ∃ last, (blocks node.toNat).getLast? = some last ∧ room ≤ last.used
  /-- If the limit of the arena is reached, then the blocks hold the room of all blocks that could
  be added and of one more. -/
  exhausted : ∀ node target requested, (s.append node target).result
      = .error (.capacityExceeded .pagedArena a.layout.arenaLimit requested) →
    ((a.layout.arenaLimit - nodes * a.layout.blockSize) / a.layout.blockSize + 1) * room
      ≤ ∑ n ∈ Finset.range nodes, ((blocks n).map BlockInfo.used).sum

variable {s : Store} {a : Arena} {sizing : Sizing} {room : Nat} {chains : Nat → Chain}

theorem append_paged_result (hpaged : s.contents = .paged a)
    (hsizing : s.lifecycle.sizing? = some sizing) (node target : NodeId) :
    (∃ r, s.lifecycle.accept node target = .error r ∧
      (s.append node target).result = .error r.cause) ∨
    (node.toNat < sizing.totalNodes.toNat ∧
      (s.append node target).result = (a.append node.toNat target).result.map some) := by
  cases haccept : s.lifecycle.accept node target with
  | error r =>
    rw [append_of_refused haccept]
    exact Or.inl ⟨r, rfl, rfl⟩
  | ok admitted =>
    obtain ⟨i, l⟩ := admitted
    obtain ⟨rfl, hnode⟩ := Lifecycle.lt_of_accept haccept hsizing
    exact Or.inr ⟨hnode, (append_paged hpaged haccept).1⟩

theorem timelyBlocks (hpaged : s.contents = .paged a)
    (hsizing : s.lifecycle.sizing? = some sizing)
    (h : a.Provided sizing.totalNodes.toNat room chains) :
    s.TimelyBlocks a sizing.totalNodes.toNat room fun n ↦ (chains n).infos a.codec := by
  refine ⟨fun n hn ↦ h.represents.chain_eq hn, ?_, ?_, ?_⟩
  · intro n hn b hb
    have hused := List.mem_map_of_mem (f := BlockInfo.used) hb
    rw [Chain.infos, Page.dropLast_infos, List.mem_map] at hused
    obtain ⟨p, hp, heq⟩ := hused
    rw [← heq]
    exact h.le_used n hn p hp
  · intro node target t hok hnew
    rcases append_paged_result hpaged hsizing node target with ⟨r, -, herror⟩ | ⟨hnode, heq⟩
    · rw [herror] at hok
      cases hok
    · rw [heq] at hok
      cases hresult : (a.append node.toNat target).result with
      | error cause =>
        rw [hresult] at hok
        cases hok
      | ok t' =>
        rw [hresult] at hok
        cases hok
        exact ⟨_, Chain.getLast?_infos _ _, h.le_used_of_relocated hnode hresult hnew⟩
  · intro node target requested herror
    rcases append_paged_result hpaged hsizing node target with ⟨r, hrefused, hcause⟩ | ⟨hnode, heq⟩
    · -- An entry that is not admitted does not come to the arena.
      have hnever := isExhausted_of_refused hrefused
      rw [Except.error.inj (hcause.symm.trans herror)] at hnever
      cases hnever
    · rw [heq] at herror
      cases hresult : (a.append node.toNat target).result with
      | ok t =>
        rw [hresult] at herror
        cases herror
      | error cause =>
        rw [hresult] at herror
        cases herror
        obtain ⟨hlast, hlimit⟩ := h.exhausted hnode hresult
        have hadded := h.div_le_reallocations hlimit
        exact Nat.le_trans (Nat.mul_le_mul_right room (Nat.succ_le_succ hadded))
          (h.le_sum_used hnode hlast)

/-- **Nothing grows before it has to.** In any store that was opened, whatever led there:

* an array of ids grows at the next entry only if it holds as many as the fan-out, and for the first
  time only if it holds exactly that many;
* an array of codes grows at the next entry only if it holds more bytes than expected;
* a block is left, and an arena used up, only if the blocks hold the room they were given. -/
theorem timely_after (kind : Kind) (options : Options) (calls : List Call) {sizing : Sizing}
    (hsizing : (Outcome.after step (new kind options) calls).lifecycle.sizing? = some sizing) :
    let s := Outcome.after step (new kind options) calls
    let room := sizing.fanOut * options.bytesPerEdge.toNat
    (kind = .plainArray → ∀ node target n x, s.contents.extent? n = some x →
        grows n (s, (s.append node target).state) = true →
        sizing.fanOut ≤ x.held ∧
          (growths (allStages (new kind options) calls) n = 0 → x.held = sizing.fanOut)) ∧
      (kind = .byteArray → ∀ node target n x, s.contents.extent? n = some x →
        grows n (s, (s.append node target).state) = true → room < x.held) ∧
      (kind = .pagedBuffer → ∃ a blocks, s.contents = .paged a ∧
        s.TimelyBlocks a sizing.totalNodes.toNat room blocks) := by
  intro s room
  have hwalk := walk_allStages (new kind options) calls
  refine ⟨?_, ?_, ?_⟩
  · rintro rfl node target n x hx hgrows
    obtain ⟨hdoubled, htight, hheld⟩ :=
      hwalk.tight_of_grows rfl hsizing hx (passes_append s node target) hgrows
    refine ⟨hheld, ?_⟩
    intro hnone
    have hfull : x.held = x.capacity := Extent.held_eq_of_isTight hdoubled.held_le htight
    have hcapacity : x.capacity + 1 = sizing.fanOut + 1 := hdoubled.capacity_eq hnone
    omega
  · rintro rfl node target n x hx hgrows
    exact (hwalk.tight_of_grows rfl hsizing hx (passes_append s node target) hgrows).2.2
  · rintro rfl
    obtain ⟨a, chains, hpaged, h⟩ := hwalk.provided.opened sizing hsizing
    exact ⟨a, _, hpaged, timelyBlocks hpaged hsizing h⟩

/-- In an arena that gets no block beyond the first three, the block of the first node is full, and
it holds the room of two bytes that one more block would be given. -/
theorem timely_after_brimful :
    (Outcome.after step (new .pagedBuffer narrow) brimful).lifecycle.sizing? = some ⟨3, 5, 2⟩ ∧
      ∃ (a : Arena) (blocks : Nat → List BlockInfo),
        (Outcome.after step (new .pagedBuffer narrow) brimful).contents = .paged a ∧
        ((Outcome.after step (new .pagedBuffer narrow) brimful).append 0 1).result
          = .error (.capacityExceeded .pagedArena a.layout.arenaLimit 88) ∧
        ((a.layout.arenaLimit - 3 * a.layout.blockSize) / a.layout.blockSize + 1) * 2
          ≤ ∑ n ∈ Finset.range 3, ((blocks n).map BlockInfo.used).sum := by
  have hsizing : (Outcome.after step (new .pagedBuffer narrow) brimful).lifecycle.sizing?
      = some ⟨3, 5, 2⟩ := by decide +kernel
  have hlimit : (Outcome.after step (new .pagedBuffer narrow) brimful).contents.layout?.map
      Layout.arenaLimit = some 66 := by decide +kernel
  have herror : ((Outcome.after step (new .pagedBuffer narrow) brimful).append 0 1).result
      = .error (.capacityExceeded .pagedArena 66 88) := by decide +kernel
  obtain ⟨-, -, hblocks⟩ := timely_after .pagedBuffer narrow brimful hsizing
  obtain ⟨a, blocks, ha, htimely⟩ := hblocks rfl
  rw [ha] at hlimit
  rw [← Option.some.inj hlimit] at herror
  exact ⟨hsizing, a, blocks, ha, herror, htimely.exhausted 0 1 88 herror⟩

end Store

end Adjacency
