import Adjacency.Proofs.Arena.Writing
import Mathlib.Data.List.Nodup
import Mathlib.Data.List.Pairwise

/-!
# Arenas as families of chains

An arena represents a family of chains, one for each node: it holds every chain, each begins at the
first block of its node, and the blocks of all chains together are the blocks of the arena, each
taken once. The last part keeps the chains of different nodes apart, so that a write for one node
leaves the others alone.

A fresh arena represents empty chains (`represents_allocate`). An append that finds room extends the
chain of its node or adds a page to it, and the arena represents the new family
(`Represents.extend`, `Represents.turn`); an append that finds none changes nothing. These are all
outcomes of an append (`Represents.append_cases`).
-/

namespace Adjacency

open Bytes (StandsAt)

namespace Arena

/-- The arena holds the chains of `nodes` nodes and nothing else. A fresh block has room for `room`
bytes of differences. -/
structure Represents (a : Arena) (nodes room : Nat) (chains : Nat → Chain) : Prop where
  sound : a.layout.Sound a.codec nodes room
  room_pos : 0 < room
  nextFree_eq : a.nextFree = a.bytes.size
  size_eq : a.bytes.size = (nodes + a.reallocations) * a.layout.blockSize
  size_le : a.bytes.size ≤ a.layout.arenaLimit
  holds : ∀ n, n < nodes → a.HoldsChain (chains n)
  start_eq : ∀ n, n < nodes → (chains n).start = a.root n
  /-- Every block belongs to one chain, and only once. -/
  blocks_perm : ((List.range nodes).flatMap fun n ↦ (chains n).blocks).Perm
    ((List.range (nodes + a.reallocations)).map (· * a.layout.blockSize))

variable {a new : Arena} {nodes room node capacity : Nat} {chains : Nat → Chain} {k : Chain}
  {target : UInt64}

/-! ## Families of lists -/

theorem flatMap_update_perm {α : Type} (f : Nat → List α) (added : List α) (hn : node < nodes) :
    ((List.range nodes).flatMap (Function.update f node (f node ++ added))).Perm
      ((List.range nodes).flatMap f ++ added) := by
  induction nodes with
  | zero => exact absurd hn (Nat.not_lt_zero node)
  | succ nodes ih =>
    rw [List.range_succ, List.flatMap_append, List.flatMap_append, List.flatMap_singleton,
      List.flatMap_singleton]
    rcases Nat.lt_succ_iff_lt_or_eq.mp hn with hlt | rfl
    · rw [Function.update_of_ne (Nat.ne_of_gt hlt)]
      refine ((ih hlt).append_right (f nodes)).trans ?_
      rw [List.append_assoc, List.append_assoc]
      exact List.perm_append_comm.append_left _
    · rw [Function.update_self, ← List.append_assoc]
      refine List.Perm.of_eq (congrArg (· ++ f node ++ added) (List.flatMap_congr ?_))
      intro i hi
      rw [Function.update_of_ne (Nat.ne_of_lt (List.mem_range.mp hi))]

namespace Represents

variable (h : a.Represents nodes room chains) (hn : node < nodes)

include h

/-! ## Where chains lie -/

include hn in
theorem dvd_start : a.layout.blockSize ∣ (chains node).start := by
  rw [h.start_eq node hn]
  exact Nat.dvd_mul_left _ _

theorem dvd_size : a.layout.blockSize ∣ a.bytes.size := by
  rw [h.size_eq]
  exact Nat.dvd_mul_left _ _

theorem nodup_blocks : ((List.range nodes).flatMap fun n ↦ (chains n).blocks).Nodup := by
  refine h.blocks_perm.nodup_iff.mpr (List.Nodup.map ?_ List.nodup_range)
  intro i j hij
  exact Nat.eq_of_mul_eq_mul_right h.sound.blockSize_pos hij

theorem block_ne {m n : Nat} (hm : m < nodes) (hn : n < nodes) (hne : m ≠ n) {p q : Page}
    (hp : p ∈ (chains m).pages) (hq : q ∈ (chains n).pages) : p.block ≠ q.block := by
  have hapart := (List.nodup_flatMap.mp h.nodup_blocks).2
  have : Std.Symm (Function.onFun List.Disjoint fun n ↦ (chains n).blocks) :=
    ⟨fun _ _ hd _ hx hy ↦ hd hy hx⟩
  intro heq
  exact hapart.forall (List.mem_range.mpr hm) (List.mem_range.mpr hn) hne
    (List.mem_map_of_mem hp) (heq ▸ List.mem_map_of_mem hq)

/-! ## After an append -/

include hn in
/-- A chain may be replaced by a longer one that lies in the same blocks and new ones, if all other
chains stay as they are. -/
theorem replace {added : List Nat} (hcodec : new.codec = a.codec) (hlayout : new.layout = a.layout)
    (hfree : new.nextFree = new.bytes.size)
    (hsize : new.bytes.size = (nodes + new.reallocations) * a.layout.blockSize)
    (hle : new.bytes.size ≤ a.layout.arenaLimit) (hk : new.HoldsChain k)
    (hstart : k.start = (chains node).start) (hblocks : k.blocks = (chains node).blocks ++ added)
    (hadded : (List.range (nodes + new.reallocations)).map (· * a.layout.blockSize)
      = (List.range (nodes + a.reallocations)).map (· * a.layout.blockSize) ++ added)
    (hother : ∀ m, m < nodes → m ≠ node → ∀ p ∈ (chains m).pages, SameOn a new p.block) :
    new.Represents nodes room (Function.update chains node k) where
  sound := by
    rw [hcodec, hlayout]
    exact h.sound
  room_pos := h.room_pos
  nextFree_eq := hfree
  size_eq := by
    rw [hlayout]
    exact hsize
  size_le := by
    rw [hlayout]
    exact hle
  holds := by
    intro m hm
    rcases eq_or_ne m node with rfl | hne
    · rw [Function.update_self]
      exact hk
    · rw [Function.update_of_ne hne]
      exact (h.holds m hm).frame h.sound (hother m hm hne)
  start_eq := by
    intro m hm
    rw [root, hlayout, ← root, ← h.start_eq m hm]
    rcases eq_or_ne m node with rfl | hne
    · rw [Function.update_self, hstart]
    · rw [Function.update_of_ne hne]
  blocks_perm := by
    -- Only the blocks of the one node become more.
    have hjoin : (fun m ↦ (Function.update chains node k m).blocks)
        = Function.update (fun m ↦ (chains m).blocks) node ((chains node).blocks ++ added) := by
      rw [← hblocks]
      exact Function.comp_update Chain.blocks chains node k
    rw [hjoin, hlayout, hadded]
    exact (flatMap_update_perm (fun m ↦ (chains m).blocks) added hn).trans
      (h.blocks_perm.append_right added)

include hn in
theorem apart_last {m : Nat} (hm : m < nodes) (hne : m ≠ node) {p : Page}
    (hp : p ∈ (chains m).pages) :
    (chains node).last.block + a.layout.blockSize ≤ p.block ∨
      p.block + a.layout.blockSize ≤ (chains node).last.block := by
  have hlast : (chains node).last ∈ (chains node).pages :=
    List.mem_append_right _ List.mem_cons_self
  have hdvd := (h.holds m hm).dvd_block (h.dvd_start hm) hp
  have hdvdLast := (h.holds node hn).dvd_block (h.dvd_start hn) hlast
  rcases Nat.lt_or_gt_of_ne (h.block_ne hm hn hne hp hlast) with hlt | hlt
  · exact Or.inr (add_le_of_dvd_of_lt hdvd hdvdLast hlt)
  · exact Or.inl (add_le_of_dvd_of_lt hdvdLast hdvd hlt)

include hn in
/-- **An append that finds room keeps the representation.** -/
theorem extend (hroom : a.demand (chains node) target < a.layout.blockSize) :
    (a.placed (a.lastSlot (chains node)) ((chains node).step target) target).Represents nodes room
      (Function.update chains node ((chains node).extend ((chains node).step target))) := by
  have hk := h.holds node hn
  refine h.replace hn rfl rfl ?_ ?_ ?_ (hk.extend h.sound (h.dvd_start hn) h.size_le hroom) rfl ?_
    (List.append_nil _).symm ?_
  · rw [size_bytes_placed]
    exact h.nextFree_eq
  · rw [size_bytes_placed]
    exact h.size_eq
  · rw [size_bytes_placed]
    exact h.size_le
  · rw [Chain.blocks_extend, List.append_nil]
  · intro m hm hne p hp
    exact sameOn_placed (hk.fits_lastSlot h.sound h.size_le hroom) (h.apart_last hn hm hne hp)

include hn in
/-- **An append that adds a block keeps the representation.** -/
theorem turn (hle : a.bytes.size + a.layout.blockSize ≤ a.layout.arenaLimit)
    (hfull : a.layout.blockSize ≤ a.demand (chains node) target) :
    ((a.linked (chains node) capacity).placed (a.newSlot (chains node))
      ((chains node).step target) target).Represents nodes room
      (Function.update chains node
        ((chains node).turn a.bytes.size ((chains node).step target))) := by
  have hk := h.holds node hn
  have hsize : (a.linked (chains node) capacity).bytes.size
      = (nodes + (a.reallocations + 1)) * a.layout.blockSize := by
    rw [size_bytes_linked, h.size_eq, ← Nat.add_assoc, Nat.succ_mul]
  refine h.replace hn rfl rfl ?_ ?_ ?_
    (hk.turn h.sound (h.dvd_start hn) h.room_pos hle h.dvd_size hfull)
    (Chain.start_turn _ _ _) (Chain.blocks_turn _ _ _) ?_ ?_
  · rw [size_bytes_placed, size_bytes_linked]
    rfl
  · rw [size_bytes_placed]
    exact hsize
  · rw [size_bytes_placed, size_bytes_linked]
    exact hle
  · -- The new block lies at the end of the arena.
    show (List.range (nodes + (a.reallocations + 1))).map (· * a.layout.blockSize) = _
    rw [← Nat.add_assoc, List.range_succ, List.map_append, h.size_eq]
    rfl
  · intro m hm hne p hp
    obtain ⟨word, hword⟩ := (h.holds m hm).holds hp
    exact (sameOn_linked h.sound hk hle hword.block_le (h.apart_last hn hm hne hp)).trans
      (sameOn_placed (fits_newSlot h.sound h.room_pos hle) (Or.inr hword.block_le))

include hn in
/-- **The three outcomes of an append:** the id goes to the last block, to a new one, or nowhere. -/
theorem append_cases (target : UInt64) :
    (a.demand (chains node) target < a.layout.blockSize ∧
      a.append node target
        = ⟨.ok (a.traceOf node (chains node) (a.lastSlot (chains node)) target),
          a.placed (a.lastSlot (chains node)) ((chains node).step target) target,
          [.pageHops (chains node).full.length]⟩) ∨
    (a.layout.blockSize ≤ a.demand (chains node) target ∧
      a.bytes.size + a.layout.blockSize ≤ a.layout.arenaLimit ∧ ∃ capacity,
      a.allocateBlock = .done (a.grown capacity) a.bytes.size ∧
      a.append node target
        = ⟨.ok (a.traceOf node (chains node) (a.newSlot (chains node)) target),
          (a.linked (chains node) capacity).placed (a.newSlot (chains node))
            ((chains node).step target) target,
          [.pageHops (chains node).full.length,
            .blockRelocated node (chains node).last.block a.bytes.size
              ((chains node).last.used a.codec) (chains node).full.length]⟩) ∨
    (a.layout.blockSize ≤ a.demand (chains node) target ∧ ∃ limit requested event,
      a.allocateBlock = .fail a (.capacityExceeded .pagedArena limit requested) [event] ∧
      a.append node target
        = .fail a (.capacityExceeded .pagedArena limit requested)
          [.pageHops (chains node).full.length, event]) := by
  have hk := h.holds node hn
  have hroot := (h.start_eq node hn).symm
  rcases Nat.lt_or_ge (a.demand (chains node) target) a.layout.blockSize with hroom | hfull
  · exact Or.inl ⟨hroom, append_of_room h.sound hk hroot h.size_le hroom⟩
  · rcases allocateBlock_cases h.nextFree_eq with ⟨-, hrefused⟩ | ⟨-, grow, hrefused⟩ |
      ⟨hle, capacity, -, -, -, hblock⟩
    · exact Or.inr (Or.inr ⟨hfull, _, _, _, hrefused,
        append_of_refused h.sound hk hroot hfull hrefused⟩)
    · exact Or.inr (Or.inr ⟨hfull, _, _, _, hrefused,
        append_of_refused h.sound hk hroot hfull hrefused⟩)
    · exact Or.inr (Or.inl ⟨hfull, hle, capacity, hblock,
        append_of_allocated h.sound hk hroot h.room_pos hle hfull hblock⟩)

include hn in
/-- **An append adds its id to the ids of its node,** or there is no memory for it and nothing
changes. -/
theorem append_ids (target : UInt64) :
    (∃ trace l, (a.append node target).result = .ok trace ∧
      l.ids = (chains node).ids ++ [target] ∧
      (a.append node target).state.Represents nodes room (Function.update chains node l)) ∨
    (∃ limit requested,
      (a.append node target).result = .error (.capacityExceeded .pagedArena limit requested) ∧
      (a.append node target).state = a) := by
  rcases h.append_cases hn target with ⟨hroom, heq⟩ | ⟨hfull, hle, capacity, -, heq⟩ |
    ⟨-, limit, requested, event, -, heq⟩
  · rw [heq]
    exact Or.inl ⟨_, _, rfl, Chain.ids_extend _ _, h.extend hn hroom⟩
  · rw [heq]
    exact Or.inl ⟨_, _, rfl, Chain.ids_turn _ _ _, h.turn hn hle hfull⟩
  · rw [heq]
    exact Or.inr ⟨limit, requested, rfl, rfl⟩

include hn in
theorem chain_eq : a.chain node = .ok ((chains node).infos a.codec) := by
  rw [Arena.chain, ← h.start_eq node hn]
  exact (h.holds node hn).blocks_eq h.sound

include hn in
theorem targets_eq : a.targets node = .ok (chains node).ids :=
  (h.holds node hn).targets_eq h.sound (h.start_eq node hn).symm

end Represents

/-! ## A fresh arena -/

theorem holds_of_zero {block : Nat} (hl : a.layout.Sound a.codec nodes room) (hroom : 0 < room)
    (hle : block + a.layout.blockSize ≤ a.bytes.size) (hzero : a.bytes[block]? = some 0) :
    a.Holds ⟨block, []⟩ 0 := by
  have hblock := hl.blockSize_eq
  refine ⟨?_, Nat.zero_le _, Bytes.standsAt_nil _ _, ?_, hle⟩
  · rw [Int.natCast_zero, Codec.code_zero, Bytes.standsAt_singleton]
    exact hzero
  · show a.layout.headerLen + 0 < a.layout.blockSize
    omega

theorem represents_allocate {extraBlocks : Nat → Nat → Nat} {options : Options} {sizing : Sizing}
    (hroom : 0 < sizing.fanOut * options.bytesPerEdge.toNat)
    (h : Arena.allocate extraBlocks options sizing = .ok a) :
    a.Represents sizing.totalNodes.toNat (sizing.fanOut * options.bytesPerEdge.toNat)
      fun n ↦ Chain.blank (n * a.layout.blockSize) := by
  rw [Arena.allocate, Check.bind_eq_ok] at h
  obtain ⟨l, hchoose, h⟩ := h
  rw [Check.bind_eq_ok] at h
  obtain ⟨-, -, h⟩ := h
  cases h
  have hl := Layout.sound_of_choose hchoose
  have hsize : (Array.replicate l.rootLen (0 : UInt8)).size
      = sizing.totalNodes.toNat * l.blockSize := by
    rw [Array.size_replicate, hl.rootLen_eq]
  refine ⟨hl, hroom, ?_, hsize, ?_, fun n hn ↦ ⟨trivial, ?_, ?_, ?_, ?_⟩, fun n _ ↦ rfl, ?_⟩
  · rw [Array.size_replicate]
  · rw [Array.size_replicate]
    exact hl.rootLen_le
  · -- A zero in front of a block is the header word of an empty page.
    have hpos := hl.blockSize_pos
    have hle : n * l.blockSize + l.blockSize ≤ l.rootLen := by
      rw [hl.rootLen_eq, ← Nat.succ_mul]
      exact Nat.mul_le_mul_right _ hn
    refine holds_of_zero hl hroom ?_ ?_
    · rw [Array.size_replicate]
      exact hle
    · show (Array.replicate l.rootLen (0 : UInt8))[n * l.blockSize]? = some 0
      rw [Array.getElem?_replicate, if_pos (by omega)]
  · exact fun hne ↦ absurd rfl hne
  · exact fun hne ↦ absurd rfl hne
  · exact fun hne ↦ absurd rfl hne
  · rw [List.map_eq_flatMap]
    exact List.Perm.refl _

end Arena

end Adjacency
