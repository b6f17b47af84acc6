import Adjacency.Proofs.Store.Phases
import Mathlib.Algebra.GroupWithZero.Nat
import Mathlib.Data.List.Chain

/-!
# The blocks of an arena

Every block of an arena belongs to the chain of one node, at one place in it. The chain of a node
begins at the node's own block; from there links lead forward, through blocks that are neither empty
nor full to the last byte, to blocks that were added after the first ones.

`Arena.Partition` collects what this says about the chains that readers see. It holds in every
arena that represents chains (`Arena.Represents.partition`), so it holds in a paged store from the
call that opened it on (`Store.partition_after`).
-/

namespace Adjacency

/-! ## Chains as readers see them -/

namespace Page

variable (c : Codec) (ps : List Page) (last : Page)

theorem offset_infos : (infos c ps last).map BlockInfo.offset = (ps ++ [last]).map Page.block := by
  induction ps with
  | nil => rfl
  | cons p ps ih =>
    rw [infos, List.map_cons, ih, List.cons_append, List.map_cons]

theorem used_infos : (infos c ps last).map BlockInfo.used = (ps ++ [last]).map (Page.used c) := by
  induction ps with
  | nil => rfl
  | cons p ps ih =>
    rw [infos, List.map_cons, ih, List.cons_append, List.map_cons]

theorem length_infos : (infos c ps last).length = ps.length + 1 := by
  rw [← List.length_map BlockInfo.used, used_infos, List.length_map, List.length_append,
    List.length_singleton]

theorem infos_ne_nil : infos c ps last ≠ [] := by
  cases ps with
  | nil => exact List.cons_ne_nil _ _
  | cons p ps => exact List.cons_ne_nil _ _

theorem dropLast_infos :
    (infos c ps last).dropLast.map BlockInfo.used = ps.map (Page.used c) := by
  induction ps with
  | nil => rfl
  | cons p ps ih =>
    rw [infos, List.dropLast_cons_of_ne_nil (infos_ne_nil c ps last), List.map_cons, ih,
      List.map_cons]

theorem next_infos :
    (infos c ps last).map BlockInfo.next
      = ((infos c ps last).tail.map fun b ↦ some b.offset) ++ [none] := by
  induction ps with
  | nil => rfl
  | cons p ps ih =>
    rw [infos, List.map_cons, ih, List.tail_cons]
    cases ps with
    | nil => rfl
    | cons q ps => rfl

end Page

namespace Chain

variable (c : Codec) (k : Chain)

theorem offset_infos : (k.infos c).map BlockInfo.offset = k.blocks := Page.offset_infos c k.full k.last

theorem blocks_eq_cons : k.blocks = k.start :: k.blocks.tail := by
  rw [blocks, pages, start]
  cases k.full with
  | nil => rfl
  | cons p ps => rfl

end Chain

namespace Arena

variable {a : Arena} {nodes room : Nat} {chains : Nat → Chain} {k : Chain} {p : Page}
  {ps : List Page} {stop : Nat}

/-! ## Where the blocks of a chain lie -/

/-- **Links lead forward,** from each page to the ones behind it. -/
theorem Links.pairwise_block (h : a.Links ps stop) :
    (ps.map Page.block ++ [stop]).Pairwise (· < ·) := by
  rw [← List.isChain_iff_pairwise]
  induction ps with
  | nil => exact List.IsChain.singleton stop
  | cons p ps ih =>
    obtain ⟨-, -, hforward, -, hrest⟩ := h
    have hhead : (ps.map Page.block ++ [stop]).head? = some (Page.start ps stop) := by
      cases ps with
      | nil => rfl
      | cons q ps => rfl
    rw [List.map_cons, List.cons_append, List.isChain_cons, hhead]
    refine ⟨?_, ih hrest⟩
    rintro _ ⟨⟩
    exact hforward

theorem Links.used_pos (h : a.Links ps stop) (hp : p ∈ ps) : 0 < p.used a.codec := by
  induction ps with
  | nil => exact absurd hp List.not_mem_nil
  | cons q ps ih =>
    obtain ⟨-, hdeltas, -, -, hrest⟩ := h
    rcases List.mem_cons.mp hp with rfl | hp
    · exact Nat.pos_of_ne_zero fun hzero ↦ hdeltas ((Page.used_eq_zero a.codec p).mp hzero)
    · exact ih hrest hp

theorem HoldsChain.pairwise_blocks (h : a.HoldsChain k) : k.blocks.Pairwise (· < ·) := by
  rw [Chain.blocks, Chain.pages, List.map_append]
  exact h.links.pairwise_block

theorem HoldsChain.used_infos (h : a.HoldsChain k) {b : BlockInfo}
    (hb : b ∈ (k.infos a.codec).dropLast) : 0 < b.used ∧ b.used < a.layout.blockSize := by
  have hused := List.mem_map_of_mem (f := BlockInfo.used) hb
  rw [Chain.infos, Page.dropLast_infos, List.mem_map] at hused
  obtain ⟨p, hp, heq⟩ := hused
  obtain ⟨word, hword⟩ := h.links.holds hp
  have hlt := hword.used_lt
  rw [← heq]
  exact ⟨h.links.used_pos hp, by omega⟩

/-! ## The partition -/

/-- The arena is divided into the chains of `nodes` nodes, as readers see them. -/
structure Partition (a : Arena) (nodes : Nat) (chains : Nat → List BlockInfo) : Prop where
  chain_eq : ∀ n, n < nodes → a.chain n = .ok (chains n)
  /-- New blocks go to the end of the arena. -/
  nextFree_eq : a.nextFree = a.bytes.size
  /-- There is a block for each node, and one for each time a block was added. -/
  size_eq : a.bytes.size = nodes * a.layout.blockSize + a.reallocations * a.layout.blockSize
  size_le : a.bytes.size ≤ a.layout.arenaLimit
  blockSize_pos : 0 < a.layout.blockSize
  /-- A chain begins at the node's own block. -/
  head_eq : ∀ n, n < nodes → ((chains n).map BlockInfo.offset).head? = some (n * a.layout.blockSize)
  dvd_offset : ∀ n, n < nodes → ∀ b ∈ chains n, a.layout.blockSize ∣ b.offset
  increasing : ∀ n, n < nodes → ((chains n).map BlockInfo.offset).Pairwise (· < ·)
  /-- The other blocks of a chain were added. -/
  le_offset : ∀ n, n < nodes → ∀ b ∈ (chains n).tail, nodes * a.layout.blockSize ≤ b.offset
  /-- Each block leads to the one behind it. -/
  next_eq : ∀ n, n < nodes →
    (chains n).map BlockInfo.next = ((chains n).tail.map fun b ↦ some b.offset) ++ [none]
  used_pos : ∀ n, n < nodes → ∀ b ∈ (chains n).dropLast, 0 < b.used
  used_lt : ∀ n, n < nodes → ∀ b ∈ (chains n).dropLast, b.used < a.layout.blockSize
  /-- Chains of different nodes have no block in common. -/
  disjoint : ∀ m n, m < nodes → n < nodes → m ≠ n →
    ((chains m).map BlockInfo.offset).Disjoint ((chains n).map BlockInfo.offset)
  /-- All chains together have each block of the arena once. -/
  blocks_perm : ((List.range nodes).flatMap fun n ↦ (chains n).map BlockInfo.offset).Perm
    ((List.range (nodes + a.reallocations)).map (· * a.layout.blockSize))
  /-- The blocks that were added are those that lengthen chains. -/
  reallocations_eq : ((List.range nodes).map fun n ↦ (chains n).length - 1).sum = a.reallocations

theorem sum_pred_add {f : Nat → Nat} (hpos : ∀ n, 0 < f n) (nodes : Nat) :
    ((List.range nodes).map fun n ↦ f n - 1).sum + nodes = ((List.range nodes).map f).sum := by
  induction nodes with
  | zero => rfl
  | succ nodes ih =>
    have hlast := hpos nodes
    rw [List.range_succ, List.map_append, List.map_append, List.sum_append, List.sum_append, ← ih]
    simp only [List.map_cons, List.map_nil, List.sum_singleton]
    omega

namespace Represents

variable (h : a.Represents nodes room chains) {m n : Nat}

include h

theorem exists_of_mem_blocks (hn : n < nodes) {block : Nat} (hb : block ∈ (chains n).blocks) :
    ∃ i, i < nodes + a.reallocations ∧ block = i * a.layout.blockSize := by
  have hmem := h.blocks_perm.mem_iff.mp (List.mem_flatMap.mpr ⟨n, List.mem_range.mpr hn, hb⟩)
  obtain ⟨i, hi, rfl⟩ := List.mem_map.mp hmem
  exact ⟨i, List.mem_range.mp hi, rfl⟩

theorem disjoint_blocks (hm : m < nodes) (hn : n < nodes) (hne : m ≠ n) :
    (chains m).blocks.Disjoint (chains n).blocks := by
  intro block hblock hblock'
  obtain ⟨p, hp, rfl⟩ := List.mem_map.mp hblock
  obtain ⟨q, hq, heq⟩ := List.mem_map.mp hblock'
  exact h.block_ne hm hn hne hp hq heq.symm

theorem le_of_mem_tail (hn : n < nodes) {block : Nat} (hb : block ∈ (chains n).blocks.tail) :
    nodes * a.layout.blockSize ≤ block := by
  obtain ⟨i, -, rfl⟩ := h.exists_of_mem_blocks hn (List.mem_of_mem_tail hb)
  refine Nat.mul_le_mul_right _ (Nat.le_of_not_lt ?_)
  intro hi
  have hroot : i * a.layout.blockSize ∈ (chains i).blocks := by
    rw [Chain.blocks_eq_cons, h.start_eq i hi]
    exact List.mem_cons_self
  by_cases heq : i = n
  · -- The first block of a chain comes before the others.
    subst heq
    have hpairwise := (h.holds i hi).pairwise_blocks
    rw [Chain.blocks_eq_cons, h.start_eq i hi, List.pairwise_cons] at hpairwise
    exact Nat.lt_irrefl _ (hpairwise.1 _ hb)
  · exact h.disjoint_blocks hi hn heq hroot (List.mem_of_mem_tail hb)

theorem sum_length : ((List.range nodes).map fun n ↦ (chains n).blocks.length).sum
    = nodes + a.reallocations := by
  rw [← List.length_flatMap, h.blocks_perm.length_eq, List.length_map, List.length_range]

/-- **An arena that represents chains is divided into them.** -/
theorem partition : a.Partition nodes fun n ↦ (chains n).infos a.codec where
  chain_eq := fun n hn ↦ h.chain_eq hn
  nextFree_eq := h.nextFree_eq
  size_eq := by rw [h.size_eq, Nat.add_mul]
  size_le := h.size_le
  blockSize_pos := h.sound.blockSize_pos
  head_eq := by
    intro n hn
    rw [Chain.offset_infos, Chain.blocks_eq_cons, h.start_eq n hn]
    rfl
  dvd_offset := by
    intro n hn b hb
    have hmem := List.mem_map_of_mem (f := BlockInfo.offset) hb
    rw [Chain.offset_infos] at hmem
    obtain ⟨i, -, heq⟩ := h.exists_of_mem_blocks hn hmem
    rw [heq]
    exact Nat.dvd_mul_left _ _
  increasing := by
    intro n hn
    rw [Chain.offset_infos]
    exact (h.holds n hn).pairwise_blocks
  le_offset := by
    intro n hn b hb
    refine h.le_of_mem_tail hn ?_
    rw [← Chain.offset_infos a.codec, ← List.map_tail]
    exact List.mem_map_of_mem hb
  next_eq := fun n _ ↦ Page.next_infos a.codec (chains n).full (chains n).last
  used_pos := fun n hn b hb ↦ ((h.holds n hn).used_infos hb).1
  used_lt := fun n hn b hb ↦ ((h.holds n hn).used_infos hb).2
  disjoint := by
    intro m n hm hn hne
    rw [Chain.offset_infos, Chain.offset_infos]
    exact h.disjoint_blocks hm hn hne
  blocks_perm := by
    simp only [Chain.offset_infos]
    exact h.blocks_perm
  reallocations_eq := by
    have hsum := h.sum_length
    have hlength (n : Nat) : ((chains n).infos a.codec).length = (chains n).blocks.length := by
      rw [← Chain.offset_infos a.codec, List.length_map]
    rw [← sum_pred_add fun n ↦ by rw [Chain.blocks_eq_cons]; exact Nat.succ_pos _] at hsum
    simp only [hlength]
    omega

end Represents

end Arena

namespace Store

/-- **The arena of a paged store is divided into the chains of its nodes,** after any history in
which the store was opened. -/
theorem partition_after (options : Options) (calls : List Call) {totalNodes totalRels : UInt64}
    (hinit : Call.init totalNodes totalRels
      ∈ Outcome.answered step (new .pagedBuffer options) calls) :
    ∃ a chains, (Outcome.after step (new .pagedBuffer options) calls).contents = .paged a ∧
      a.Partition totalNodes.toNat chains := by
  have hlives := lives_after .pagedBuffer options calls
  obtain ⟨sizing, hsizing, rfl, -⟩ := hlives.sizing_eq _ _ hinit
  obtain ⟨rs, hcounted⟩ := hlives.counted
  obtain ⟨lists, hrecords⟩ := hcounted.records
  have hcontents := hrecords sizing hsizing
  have hkind := hlives.kind_eq
  rw [kind] at hkind
  cases hpaged : (Outcome.after step (new .pagedBuffer options) calls).contents with
  | null | plain | coded =>
    rw [hpaged] at hkind
    cases hkind
  | paged a =>
    rw [hpaged] at hcontents
    obtain ⟨room, chains, hrepresents, -⟩ := hcontents
    exact ⟨a, _, rfl, hrepresents.partition⟩

/-- Options for the smallest blocks, in an arena that may double. -/
def doubling : Options := ⟨.lengthPrefixed, 1, 1, ⟨0x4000000000000000⟩, none⟩

/-- Where the block of the first node is filled up, another one is added for it. -/
theorem partition_after_overfill :
    Call.init 3 5 ∈ Outcome.answered step (new .pagedBuffer doubling)
        (.init 3 5 :: overfill.map .add) ∧
      (Outcome.after step (new .pagedBuffer doubling)
        (.init 3 5 :: overfill.map .add)).reallocations = 1 ∧
      ∃ a chains, (Outcome.after step (new .pagedBuffer doubling)
        (.init 3 5 :: overfill.map .add)).contents = .paged a ∧ a.Partition 3 chains := by
  have hinit : Call.init 3 5 ∈ Outcome.answered step (new .pagedBuffer doubling)
      (.init 3 5 :: overfill.map .add) := by decide +kernel
  exact ⟨hinit, by decide +kernel, partition_after doubling _ hinit⟩

end Store

end Adjacency
