import Adjacency.Proofs.Arena.Represents
import Adjacency.Proofs.Runs
import Mathlib.Algebra.BigOperators.Group.List.Basic
import Mathlib.Algebra.GroupWithZero.Nat

/-!
# The shape of an arena

Where the blocks of a node lie depends on when other nodes were given theirs. How many there are and
what each of them holds does not: it follows from the ids of the node alone, added one after another
to pages without places (`shape`). A chain is compared with such pages by forgetting its places
(`Chain.forget`).

What memory an arena is granted does not depend on the node that asks for it either, but on how many
blocks were added before (`withBlocks`). So an arena is determined, up to places, by the lists of its
nodes (`Grown`), and an append keeps it so (`Grown.append_cases`).
-/

namespace Adjacency

/-! ## Chains without places -/

/-- The page without its place. -/
def Page.forget (p : Page) : Page := ⟨0, p.deltas⟩

namespace Chain

/-- The chain without the places of its pages. -/
def forget (k : Chain) : Chain := ⟨k.full.map Page.forget, k.last.forget⟩

variable (k : Chain) (block : Nat) (d : Int64) (target : UInt64)

theorem pages_forget : k.forget.pages = k.pages.map Page.forget := by
  rw [pages, pages, List.map_append]
  rfl

theorem ids_forget : k.forget.ids = k.ids := by
  rw [ids, deltas, pages_forget, List.flatMap_map]
  rfl

theorem step_forget : k.forget.step target = k.step target := by
  rw [step, lastId, ids_forget]
  rfl

theorem forget_turn : (k.turn block d).forget = k.forget.turn 0 d := by
  rw [turn, forget, ← pages_forget]
  rfl

theorem length_full_forget : k.forget.full.length = k.full.length := List.length_map _

theorem used_forget (c : Codec) : k.forget.pages.map (Page.used c) = k.pages.map (Page.used c) := by
  rw [pages_forget, List.map_map]
  rfl

end Chain

/-! ## Sums over all nodes -/

/-- The sum over all nodes of a number that depends on the list of each. -/
def sumOver (nodes : Nat) (f : List NodeId → Nat) (lists : Nat → List NodeId) : Nat :=
  ((List.range nodes).map fun n ↦ f (lists n)).sum

variable {nodes node : Nat} {lists : Nat → List NodeId}

theorem sumOver_eq_zero {f : List NodeId → Nat} (h : ∀ n, n < nodes → f (lists n) = 0) :
    sumOver nodes f lists = 0 := by
  refine List.sum_eq_zero ?_
  intro x hx
  obtain ⟨n, hn, rfl⟩ := List.mem_map.mp hx
  exact h n (List.mem_range.mp hn)

theorem sumOver_update {f : List NodeId → Nat} {more : List NodeId} {d : Nat} (hn : node < nodes)
    (hf : f more = f (lists node) + d) :
    sumOver nodes f (Function.update lists node more) = sumOver nodes f lists + d := by
  induction nodes with
  | zero => exact absurd hn (Nat.not_lt_zero node)
  | succ nodes ih =>
    rw [sumOver, sumOver, List.range_succ, List.map_append, List.map_append, List.sum_append,
      List.sum_append, ← sumOver, ← sumOver, List.map_singleton, List.map_singleton,
      List.sum_singleton, List.sum_singleton]
    rcases Nat.lt_succ_iff_lt_or_eq.mp hn with hlt | rfl
    · rw [ih hlt, Function.update_of_ne (Nat.ne_of_gt hlt), Nat.add_right_comm]
    · have hothers : sumOver node f (Function.update lists node more) = sumOver node f lists := by
        refine congrArg List.sum (List.map_congr_left ?_)
        intro n hmem
        rw [Function.update_of_ne (Nat.ne_of_lt (List.mem_range.mp hmem))]
      rw [hothers, Function.update_self, hf, Nat.add_assoc]

namespace Arena

/-! ## What the ids of a node determine -/

section Shape

variable (a : Arena)

/-- The pages after an id was added, without places. -/
def grow (k : Chain) (target : UInt64) : Chain :=
  if a.demand k target < a.layout.blockSize then k.extend (k.step target)
  else k.turn 0 (k.step target)

/-- The pages that hold the ids of a node, without places. -/
def shape (ids : List UInt64) : Chain := ids.foldl a.grow (Chain.blank 0)

/-- How many blocks were added for the ids of a node. -/
def links (ids : List UInt64) : Nat := (a.shape ids).full.length

/-- How many links were followed when the ids of a node were added. -/
def hops (ids : List UInt64) : Nat := ((List.range ids.length).map fun i ↦ a.links (ids.take i)).sum

variable (ids : List UInt64) (target : UInt64)

theorem shape_concat : a.shape (ids ++ [target]) = a.grow (a.shape ids) target := by
  rw [shape, List.foldl_append]
  rfl

theorem demand_forget (k : Chain) : a.demand k.forget target = a.demand k target := by
  rw [demand, Chain.step_forget]
  rfl

variable {a ids target}

theorem shape_of_room (h : a.demand (a.shape ids) target < a.layout.blockSize) :
    a.shape (ids ++ [target]) = (a.shape ids).extend ((a.shape ids).step target) := by
  rw [shape_concat, grow, if_pos h]

theorem shape_of_full (h : a.layout.blockSize ≤ a.demand (a.shape ids) target) :
    a.shape (ids ++ [target]) = (a.shape ids).turn 0 ((a.shape ids).step target) := by
  rw [shape_concat, grow, if_neg (Nat.not_lt.mpr h)]

theorem links_of_room (h : a.demand (a.shape ids) target < a.layout.blockSize) :
    a.links (ids ++ [target]) = a.links ids := by
  rw [links, shape_of_room h]
  rfl

theorem links_of_full (h : a.layout.blockSize ≤ a.demand (a.shape ids) target) :
    a.links (ids ++ [target]) = a.links ids + 1 := by
  rw [links, shape_of_full h]
  exact List.length_append

theorem hops_concat : a.hops (ids ++ [target]) = a.hops ids + a.links ids := by
  have hbefore : ∀ i ∈ List.range ids.length, a.links ((ids ++ [target]).take i)
      = a.links (ids.take i) := by
    intro i hi
    rw [List.take_append_of_le_length (Nat.le_of_lt (List.mem_range.mp hi))]
  rw [hops, List.length_append, List.length_singleton, List.range_succ, List.map_append,
    List.sum_append, List.map_congr_left hbefore, ← hops, List.map_singleton, List.sum_singleton,
    List.take_left]

end Shape

/-! ## What the number of blocks determines -/

/-- Both arenas have the same memory, and the same part of it is taken. -/
structure SameRoom (a b : Arena) : Prop where
  layout_eq : b.layout = a.layout
  size_eq : b.bytes.size = a.bytes.size
  capacity_eq : b.capacity = a.capacity
  nextFree_eq : b.nextFree = a.nextFree

/-- The arena after some requests for blocks. -/
def withBlocks (a : Arena) : (requests : Nat) → Arena
  | 0 => a
  | requests + 1 => (a.withBlocks requests).allocateBlock.state

variable {a b c : Arena}

theorem SameRoom.trans (hab : a.SameRoom b) (hbc : b.SameRoom c) : a.SameRoom c where
  layout_eq := hbc.layout_eq.trans hab.layout_eq
  size_eq := hbc.size_eq.trans hab.size_eq
  capacity_eq := hbc.capacity_eq.trans hab.capacity_eq
  nextFree_eq := hbc.nextFree_eq.trans hab.nextFree_eq

theorem SameRoom.reserveUpTo (h : a.SameRoom b) (stop : Nat) :
    (a.reserveUpTo stop).Agree (b.reserveUpTo stop) SameRoom := by
  rw [Arena.reserveUpTo, Arena.reserveUpTo, h.layout_eq, h.size_eq, h.capacity_eq]
  dsimp only
  split
  · exact ⟨rfl, h⟩
  · split
    · exact ⟨rfl, rfl, h.size_eq, rfl, h.nextFree_eq⟩
    · exact ⟨rfl, h⟩

theorem SameRoom.allocateBlock (h : a.SameRoom b) :
    a.allocateBlock.Agree b.allocateBlock SameRoom := by
  rw [Arena.allocateBlock, Arena.allocateBlock, h.layout_eq, h.nextFree_eq]
  dsimp only
  split
  · exact ⟨rfl, h⟩
  · refine (h.reserveUpTo _).andThen ?_
    rintro ⟨codec, layout, bytes, capacity, nextFree, reallocations, bytesWritten⟩
      ⟨codec', layout', bytes', capacity', nextFree', reallocations', bytesWritten'⟩ - hroom
    refine ⟨rfl, hroom.layout_eq, ?_, hroom.capacity_eq, rfl⟩
    have hsize : bytes'.size = bytes.size := hroom.size_eq
    show (bytes' ++ _).size = (bytes ++ _).size
    rw [Array.size_append, Array.size_append, Array.size_replicate, Array.size_replicate, hsize]

theorem sameRoom_placed (a : Arena) (slot : Slot) (delta : Int64) (target : UInt64) :
    a.SameRoom (a.placed slot delta target) :=
  ⟨rfl, a.size_bytes_placed slot delta target, rfl, rfl⟩

theorem sameRoom_linked (a : Arena) (k : Chain) (capacity : Nat) :
    (a.grown capacity).SameRoom (a.linked k capacity) :=
  ⟨rfl, by rw [size_bytes_linked, size_bytes_grown], rfl, rfl⟩

/-! ## Arenas up to places -/

/-- The arena grew from `a₀` and holds the given lists, one for each node. Its memory is that of `a₀`
after as many blocks were added as the lists need. -/
structure Grown (a₀ a : Arena) (nodes : Nat) (lists : Nat → List NodeId) : Prop where
  codec_eq : a.codec = a₀.codec
  layout_eq : a.layout = a₀.layout
  represents : ∃ room chains, a.Represents nodes room chains ∧
    ∀ n, n < nodes → (chains n).forget = a₀.shape (lists n)
  reallocations_eq : a.reallocations = sumOver nodes a₀.links lists
  sameRoom : (a₀.withBlocks (sumOver nodes a₀.links lists)).SameRoom a

theorem grown_allocate {extraBlocks : Nat → Nat → Nat} {options : Options} {sizing : Sizing}
    (hroom : 0 < sizing.fanOut * options.bytesPerEdge.toNat)
    (h : Arena.allocate extraBlocks options sizing = .ok a) :
    a.Grown a sizing.totalNodes.toNat fun _ ↦ [] := by
  have hzero : sumOver sizing.totalNodes.toNat a.links (fun _ ↦ []) = 0 :=
    sumOver_eq_zero fun _ _ ↦ rfl
  refine ⟨rfl, rfl, ⟨_, _, represents_allocate hroom h, fun _ _ ↦ rfl⟩, ?_, ?_⟩
  · rw [hzero]
    simp only [Arena.allocate, Check.bind_eq_ok] at h
    obtain ⟨l, -, -, -, h⟩ := h
    cases h
    rfl
  · rw [hzero]
    exact ⟨rfl, rfl, rfl, rfl⟩

variable {a₀ : Arena}

/-- **The outcomes of an append, from the lists alone:** the id finds room in the last block of its
node, it is given a new block, or that block is not granted. -/
theorem Grown.append_cases (h : a₀.Grown a nodes lists) (hn : node < nodes) (target : NodeId) :
    (a₀.demand (a₀.shape (lists node)) target < a₀.layout.blockSize ∧
      ∃ t b, a.append node target = ⟨.ok t, b, [.pageHops (a₀.links (lists node))]⟩ ∧
        a₀.Grown b nodes (Function.update lists node (lists node ++ [target]))) ∨
    (a₀.layout.blockSize ≤ a₀.demand (a₀.shape (lists node)) target ∧
      (a₀.withBlocks (sumOver nodes a₀.links lists)).allocateBlock.result.isOk = true ∧
      ∃ t b source destination used,
        a.append node target = ⟨.ok t, b, [.pageHops (a₀.links (lists node)),
          .blockRelocated node source destination used (a₀.links (lists node))]⟩ ∧
        a₀.Grown b nodes (Function.update lists node (lists node ++ [target]))) ∨
    (a₀.layout.blockSize ≤ a₀.demand (a₀.shape (lists node)) target ∧
      (a₀.withBlocks (sumOver nodes a₀.links lists)).allocateBlock.result.isOk = false ∧
      ∃ cause, (a.append node target).result = .error cause) := by
  obtain ⟨room, chains, hrepresents, hshape⟩ := h.represents
  have hhops : (chains node).full.length = a₀.links (lists node) := by
    rw [links, ← hshape node hn, Chain.length_full_forget]
  have hdemand : a.demand (chains node) target = a₀.demand (a₀.shape (lists node)) target := by
    rw [← hshape node hn, demand_forget, demand, demand, h.codec_eq, h.layout_eq]
  have hblocks := h.sameRoom.allocateBlock
  -- The shapes of the other nodes stay, and that of this node is the one with the new id.
  have hshapes : ∀ k : Chain, k.forget = a₀.shape (lists node ++ [target]) → ∀ n, n < nodes →
      (Function.update chains node k n).forget
        = a₀.shape (Function.update lists node (lists node ++ [target]) n) := by
    intro k hk n hlt
    rcases eq_or_ne n node with rfl | hne
    · rw [Function.update_self, Function.update_self, hk]
    · rw [Function.update_of_ne hne, Function.update_of_ne hne, hshape n hlt]
  rw [← hdemand, ← h.layout_eq, ← hhops]
  rcases hrepresents.append_cases hn target with ⟨hroom, heq⟩ | ⟨hfull, hle, capacity, hblock, heq⟩ |
    ⟨hfull, limit, requested, event, hrefused, heq⟩
  · refine Or.inl ⟨hroom, _, _, heq, ?_⟩
    have hroom₀ : a₀.demand (a₀.shape (lists node)) target < a₀.layout.blockSize := by
      rw [← hdemand, ← h.layout_eq]
      exact hroom
    have hsum := sumOver_update (f := a₀.links) (d := 0) hn (links_of_room hroom₀)
    refine ⟨h.codec_eq, h.layout_eq, ⟨room, _, hrepresents.extend hn hroom, hshapes _ ?_⟩, ?_, ?_⟩
    · rw [shape_of_room hroom₀, ← hshape node hn, Chain.step_forget]
      rfl
    · rw [hsum]
      exact h.reallocations_eq
    · rw [hsum]
      exact h.sameRoom.trans (sameRoom_placed _ _ _ _)
  · rw [hblock] at hblocks
    refine Or.inr (Or.inl ⟨hfull, by rw [hblocks.result]; rfl, _, _, _, _, _, heq, ?_⟩)
    have hfull₀ : a₀.layout.blockSize ≤ a₀.demand (a₀.shape (lists node)) target := by
      rw [← hdemand, ← h.layout_eq]
      exact hfull
    have hsum := sumOver_update (f := a₀.links) (d := 1) hn (links_of_full hfull₀)
    refine ⟨h.codec_eq, h.layout_eq, ⟨room, _, hrepresents.turn hn hle hfull, hshapes _ ?_⟩, ?_, ?_⟩
    · rw [shape_of_full hfull₀, ← hshape node hn, Chain.step_forget, Chain.forget_turn]
    · rw [hsum, ← h.reallocations_eq]
      rfl
    · rw [hsum]
      exact (hblocks.state.trans (sameRoom_linked a (chains node) capacity)).trans
        (sameRoom_placed _ _ _ _)
  · rw [hrefused] at hblocks
    exact Or.inr (Or.inr ⟨hfull, by rw [hblocks.result]; rfl, _, by rw [heq]; rfl⟩)

end Arena

end Adjacency
