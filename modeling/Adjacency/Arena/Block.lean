import Adjacency.Arena.Layout

/-!
# Chains of blocks

All blocks of all nodes share one array of bytes. The first block of node `n` is the `n`-th of the
arena; a block that is full is linked to a later one, and the blocks of a node so linked are its
chain. The header word `h` of a block says both how it is linked and how much it holds:

* if `h < blockSize`, the block is the last of its chain and holds `h` bytes of differences,
  followed by the code of the last id;
* otherwise it holds `h % blockSize` bytes of differences, and the next block is at
  `h - h % blockSize`.

A link only ever points forward, so following links comes to an end.
-/

namespace Adjacency

/-- Blocks of bytes, linked to chains. -/
structure Arena where
  codec : Codec
  layout : Layout
  bytes : Array UInt8
  /-- The bytes that memory was granted for. -/
  capacity : Nat
  /-- Where the next new block goes. -/
  nextFree : Nat
  /-- How many blocks were added. -/
  reallocations : Nat
  /-- The bytes of all differences, last ids and headers written. -/
  bytesWritten : Nat

/-- A block as a reader sees it. -/
structure BlockInfo where
  /-- Where the block begins. -/
  offset : Nat
  /-- The bytes of differences it holds. -/
  used : Nat
  /-- Where the next block of the chain begins. -/
  next : Option Nat
  deriving DecidableEq, Repr

/-- The last block of a chain. -/
structure Cursor where
  /-- Where the block begins. -/
  block : Nat
  /-- The bytes of differences it holds. -/
  used : Nat
  /-- How many links lead to it. -/
  hops : Nat
  deriving DecidableEq, Repr

namespace Arena

/-- An arena without blocks. -/
def empty (codec : Codec) : Arena := ⟨codec, .empty, #[], 0, 0, 0, 0⟩

/-- An arena with one empty block for each node. -/
def allocate (extraBlocks : Nat → Nat → Nat) (options : Options) (sizing : Sizing) :
    Check Arena := do
  let layout ← Layout.choose extraBlocks options sizing
  Memory.reserve .pagedArena 1 layout.rootLen
  return {
    codec := options.codec
    layout
    bytes := Array.replicate layout.rootLen 0
    capacity := layout.rootLen
    nextFree := layout.rootLen
    reallocations := 0
    bytesWritten := 0 }

/-- Where the first block of a node begins. -/
def root (a : Arena) (node : Nat) : Nat := node * a.layout.blockSize

/-- The header word of a block. -/
def header (a : Arena) (block : Nat) : Except Error Nat :=
  match a.codec.get .unsigned a.bytes block (block + a.layout.headerLen) with
  | .ok (h, _) => .ok h.toNat
  | .error e => .error e

/-- The block that the header word `h` of `block` links to, if it lies further on in the arena. -/
def linked? (a : Arena) (block h : Nat) : Option Nat :=
  let next := h - h % a.layout.blockSize
  if block < next ∧ next + a.layout.blockSize ≤ a.bytes.size then some next else none

theorem lt_of_linked? {a : Arena} {block h next : Nat} (hn : a.linked? block h = some next) :
    block < next ∧ next ≤ a.bytes.size := by
  unfold linked? at hn
  dsimp only at hn
  split at hn
  · cases hn; omega
  · cases hn

/-- Follows links from a block to the last of its chain. -/
def locate (a : Arena) (block : Nat) : Except Error Cursor :=
  match a.header block with
  | .error e => .error e
  | .ok h =>
    if h < a.layout.blockSize then .ok ⟨block, h, 0⟩
    else match _hn : a.linked? block h with
      | none => .error (.decode .forwardPointer)
      | some next =>
        match a.locate next with
        | .ok c => .ok { c with hops := c.hops + 1 }
        | .error e => .error e
termination_by a.bytes.size - block
decreasing_by have := lt_of_linked? _hn; omega

/-- The blocks from a block on to the last of its chain. -/
def blocks (a : Arena) (block : Nat) : Except Error (List BlockInfo) :=
  match a.header block with
  | .error e => .error e
  | .ok h =>
    if h < a.layout.blockSize then .ok [⟨block, h, none⟩]
    else match _hn : a.linked? block h with
      | none => .error (.decode .forwardPointer)
      | some next =>
        match a.blocks next with
        | .ok rest => .ok (⟨block, h % a.layout.blockSize, some next⟩ :: rest)
        | .error e => .error e
termination_by a.bytes.size - block
decreasing_by have := lt_of_linked? _hn; omega

/-- The chain of a node. -/
def chain (a : Arena) (node : Nat) : Except Error (List BlockInfo) := a.blocks (a.root node)

/-! ## Reading the ids of a node -/

/-- The differences held by a block. -/
def deltas (a : Arena) (b : BlockInfo) : Except Error (List Int) :=
  let start := b.offset + a.layout.headerLen
  if b.offset + a.layout.blockSize < start + b.used + a.codec.size .unsigned 0 then
    .error (.decode .blockUsage)
  else a.codec.getAll .signed a.bytes start (start + b.used)

/-- The differences held by all blocks of a chain. -/
def chainDeltas (a : Arena) : List BlockInfo → Except Error (List Int)
  | [] => .ok []
  | b :: rest =>
    match a.deltas b with
    | .error e => .error e
    | .ok ds => match a.chainDeltas rest with
      | .error e => .error e
      | .ok more => .ok (ds ++ more)

/-- The ids that differences lead through, in 64 bits that wrap around. -/
def sums (last : UInt64) : List Int → List UInt64
  | [] => []
  | d :: ds => (last + UInt64.ofInt d) :: sums (last + UInt64.ofInt d) ds

/-- The ids recorded for a node. -/
def targets (a : Arena) (node : Nat) : Except Error (List UInt64) :=
  match a.chain node with
  | .error e => .error e
  | .ok blocks => match a.chainDeltas blocks with
    | .error e => .error e
    | .ok ds => .ok (sums 0 ds)

end Arena

end Adjacency
