import Adjacency.Binary64.Rounding
import Adjacency.Options
import Adjacency.Refusal

/-!
# Block layout of an arena

An arena is divided into blocks of one size. A block begins with a header slot, goes on with coded
differences and ends with the code of the last id, so besides the expected differences it has room
for one more difference and one id of any size.

The header holds numbers up to the limit of the arena. Its width depends on that limit, the limit on
the block size, and the block size on the width, so the width is found in rounds: starting from one
byte, it is raised to what the limit needs until it suffices. A round can only raise it, and no code
is longer than `Codec.maxLen`, so there are at most that many.

The number of blocks beyond the first one of each node comes from the growth factor. A layout takes
it as a function of the two sizes it depends on, and makes no assumption about it.
-/

namespace Adjacency

/-- The sizes that an arena is divided by. -/
structure Layout where
  /-- The bytes of a block. -/
  blockSize : Nat
  /-- The bytes of its header slot. -/
  headerLen : Nat
  /-- The bytes of the first blocks of all nodes. -/
  rootLen : Nat
  /-- The bytes that the arena may reach. -/
  arenaLimit : Nat
  deriving DecidableEq, Repr

namespace Layout

/-- The layout of an arena without nodes. -/
def empty : Layout := ⟨0, 0, 0, 0⟩

/-- A layout that is beyond 64 bits. -/
def refusal (what : Resource) (nodes : Nat) : Refusal :=
  ⟨.capacityExceeded what Word.max Word.max, [.layoutOverflow what nodes]⟩

/-- A number of the layout, unless it is beyond 64 bits. -/
def within (what : Resource) (nodes : Nat) : Option Nat → Check Nat
  | some n => .ok n
  | none => .error (refusal what nodes)

/-- One round: the layout with a header of `headerLen` bytes. -/
def ofHeader (extraBlocks : Nat → Nat → Nat) (nodes payload headerLen : Nat) : Check Layout := do
  let blockSize ← within .pagedBlock nodes (Word.add? payload headerLen)
  let rootLen ← within .pagedArena nodes (Word.mul? nodes blockSize)
  let extra ← within .pagedArena nodes (Word.mul? (extraBlocks rootLen blockSize) blockSize)
  let arenaLimit ← within .pagedArena nodes (Word.add? extra rootLen)
  return ⟨blockSize, headerLen, rootLen, arenaLimit⟩

/-- The bytes a header needs to hold any number up to the limit of the arena. -/
def widest (codec : Codec) (l : Layout) : Nat := codec.size .unsigned l.arenaLimit

/-- Raises the header until it suffices, in at most `rounds` rounds after the first. -/
def settle (codec : Codec) (extraBlocks : Nat → Nat → Nat) (nodes payload : Nat) :
    (rounds headerLen : Nat) → Check Layout
  | 0, headerLen => ofHeader extraBlocks nodes payload headerLen
  | rounds + 1, headerLen => do
    let l ← ofHeader extraBlocks nodes payload headerLen
    if l.widest codec ≤ headerLen then return l
    else settle codec extraBlocks nodes payload rounds (l.widest codec)

/-- The blocks that may be added to the first ones: a share of them given by the growth factor. -/
def extraBlocks (growth : Binary64) (rootLen blockSize : Nat) : Nat :=
  growth.excessCeil rootLen blockSize Word.max

/-- The layout for a sizing, with the number of additional blocks left open. -/
def choose (extraBlocks : Nat → Nat → Nat) (options : Options) (sizing : Sizing) :
    Check Layout := do
  let nodes := sizing.totalNodes.toNat
  let deltas ← Memory.product .pagedBlock sizing.fanOut options.bytesPerEdge.toNat
  let payload ← within .pagedBlock nodes (Word.add? deltas (2 * options.codec.maxLen))
  settle options.codec extraBlocks nodes payload options.codec.maxLen 1

end Layout

end Adjacency
