import Adjacency.Arena.Block

/-!
# Adding an id to a chain

An id is recorded as its difference from the last id of the node, written over the code of that last
id, and followed by its own code. If the block at the end of the chain has no room for both, a new
block is added to the arena and linked, and they go there.

An arena only grows while it stays within its limit. Memory is asked for in advance, for half as
much again as there is, but never beyond the limit.
-/

namespace Adjacency

/-- Where an id went and what was written for it. -/
structure AppendTrace where
  node : Nat
  /-- The first block of the chain. -/
  startBlock : Nat
  /-- The block that the id was written to. -/
  block : Nat
  /-- The bytes of differences in that block before. -/
  entryOffset : Nat
  /-- How many links were followed to the end of the chain. -/
  pageHops : Nat
  /-- The id before this one, zero if there is none. -/
  lastValue : UInt64
  delta : Int64
  deltaLen : Nat
  tailLen : Nat
  /-- The bytes of all headers written. -/
  headerLen : Nat
  /-- The block that was added, if one was. -/
  relocatedTo : Option Nat
  deriving DecidableEq, Repr

namespace Arena

/-! ## Writing into a block -/

/-- Writes a number between two places. Answers the length of its code. -/
def write (a : Arena) (s : Signedness) (off stop : Nat) (v : Int) : Outcome Arena Nat :=
  match a with
  | ⟨codec, layout, bytes, capacity, nextFree, reallocations, bytesWritten⟩ =>
    match codec.put s bytes off stop v with
    | (bytes, result) =>
      ⟨result, ⟨codec, layout, bytes, capacity, nextFree, reallocations, bytesWritten⟩, []⟩

/-- Writes the header word of a block. The header is a buffer of its own to the writer: a word that
does not fit is told against the length of the header, not against a place in the arena. -/
def writeHeader (a : Arena) (block h : Nat) : Outcome Arena Nat :=
  match a with
  | ⟨codec, layout, bytes, capacity, nextFree, reallocations, bytesWritten⟩ =>
    let slot := bytes.extract block (block + layout.headerLen)
    match codec.put .unsigned slot 0 layout.headerLen h with
    | (slot, result) =>
      ⟨result, ⟨codec, layout, Bytes.overwrite bytes block slot.toList, capacity, nextFree,
        reallocations, bytesWritten⟩, []⟩

/-! ## New blocks -/

/-- Makes memory available up to `stop`. -/
def reserveUpTo (a : Arena) (stop : Nat) : Outcome Arena Unit :=
  let len := a.bytes.size
  if stop ≤ a.capacity then .done a ()
  else
    -- At least a block, and a block still fits below the limit here.
    let grow := min (max (len / 2) a.layout.blockSize) (a.layout.arenaLimit - len)
    if len + grow ≤ Memory.granted then
      .done { a with capacity := Memory.extend len a.capacity grow } ()
    else
      .fail a (.capacityExceeded .pagedArena a.capacity stop) [.arenaReserveFailed len grow]

/-- Adds an empty block. Answers where it begins. -/
def allocateBlock (a : Arena) : Outcome Arena Nat :=
  let start := a.nextFree
  let stop := start + a.layout.blockSize
  if a.layout.arenaLimit < stop then
    .fail a (.capacityExceeded .pagedArena a.layout.arenaLimit stop)
      [.arenaExhausted a.layout.arenaLimit stop a.reallocations]
  else
    (a.reserveUpTo stop).andThen fun a _ ↦
      match a with
      | ⟨codec, layout, bytes, capacity, _, reallocations, bytesWritten⟩ =>
        let bytes := bytes ++ Array.replicate (stop - bytes.size) 0
        .done ⟨codec, layout, bytes, capacity, stop, reallocations + 1, bytesWritten⟩ start

/-! ## Appending -/

/-- The last id of the chain that ends at the cursor, zero if the chain holds none. -/
def lastValue (a : Arena) (c : Cursor) : Except Error UInt64 :=
  if c.used = 0 then
    if 0 < c.hops then .error (.decode .emptyChainedBlock) else .ok 0
  else
    match a.codec.getUInt64 a.bytes (c.block + a.layout.headerLen + c.used)
        (c.block + a.layout.blockSize) with
    | .ok (v, _) => .ok v
    | .error e => .error e

/-- The block at the cursor has no room for a difference and an id of the given lengths. -/
def isFull (a : Arena) (c : Cursor) (deltaLen tailLen : Nat) : Bool :=
  decide (a.layout.blockSize ≤ a.layout.headerLen + c.used + deltaLen + tailLen)

/-- A place for an entry. -/
structure Slot where
  block : Nat
  /-- The bytes of differences in the block. -/
  used : Nat
  /-- The bytes written to link the block, if it is new. -/
  linkLen : Nat
  isNew : Bool
  deriving DecidableEq, Repr

/-- Links the block at the cursor to a new one. -/
def relocate (a : Arena) (node : Nat) (c : Cursor) : Outcome Arena Slot :=
  a.allocateBlock.andThen fun a next ↦
  (a.writeHeader c.block (next + c.used)).andThen fun a linkLen ↦
  (Outcome.done a ⟨next, 0, linkLen, true⟩).also [.blockRelocated node c.block next c.used c.hops]

/-- The place for an entry of the given lengths behind the cursor. -/
def slotFor (a : Arena) (node : Nat) (c : Cursor) (deltaLen tailLen : Nat) : Outcome Arena Slot :=
  if a.isFull c deltaLen tailLen then a.relocate node c else .done a ⟨c.block, c.used, 0, false⟩

/-- Writes a difference and an id into a place. Answers the lengths of the two codes and the bytes
of the headers written. -/
def place (a : Arena) (slot : Slot) (delta : Int64) (target : UInt64) :
    Outcome Arena (Nat × Nat × Nat) :=
  let stop := slot.block + a.layout.blockSize
  let pos := slot.block + a.layout.headerLen + slot.used
  (a.write .signed pos stop delta.toInt).andThen fun a deltaLen ↦
  (a.write .unsigned (pos + deltaLen) stop target.toNat).andThen fun a tailLen ↦
  (a.writeHeader slot.block (slot.used + deltaLen)).andThen fun a headerLen ↦
  let headerLen := slot.linkLen + headerLen
  .done { a with bytesWritten := a.bytesWritten + (deltaLen + tailLen + headerLen) }
    (deltaLen, tailLen, headerLen)

/-- Adds an id behind the cursor, given the last id there. -/
def appendAt (a : Arena) (node : Nat) (c : Cursor) (lastValue target : UInt64) :
    Outcome Arena AppendTrace :=
  let startBlock := a.root node
  let delta := (target - lastValue).toInt64
  (a.slotFor node c (a.codec.sizeInt64 delta) (a.codec.sizeUInt64 target)).andThen fun a slot ↦
  (a.place slot delta target).andThen fun a (deltaLen, tailLen, headerLen) ↦
  .done a {
    node
    startBlock
    block := slot.block
    entryOffset := slot.used
    pageHops := c.hops
    lastValue
    delta
    deltaLen
    tailLen
    headerLen
    relocatedTo := if slot.isNew then some slot.block else none }

/-- Adds an id to the chain of a node. -/
def append (a : Arena) (node : Nat) (target : UInt64) : Outcome Arena AppendTrace :=
  match a.locate (a.root node) with
  | .error e => .fail a e []
  | .ok c =>
    -- The links were followed, so they count even if the id finds no room.
    let hops : List Event := [.pageHops c.hops]
    match a.lastValue c with
    | .error e => .fail a e hops
    | .ok lastValue =>
      (⟨.ok (), a, hops⟩ : Outcome Arena Unit).andThen fun a _ ↦
      a.appendAt node c lastValue target

end Arena

end Adjacency
