import Adjacency.Codec
import Adjacency.Graph

/-!
# What a call makes known

Besides its answer a call yields events: limits met, arrays grown, blocks chained, entries recorded.
An event is a plain value. `Event.entry?` says whether and how it appears in the log, with a level,
a name and named fields; a few events are only counted and never logged.
-/

namespace Adjacency

/-- How much an event matters to a reader of the log. -/
inductive Level
  | trace
  | debug
  | info
  | warn
  deriving DecidableEq, Repr

/-- The name a level is written under. -/
def Level.text : Level → String
  | .trace => "trace"
  | .debug => "debug"
  | .info => "info"
  | .warn => "warn"

/-- Something that happened during a call. -/
inductive Event
  /-- A code did not fit behind the cursor of a run-length buffer. -/
  | bufferFull (capacity position stored : Nat)
  /-- An entry names a node that the store does not have. -/
  | nodeOutOfRange (node totalNodes : Nat)
  /-- Every announced relationship already has both its entries. -/
  | appendsExhausted (appended limit : Nat)
  /-- A product of capacities is no 64-bit number. -/
  | capacityOverflow (what : Resource) (a b : Nat)
  /-- Memory for `capacity` elements is not to be had. -/
  | reserveFailed (what : Resource) (capacity limit : Nat)
  /-- A store was opened. -/
  | opened (kind : Kind) (sizing : Sizing) (initialBytes : Nat)
  /-- A store was closed. -/
  | closed (kind : Kind) (size reallocations appended : Nat)
  /-- The array of a node was given more room. -/
  | arrayGrown (kind : Kind) (node capacity : Nat)
  /-- A block layout is beyond 64 bits. -/
  | layoutOverflow (what : Resource) (nodes : Nat)
  /-- A block layout was chosen. -/
  | layoutChosen (blockSize headerLen arenaLimit : Nat) (codec : Codec)
  /-- Another block would pass the limit of the arena. -/
  | arenaExhausted (arenaLimit requested reallocations : Nat)
  /-- Memory for another block is not to be had. -/
  | arenaReserveFailed (arenaLen grow : Nat)
  /-- The lookup of a node's last block followed this many links. -/
  | pageHops (hops : Nat)
  /-- A full block was linked to a new one. -/
  | blockRelocated (node source destination used pageHops : Nat)
  /-- An entry was written to a block. -/
  | placed (node block entryOffset pageHops : Nat) (delta : Int) (relocated : Bool)
  /-- An entry was recorded. -/
  | targetAdded
  /-- An arena was closed. -/
  | arenaClosed (bytesWritten arenaUsed : Nat)
  deriving DecidableEq, Repr

/-- The value of a field of a log entry. -/
inductive Field
  | number (n : Int)
  | flag (b : Bool)
  | text (s : String)
  deriving DecidableEq, Repr

/-- A log entry. -/
structure LogEntry where
  level : Level
  name : String
  fields : List (String × Field)
  deriving DecidableEq, Repr

namespace Event

/-- The log entry of an event, unless it is only counted. -/
def entry? : Event → Option LogEntry
  | .bufferFull capacity position stored =>
    some ⟨.warn, "rle.buffer.full",
      [("capacity", .number capacity), ("position", .number position), ("stored", .number stored)]⟩
  | .nodeOutOfRange node totalNodes =>
    some ⟨.warn, "adjacency.node.out_of_range",
      [("node", .number node), ("total_nodes", .number totalNodes)]⟩
  | .appendsExhausted appended limit =>
    some ⟨.warn, "adjacency.appends.exhausted",
      [("appended", .number appended), ("limit", .number limit)]⟩
  | .capacityOverflow what a b =>
    some ⟨.warn, "adjacency.capacity.overflow",
      [("what", .text what.text), ("a", .number a), ("b", .number b)]⟩
  | .reserveFailed what capacity limit =>
    some ⟨.warn, "adjacency.reserve.failed",
      [("what", .text what.text), ("capacity", .number capacity), ("limit", .number limit)]⟩
  | .opened kind sizing initialBytes =>
    some ⟨.info, "adjacency.init",
      [("store", .text kind.text), ("total_nodes", .number sizing.totalNodes.toNat),
        ("total_rels", .number sizing.totalRels.toNat),
        ("rels_per_node", .number (sizing.totalRels.toNat / sizing.totalNodes.toNat : Nat)),
        ("fan_out", .number sizing.fanOut), ("initial_bytes", .number initialBytes)]⟩
  | .closed kind size reallocations appended =>
    some ⟨.info, "adjacency.close",
      [("store", .text kind.text), ("size", .number size),
        ("reallocations", .number reallocations), ("appended", .number appended)]⟩
  | .arrayGrown kind node capacity =>
    some ⟨.debug, match kind with
        | .byteArray => "byte_array.array.grown"
        | _ => "plain.array.grown",
      [("node", .number node), ("capacity", .number capacity)]⟩
  | .layoutOverflow what nodes =>
    some ⟨.warn, "paged.layout.overflow", [("what", .text what.text), ("nodes", .number nodes)]⟩
  | .layoutChosen blockSize headerLen arenaLimit codec =>
    some ⟨.debug, "paged.layout",
      [("block_size", .number blockSize), ("header_len", .number headerLen),
        ("arena_limit", .number arenaLimit), ("codec", .text codec.text)]⟩
  | .arenaExhausted arenaLimit requested reallocations =>
    some ⟨.warn, "paged.arena.exhausted",
      [("arena_limit", .number arenaLimit), ("requested", .number requested),
        ("reallocations", .number reallocations)]⟩
  | .arenaReserveFailed arenaLen grow =>
    some ⟨.warn, "paged.arena.reserve_failed",
      [("arena_len", .number arenaLen), ("grow", .number grow)]⟩
  | .blockRelocated node source destination used hops =>
    some ⟨.debug, "paged.block.relocated",
      [("node", .number node), ("from", .number source), ("to", .number destination),
        ("used", .number used), ("page_hops", .number hops)]⟩
  | .placed node block entryOffset hops delta relocated =>
    some ⟨.trace, "paged.append",
      [("node", .number node), ("block", .number block), ("entry_offset", .number entryOffset),
        ("page_hops", .number hops), ("delta", .number delta), ("relocated", .flag relocated)]⟩
  | .arenaClosed bytesWritten arenaUsed =>
    some ⟨.debug, "paged.close",
      [("bytes_written", .number bytesWritten), ("arena_used", .number arenaUsed)]⟩
  | .pageHops _ => none
  | .targetAdded => none

/-- The level an event is logged at, unless it is only counted. -/
def level? (e : Event) : Option Level := e.entry?.map LogEntry.level

end Event

end Adjacency
