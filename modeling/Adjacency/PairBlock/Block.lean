import Adjacency.PairBlock.Pair
import Adjacency.RunLength.Summary

/-!
# Blocks of id pairs

A block holds a sorted list of pairs in two run-length buffers. The primary buffer begins with two
values about the list, its last primary id and its length, and goes on with the primary half of each
step; the secondary buffer holds the offset half. `set` replaces the list, `get` and `toList` read
it from the start, and `lookup` reads until it has seen enough.

A `set` that fails leaves both buffers as the failure found them, with whatever was pending.
-/

namespace Adjacency

open RunLength (Buffer Mode Preset)

/-- A sorted list of pairs in two run-length buffers. -/
structure PairBlock where
  primary : Buffer
  secondary : Buffer
  /-- The number of pairs the last successful `set` left. -/
  count : Nat
  /-- The greatest primary id of the last `set` that began to write. -/
  lastPrimary : Int64

namespace PairBlock

/-- An empty block. -/
def ofPreset (size : Preset) (codec : Codec) : PairBlock where
  primary := Buffer.ofPreset size codec .unsigned
  secondary := Buffer.ofPreset size codec .signed
  count := 0
  lastPrimary := 0

/-- There is no pair in the block. -/
def isEmpty (k : PairBlock) : Bool := k.count == 0

/-- One of the two buffers. -/
inductive Side
  | primary
  | secondary
  deriving DecidableEq, Repr

/-- A call on one of the two buffers. -/
@[inline] def on {α : Type} (k : PairBlock) (side : Side) (call : Buffer → Outcome Buffer α) :
    Outcome PairBlock α :=
  match k with
  | ⟨primary, secondary, count, lastPrimary⟩ =>
    match side with
    | .primary => (call primary).onto fun primary ↦ ⟨primary, secondary, count, lastPrimary⟩
    | .secondary => (call secondary).onto fun secondary ↦ ⟨primary, secondary, count, lastPrimary⟩

/-! ## Writing -/

/-- The last primary id of a sorted list, zero if there is none. -/
def lastOf (sorted : List Pair) : Int64 := (sorted.getLast?.map Pair.primary).getD 0

/-- The values about a list that precede it in the primary buffer. -/
def preamble (sorted : List Pair) : List Int64 := [lastOf sorted, Int64.ofNat sorted.length]

/-- All values of the primary buffer. -/
def primaryValues (sorted : List Pair) : List Int64 :=
  preamble sorted ++ (Pair.steps none sorted).map Step.primary

/-- All values of the secondary buffer. -/
def secondaryValues (sorted : List Pair) : List Int64 := (Pair.steps none sorted).map Step.offset

/-- The values of both buffers, in the order in which they are stored. -/
def script (sorted : List Pair) : List (Side × Int64) :=
  (preamble sorted).map (Prod.mk .primary)
    ++ (Pair.steps none sorted).flatMap fun s ↦ [(.primary, s.primary), (.secondary, s.offset)]

/-- Begins a write pass in a buffer that is being read. -/
def startWriting (b : Buffer) : Outcome Buffer Unit :=
  if b.mode = .read then b.toggle else .done b ()

/-- Begins a write pass in both buffers. A buffer that an earlier failure left in a write pass goes
on with that pass. -/
def beginWriting (k : PairBlock) : Outcome PairBlock Unit :=
  (k.on .primary startWriting).andThen fun k _ ↦ k.on .secondary startWriting

/-- Stores the values of both buffers. -/
def storeAll (k : PairBlock) (values : List (Side × Int64)) : Outcome PairBlock Unit :=
  (Outcome.run (fun k (side, v) ↦ k.on side fun b ↦ b.store v) k values).outcome

/-- Ends the write pass in both buffers. -/
def endWriting (k : PairBlock) : Outcome PairBlock Unit :=
  (k.on .primary Buffer.toggle).andThen fun k _ ↦ k.on .secondary Buffer.toggle

/-- Writes a sorted list into buffers that have begun a write pass. -/
def write (k : PairBlock) (sorted : List Pair) : Outcome PairBlock Unit :=
  match k with
  | ⟨primary, secondary, _, _⟩ =>
    let k : PairBlock := ⟨primary, secondary, 0, lastOf sorted⟩
    if Word.signedMax < sorted.length then .fail k (.invalid .tooManyPairs) []
    else
      (k.storeAll (script sorted)).andThen fun k _ ↦
      k.endWriting.andThen fun k _ ↦
      .done { k with count := sorted.length } ()

/-- Replaces the contents by the pairs, sorted by primary id. Primary ids must not be negative. -/
def set (k : PairBlock) (pairs : List Pair) : Outcome PairBlock Unit :=
  let sorted := Pair.sort pairs
  if sorted.head?.any fun p ↦ decide (p.primary < 0) then .fail k (.invalid .negativePrimary) []
  else k.beginWriting.andThen fun k _ ↦ k.write sorted

/-! ## Reading -/

/-- Goes back to the first pair. Answers how many there are. -/
def startReading (k : PairBlock) : Outcome PairBlock Nat :=
  if k.primary.mode = .write then .fail k (.sequencing .readBeforeSet) []
  else
    (k.on .primary Buffer.rewind).andThen fun k _ ↦
    (k.on .secondary Buffer.rewind).andThen fun k _ ↦
    (k.on .primary Buffer.read).andThen fun k _ ↦
    (k.on .primary Buffer.read).andThen fun k count ↦
    if count < 0 then .fail k (.decode .negativePairCount) [] else .done k count.toInt.toNat

/-- Reads the step to the next pair. -/
def readStep (k : PairBlock) : Outcome PairBlock Step :=
  (k.on .primary Buffer.read).andThen fun k primary ↦
  (k.on .secondary Buffer.read).andThen fun k offset ↦
  .done k ⟨primary, offset⟩

/-- A block in the course of being read, and the last pair read. -/
structure Replay where
  block : PairBlock
  prev : Option Pair

/-- Reads the next pair. -/
def Replay.next (r : Replay) : Outcome Replay Pair :=
  match r with
  | ⟨block, prev⟩ =>
    match block.readStep with
    | ⟨.error e, block, events⟩ => ⟨.error e, ⟨block, prev⟩, events⟩
    | ⟨.ok step, block, events⟩ =>
      let p := Pair.follow prev step
      ⟨.ok p, ⟨block, some p⟩, events⟩

/-- Reads all pairs into the front of `target`, which must be long enough. Answers their number. -/
def get (k : PairBlock) (target : List Pair) : Outcome (PairBlock × List Pair) Nat :=
  match k.startReading with
  | ⟨.error e, k, events⟩ => ⟨.error e, (k, target), events⟩
  | ⟨.ok count, k, events⟩ =>
    if target.length < count then .fail (k, target) (.decode .pairCountExceedsTarget) events
    else
      let (pairs, run) := Outcome.gather Replay.next count ⟨k, none⟩
      let state := (run.state.block, pairs ++ target.drop pairs.length)
      match run.failure with
      | none => ⟨.ok count, state, events ++ run.events⟩
      | some e => ⟨.error e, state, events ++ run.events⟩

/-- Reads all pairs. -/
def toList (k : PairBlock) : Outcome PairBlock (List Pair) :=
  match k.get (List.replicate k.count default) with
  | ⟨.error e, (k, _), events⟩ => ⟨.error e, k, events⟩
  | ⟨.ok n, (k, pairs), events⟩ => ⟨.ok (pairs.take n), k, events⟩

/-- What a pair that was read tells about the secondary id of `primary`: nothing yet, the id, or
that there is none. -/
def verdict (primary : Int64) (p : Pair) : Option (Option Int64) :=
  if p.primary = primary then some (some p.secondary)
  else if primary < p.primary then some none
  else none

/-- The secondary id of the first pair with the given primary id, if there is one. -/
def lookup (k : PairBlock) (primary : Int64) : Outcome PairBlock (Option Int64) :=
  if k.count = 0 ∨ k.lastPrimary < primary then .done k none
  else k.startReading.andThen fun k count ↦
    match Outcome.seek Replay.next (verdict primary) count ⟨k, none⟩ with
    | ⟨.error e, r, events⟩ => ⟨.error e, r.block, events⟩
    | ⟨.ok found, r, events⟩ => ⟨.ok found.join, r.block, events⟩

/-- How well both buffers are compressed. -/
def summary (k : PairBlock) : String :=
  "PairBlock\x7b primary deltas: " ++ k.primary.summary ++ ", secondary deltas: "
    ++ k.secondary.summary ++ " \x7d"

end PairBlock

end Adjacency
