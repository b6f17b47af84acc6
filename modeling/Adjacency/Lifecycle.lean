import Adjacency.Options
import Adjacency.Refusal

/-!
# The life of a store

A store is opened once with the totals of the graph, then filled, then read, then closed. Reading
seals it: from the first read on no entry is admitted. The state of this life is a value of its own,
and every transition is a check on it, so a refused call cannot have changed anything.

The totals give each node its initial room, the *fan-out*: a power of two with space for twice the
mean number of relationships per node.
-/

namespace Adjacency

/-- The least power of two that is not below `n`. -/
def leastPowerOfTwo (n : Nat) : Nat := if n ≤ 1 then 1 else 2 ^ ((n - 1).log2 + 1)

namespace Sizing

/-- The room a node starts with, in entries. -/
def estimatedFanOut (totalNodes totalRels minFanOut : UInt64) : Nat :=
  let perNode := totalRels.toNat / max totalNodes.toNat 1
  max (min (leastPowerOfTwo (2 * perNode)) (2 ^ 63)) minFanOut.toNat

/-- The sizing for given totals. There must be a node. -/
def ofTotals (totalNodes totalRels minFanOut : UInt64) : Except Error Sizing :=
  if totalNodes = 0 then .error (.invalid .noNodes)
  else .ok ⟨totalNodes, totalRels, estimatedFanOut totalNodes totalRels minFanOut⟩

/-- The entries a store admits: one for each end of a relationship. -/
def maxAppends (s : Sizing) : Nat := Word.saturate (2 * s.totalRels.toNat)

end Sizing

/-- Where a store is in its life. -/
inductive Phase
  | created
  | loading
  | sealed
  | closed
  deriving DecidableEq, Repr

/-- The name a phase is shown under. -/
def Phase.text : Phase → String
  | .created => "Created"
  | .loading => "Loading"
  | .sealed => "Sealed"
  | .closed => "Closed"

/-- Phase, totals and number of entries admitted so far. -/
inductive Lifecycle
  /-- Not opened yet. -/
  | created
  /-- Entries are admitted. -/
  | loading (sizing : Sizing) (appended : Nat)
  /-- A read was made; no more entries are admitted. -/
  | sealed (sizing : Sizing) (appended : Nat)
  /-- Closed, possibly without having been opened. -/
  | closed (sizing : Option Sizing) (appended : Nat)
  deriving DecidableEq, Repr

namespace Lifecycle

/-- The phase alone. -/
def phase : Lifecycle → Phase
  | .created => .created
  | .loading .. => .loading
  | .sealed .. => .sealed
  | .closed .. => .closed

/-- The totals, once the store was opened. -/
def sizing? : Lifecycle → Option Sizing
  | .created => none
  | .loading sizing _ => some sizing
  | .sealed sizing _ => some sizing
  | .closed sizing _ => sizing

/-- The number of entries admitted. -/
def appended : Lifecycle → Nat
  | .created => 0
  | .loading _ n => n
  | .sealed _ n => n
  | .closed _ n => n

/-- The sizing of a store about to be opened. It stays unopened until its memory was granted. -/
def plan (l : Lifecycle) (options : Options) (totalNodes totalRels : UInt64) : Check Sizing :=
  match l with
  | .created =>
    match options.validate with
    | .error e => .error (.silent (.invalid e))
    | .ok () =>
      match Sizing.ofTotals totalNodes totalRels options.minFanOut with
      | .error e => .error (.silent e)
      | .ok sizing => .ok sizing
  | _ => .error (.silent (.sequencing .initTwice))

/-- The error for a node that the store does not have. -/
def outOfRange (sizing : Sizing) (node : NodeId) : Error :=
  .capacityExceeded .nodeId sizing.totalNodes.toNat (Word.saturate (node.toNat + 1))

/-- Checks that a node exists, and makes known if it does not. -/
def checkNode (sizing : Sizing) (node : NodeId) : Check Unit :=
  if node < sizing.totalNodes then .ok ()
  else .error ⟨outOfRange sizing node,
    [.nodeOutOfRange node.toNat sizing.totalNodes.toNat]⟩

/-- Admits an entry: the node it goes to, and the life of the store with the entry counted. -/
def accept (l : Lifecycle) (node target : NodeId) : Check (Nat × Lifecycle) :=
  match l with
  | .created => .error (.silent (.sequencing .addBeforeInit))
  | .sealed .. => .error (.silent (.sequencing .addAfterReadBack))
  | .closed .. => .error (.silent (.sequencing .addAfterClose))
  | .loading sizing appended =>
    match checkNode sizing node, checkNode sizing target with
    | .error r, _ => .error r
    | .ok (), .error r => .error r
    | .ok (), .ok () =>
      if appended < sizing.maxAppends then .ok (node.toNat, .loading sizing (appended + 1))
      else .error
        ⟨.capacityExceeded .adjacencyEntries sizing.maxAppends (appended + 1),
          [.appendsExhausted appended sizing.maxAppends]⟩

/-- Begins a read of a node: its number, and the life of the store with the seal set. -/
def startRead (l : Lifecycle) (node : NodeId) : Check (Nat × Lifecycle) :=
  match l with
  | .created => .error (.silent (.sequencing .readBeforeInit))
  | .closed .. => .error (.silent (.sequencing .readAfterClose))
  | .loading sizing appended =>
    if node < sizing.totalNodes then .ok (node.toNat, .sealed sizing appended)
    else .error (.silent (outOfRange sizing node))
  | .sealed sizing appended =>
    if node < sizing.totalNodes then .ok (node.toNat, .sealed sizing appended)
    else .error (.silent (outOfRange sizing node))

/-- Ends the life of a store, whether or not it was opened. -/
def close (l : Lifecycle) : Check Lifecycle :=
  match l with
  | .closed .. => .error (.silent (.sequencing .closeTwice))
  | l => .ok (.closed l.sizing? l.appended)

end Lifecycle

end Adjacency
