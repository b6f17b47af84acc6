import Adjacency.Event

/-!
# Counting what a store does

Four counters follow a bulk load: entries recorded, blocks chained, links followed and arrays grown.
They are fed from the events of the calls, in 64 bits that wrap around. A store may also be told to
count nothing.
-/

namespace Adjacency

/-- A step of one of the counters. -/
inductive Measure
  | targetAdded
  | blockRelocated
  | pageHops (hops : UInt64)
  | arrayGrown
  deriving DecidableEq, Repr

/-- The counter that an event moves, if it moves one. -/
def Event.measure? : Event → Option Measure
  | .targetAdded => some .targetAdded
  | .blockRelocated .. => some .blockRelocated
  | .pageHops hops => some (.pageHops (UInt64.ofNat hops))
  | .arrayGrown .. => some .arrayGrown
  | _ => none

/-- The four counters. -/
structure Counters where
  targetsAdded : UInt64
  blocksRelocated : UInt64
  pageHops : UInt64
  arraysGrown : UInt64
  deriving DecidableEq, Repr

namespace Counters

/-- Nothing counted yet. -/
def zero : Counters := ⟨0, 0, 0, 0⟩

/-- Moves one counter. -/
def add (c : Counters) : Measure → Counters
  | .targetAdded => { c with targetsAdded := c.targetsAdded + 1 }
  | .blockRelocated => { c with blocksRelocated := c.blocksRelocated + 1 }
  | .pageHops hops => { c with pageHops := c.pageHops + hops }
  | .arrayGrown => { c with arraysGrown := c.arraysGrown + 1 }

end Counters

/-- What becomes of the measures of a store. -/
inductive Metrics
  /-- They are dropped. -/
  | discard
  /-- They are counted. -/
  | counting (counters : Counters)
  deriving DecidableEq, Repr

namespace Metrics

/-- The counters; all zero if nothing is counted. -/
def counters : Metrics → Counters
  | .discard => .zero
  | .counting c => c

/-- Takes note of one measure. -/
def add (m : Metrics) (x : Measure) : Metrics :=
  match m with
  | .discard => .discard
  | .counting c => .counting (c.add x)

/-- Takes note of everything that happened during a call. -/
def record (m : Metrics) (events : List Event) : Metrics :=
  (events.filterMap Event.measure?).foldl add m

theorem record_append (m : Metrics) (events more : List Event) :
    m.record (events ++ more) = (m.record events).record more := by
  simp [record, List.foldl_append]

end Metrics

end Adjacency
