import Adjacency.Store.Basic

/-!
# Calls on a store

The calls that a user of a store can make, as values, and the one function that makes them. A
history of a store is a list of such calls.
-/

namespace Adjacency

namespace Store

/-- A call on a store. -/
inductive Call
  | init (totalNodes totalRels : UInt64)
  | add (e : Entry)
  | addRelationship (r : Relationship)
  /-- Like `add`, in an arena only, and answered by a trace. -/
  | trace (node target : NodeId)
  | targets (node : NodeId)
  | chain (node : NodeId)
  | close
  deriving DecidableEq, Repr

/-- What a call answers. -/
inductive Answer
  | done
  | targets (ids : List NodeId)
  | trace (t : AppendTrace)
  | chain (blocks : List BlockInfo)
  /-- The call is about blocks and the store has none. -/
  | notPaged
  deriving DecidableEq, Repr

/-- Makes a call. -/
def step (s : Store) : Call → Outcome Store Answer
  | .init totalNodes totalRels => (s.init totalNodes totalRels).map fun _ ↦ .done
  | .add e => (s.add e).map fun _ ↦ .done
  | .addRelationship r => (s.addRelationship r).map fun _ ↦ .done
  | .trace node target => (s.trace node target).map fun t ↦ (t.map Answer.trace).getD .notPaged
  | .targets node => (s.targets node).map .targets
  | .chain node => (s.chain node).map fun c ↦ (c.map Answer.chain).getD .notPaged
  | .close => s.close.map fun _ ↦ .done

end Store

end Adjacency
