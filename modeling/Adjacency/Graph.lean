/-!
# Nodes, relationships and adjacency entries

Nodes and relationship types are numbered. A relationship has two ends, and each end sees the other:
a relationship is recorded as two adjacency entries, one at its source and one at its target.
-/

namespace Adjacency

/-- The number of a node. -/
abbrev NodeId := UInt64

/-- The number of a relationship type. -/
abbrev RelType := UInt32

/-- The end of a relationship that an entry is recorded at. -/
inductive Direction
  /-- At the source. -/
  | outgoing
  /-- At the target. -/
  | incoming
  deriving DecidableEq, Repr, Inhabited

/-- The opposite end. -/
def Direction.reverse : Direction → Direction
  | .outgoing => .incoming
  | .incoming => .outgoing

@[simp] theorem Direction.reverse_reverse (d : Direction) : d.reverse.reverse = d := by
  cases d <;> rfl

/-- `target` as a neighbour of `node`. -/
structure Entry where
  node : NodeId
  target : NodeId
  type : RelType
  direction : Direction
  deriving DecidableEq, Repr

/-- A typed edge from `source` to `target`. -/
structure Relationship where
  source : NodeId
  target : NodeId
  type : RelType
  deriving DecidableEq, Repr

namespace Relationship

/-- The entry at the source. -/
def outgoing (r : Relationship) : Entry := ⟨r.source, r.target, r.type, .outgoing⟩

/-- The entry at the target. -/
def incoming (r : Relationship) : Entry := ⟨r.target, r.source, r.type, .incoming⟩

/-- Both entries, the one at the source first. -/
def entries (r : Relationship) : List Entry := [r.outgoing, r.incoming]

end Relationship

/-- How a store lays out its lists. -/
inductive Kind
  /-- Nothing is kept. -/
  | null
  /-- One growing array of ids per node. -/
  | plainArray
  /-- One growing array of coded ids per node. -/
  | byteArray
  /-- Chains of equal blocks in one shared arena. -/
  | pagedBuffer
  deriving DecidableEq, Repr, Inhabited

/-- The name a kind of store is reported under. -/
def Kind.text : Kind → String
  | .null => "null"
  | .plainArray => "plain_array"
  | .byteArray => "byte_array"
  | .pagedBuffer => "paged_buffer"

/-- The totals a store is opened with, and the number of entries each node starts with room for. -/
structure Sizing where
  totalNodes : UInt64
  totalRels : UInt64
  fanOut : Nat
  deriving DecidableEq, Repr

end Adjacency
