import Adjacency.Options
import Adjacency.Refusal

/-!
# Arrays of ids

Each node has an array of ids with the room it was opened with. A full array is given as much room
again as it has before the next id is added.
-/

namespace Adjacency

/-- The ids recorded for a node, and the room its array has. -/
structure PlainArray where
  ids : Array UInt64
  capacity : Nat
  deriving DecidableEq, Repr, Inhabited

namespace PlainArray

/-- There is no room for another id. -/
def isFull (a : PlainArray) : Bool := a.ids.size == a.capacity

/-- The room after the array was grown. -/
def grownCapacity (a : PlainArray) : Nat :=
  Memory.extend a.ids.size a.capacity (max a.capacity 1)

/-- Adds an id, growing the array first if it is full. -/
def push (target : UInt64) (a : PlainArray) : PlainArray :=
  let full := a.isFull
  let grown := a.grownCapacity
  match a with
  | ⟨ids, capacity⟩ => ⟨ids.push target, if full then grown else capacity⟩

end PlainArray

/-- The arrays of all nodes. -/
structure PlainArrays where
  nodes : Array PlainArray
  /-- How often an array was grown. -/
  reallocations : Nat
  deriving DecidableEq, Repr

namespace PlainArrays

/-- No nodes. -/
def empty : PlainArrays := ⟨#[], 0⟩

/-- Empty arrays with the room that the sizing asks for. -/
def allocate (sizing : Sizing) : Check PlainArrays := do
  let nodes := sizing.totalNodes.toNat
  let bytes ← Memory.product .plainArray sizing.fanOut Memory.idSize
  let _ ← Memory.product .plainArrays nodes bytes
  Memory.reserve .nodeTable Memory.nodeSize nodes
  Memory.reserve .plainArray Memory.idSize sizing.fanOut
  return ⟨Array.replicate nodes ⟨#[], sizing.fanOut⟩, 0⟩

/-- Adds an id to the array of a node. -/
def append (a : PlainArrays) (node : Nat) (target : UInt64) : PlainArrays × List Event :=
  let array := a.nodes.getD node default
  let full := array.isFull
  let capacity := array.grownCapacity
  match a with
  | ⟨nodes, reallocations⟩ =>
    let nodes := nodes.modify node (PlainArray.push target)
    if full then (⟨nodes, reallocations + 1⟩, [.arrayGrown .plainArray node capacity])
    else (⟨nodes, reallocations⟩, [])

/-- The ids recorded for a node. -/
def targets (a : PlainArrays) (node : Nat) : List UInt64 := (a.nodes.getD node default).ids.toList

theorem nodes_append (a : PlainArrays) (node : Nat) (target : UInt64) :
    (a.append node target).1.nodes = a.nodes.modify node (PlainArray.push target) := by
  rw [append]
  dsimp only
  split <;> rfl

theorem size_append (a : PlainArrays) (node : Nat) (target : UInt64) :
    (a.append node target).1.nodes.size = a.nodes.size := by
  rw [nodes_append, Array.size_modify]

theorem targets_append {a : PlainArrays} {node : Nat} (h : node < a.nodes.size) (target : UInt64)
    (m : Nat) : (a.append node target).1.targets m =
      if m = node then a.targets m ++ [target] else a.targets m := by
  simp only [targets, nodes_append, Array.getD_eq_getD_getElem?, Array.getElem?_modify]
  by_cases hm : m = node
  · subst hm
    simp [PlainArray.push, h]
  · simp [hm, Ne.symm hm]

/-- The bytes of all arrays, used or not. -/
def size (a : PlainArrays) : Nat :=
  a.nodes.foldl (fun n array ↦ n + array.capacity * Memory.idSize) 0

end PlainArrays

end Adjacency
