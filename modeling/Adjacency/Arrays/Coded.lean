import Adjacency.Options
import Adjacency.Refusal

/-!
# Arrays of coded ids

Each node has an array of bytes holding the codes of its ids one after another. Before an id is
added there must be room for the longest code; an array that has less is given as much room again as
it has, so a code is never split by growth.
-/

namespace Adjacency

/-- The coded ids of a node, and the room its array has. -/
structure CodedArray where
  bytes : Array UInt8
  capacity : Nat
  deriving DecidableEq, Repr, Inhabited

namespace CodedArray

/-- There may be no room for another code. -/
def isTight (c : Codec) (a : CodedArray) : Bool := decide (a.capacity < a.bytes.size + c.maxLen)

/-- The room after the array was grown. -/
def grownCapacity (c : Codec) (a : CodedArray) : Nat :=
  Memory.extend a.bytes.size a.capacity (max a.capacity c.maxLen)

/-- Adds the code of an id, growing the array first if there may be no room for it. -/
def push (c : Codec) (target : UInt64) (a : CodedArray) : CodedArray :=
  let tight := a.isTight c
  let grown := a.grownCapacity c
  match a with
  | ⟨bytes, capacity⟩ => ⟨(c.pushUInt64 target bytes).1, if tight then grown else capacity⟩

end CodedArray

/-- The arrays of all nodes. -/
structure CodedArrays where
  codec : Codec
  nodes : Array CodedArray
  /-- How often an array was grown. -/
  reallocations : Nat
  /-- The bytes of all codes. -/
  bytesWritten : Nat
  deriving DecidableEq, Repr

namespace CodedArrays

/-- No nodes. -/
def empty (codec : Codec) : CodedArrays := ⟨codec, #[], 0, 0⟩

/-- Empty arrays with the room that the sizing asks for, and room for one more code. -/
def allocate (options : Options) (sizing : Sizing) : Check CodedArrays := do
  let nodes := sizing.totalNodes.toNat
  let budget ← Memory.product .byteArray sizing.fanOut options.bytesPerEdge.toNat
  let initial := Word.saturate (budget + options.codec.maxLen)
  let _ ← Memory.product .byteArrays nodes initial
  Memory.reserve .nodeTable Memory.nodeSize nodes
  Memory.reserve .byteArray 1 initial
  return ⟨options.codec, Array.replicate nodes ⟨#[], initial⟩, 0, 0⟩

/-- Adds the code of an id to the array of a node. -/
def append (a : CodedArrays) (node : Nat) (target : UInt64) : CodedArrays × List Event :=
  let array := a.nodes.getD node default
  let tight := array.isTight a.codec
  let capacity := array.grownCapacity a.codec
  match a with
  | ⟨codec, nodes, reallocations, bytesWritten⟩ =>
    let nodes := nodes.modify node (CodedArray.push codec target)
    let bytesWritten := bytesWritten + codec.sizeUInt64 target
    if tight then
      (⟨codec, nodes, reallocations + 1, bytesWritten⟩, [.arrayGrown .byteArray node capacity])
    else (⟨codec, nodes, reallocations, bytesWritten⟩, [])

/-- The ids recorded for a node. -/
def targets (a : CodedArrays) (node : Nat) : Except Error (List UInt64) :=
  let bytes := (a.nodes.getD node default).bytes
  match a.codec.getAll .unsigned bytes 0 bytes.size with
  | .error e => .error e
  | .ok vs => .ok (vs.map fun v ↦ UInt64.ofNat v.toNat)

/-- The bytes of all arrays, used or not. -/
def size (a : CodedArrays) : Nat := a.nodes.foldl (fun n array ↦ n + array.capacity) 0

end CodedArrays

end Adjacency
