import Adjacency.RunLength.Buffer

/-!
# Calls on a run-length buffer

The calls that a user of a buffer can make, as values, and the one function that makes them. A
history of a buffer is a list of such calls.
-/

namespace Adjacency

namespace RunLength

/-- A call on a buffer. -/
inductive Call
  | store (v : Int64)
  | flush
  | toggle
  | rewind
  | read
  deriving DecidableEq, Repr

/-- What a call answers. -/
inductive Answer
  | done
  | value (v : Int64)
  deriving DecidableEq, Repr

namespace Buffer

/-- Makes a call. -/
def step (b : Buffer) : Call → Outcome Buffer Answer
  | .store v => (b.store v).map fun _ ↦ .done
  | .flush => b.flush.map fun _ ↦ .done
  | .toggle => b.toggle.map fun _ ↦ .done
  | .rewind => b.rewind.map fun _ ↦ .done
  | .read => b.read.map .value

end Buffer

end RunLength

end Adjacency
