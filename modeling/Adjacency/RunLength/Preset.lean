import Adjacency.Bytes.BigEndian
import Adjacency.Bytes.Window

/-!
# Buffer sizes

Run-length buffers come in four sizes. A fresh buffer is zero but for its first four bytes, which
say how large it is.
-/

namespace Adjacency

namespace RunLength

/-- The size of a buffer. -/
inductive Preset
  | small
  | medium
  | large
  | huge
  deriving DecidableEq, Repr

namespace Preset

/-- The size in bytes. -/
def byteSize : Preset → Nat
  | .small => 1024
  | .medium => 1024 * 1024
  | .large => 128 * 1024 * 1024
  | .huge => 1024 * 1024 * 1024

/-- A fresh buffer. -/
def allocate (p : Preset) : Array UInt8 :=
  Bytes.overwrite (Array.replicate p.byteSize 0) 0 (BigEndian.word32 (UInt32.ofNat p.byteSize))

theorem size_allocate (p : Preset) : p.allocate.size = p.byteSize := by
  rw [allocate, Bytes.size_overwrite, Array.size_replicate]

end Preset

end RunLength

end Adjacency
