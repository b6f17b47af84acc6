/-!
# Reading and overwriting stretches of a byte buffer

A codec sees bytes as a list; a buffer keeps them in an array. Two functions lie between the two
views: `window` cuts the list out of the buffer, `overwrite` lays a list over it. Reading past the
stop and writing past the end are harmless: the list is shorter, the surplus bytes are dropped.
-/

namespace Adjacency

namespace Bytes

/-- At most `room` bytes of `src` from `off` on, none of them at or behind `stop`. -/
def window (src : Array UInt8) (off stop room : Nat) : List UInt8 :=
  (src.extract off (min stop (off + room))).toList

/-- `dst` with `code` laid over it from `off` on. -/
def overwrite (dst : Array UInt8) (off : Nat) : List UInt8 → Array UInt8
  | [] => dst
  | b :: code => overwrite (dst.setIfInBounds off b) (off + 1) code

@[simp] theorem size_overwrite (dst : Array UInt8) (off : Nat) (code : List UInt8) :
    (overwrite dst off code).size = dst.size := by
  induction code generalizing dst off with
  | nil => rfl
  | cons b code ih => rw [overwrite, ih, Array.size_setIfInBounds]

end Bytes

end Adjacency
