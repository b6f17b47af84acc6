/-!
# Signed numbers folded into unsigned ones

The integers `0, -1, 1, -2, 2, …` are numbered in this order, so the sign ends up in the lowest bit
and a number near zero stays small. The two functions are inverse to each other, and they carry the
signed 64-bit numbers onto the unsigned ones.
-/

namespace Adjacency

namespace ZigZag

/-- The place of an integer in the order `0, -1, 1, -2, 2, …`. -/
def toNat (v : Int) : Nat := if 0 ≤ v then 2 * v.natAbs else 2 * v.natAbs - 1

/-- The integer at a place of the order `0, -1, 1, -2, 2, …`. -/
def ofNat (z : Nat) : Int := if z % 2 = 0 then (z / 2 : Nat) else -((z / 2 : Nat) : Int) - 1

@[simp] theorem ofNat_toNat (v : Int) : ofNat (toNat v) = v := by
  unfold ofNat toNat
  split <;> split <;> omega

@[simp] theorem toNat_ofNat (z : Nat) : toNat (ofNat z) = z := by
  unfold ofNat toNat
  split <;> split <;> omega

/-- A signed 64-bit number has an unsigned 64-bit place. -/
def encode (v : Int64) : UInt64 := UInt64.ofNat (toNat v.toInt)

/-- The signed 64-bit number at an unsigned 64-bit place. -/
def decode (z : UInt64) : Int64 := Int64.ofInt (ofNat z.toNat)

end ZigZag

end Adjacency
