import Adjacency.Word

/-!
# Binary64 numbers

A binary64 number is its 64 bits: a sign, an exponent of eleven bits and a fraction of 52 bits.
Every finite number is a whole multiple of the least positive one, `2 ^ (-1074)`, so its magnitude
is the natural number `units`, and arithmetic on it is exact arithmetic on natural numbers followed
by one rounding. The bits of a number that is none (NaN) are kept like any others.
-/

namespace Adjacency

/-- A binary64 number, given by its bits. -/
structure Binary64 where
  bits : UInt64
  deriving DecidableEq, Repr

namespace Binary64

/-- The number of least units in one. -/
def unitsPerOne : Nat := 2 ^ 1074

/-- The sign bit is set. -/
def negative (x : Binary64) : Bool := decide (2 ^ 63 ≤ x.bits.toNat)

/-- The bits without the sign. -/
def magnitudeBits (x : Binary64) : Nat := x.bits.toNat % 2 ^ 63

/-- The magnitude bits of infinity. Those of finite numbers are below, those of NaNs above. -/
def infinityBits : Nat := 0x7ff * 2 ^ 52

/-- Not a number. -/
def isNaN (x : Binary64) : Bool := decide (infinityBits < x.magnitudeBits)

/-- Plus or minus infinity. -/
def isInfinite (x : Binary64) : Bool := decide (x.magnitudeBits = infinityBits)

/-- A real number. -/
def isFinite (x : Binary64) : Bool := decide (x.magnitudeBits < infinityBits)

/-- The significand of a finite number, with its leading bit if it has one. -/
def significand (x : Binary64) : Nat :=
  if x.magnitudeBits < 2 ^ 52 then x.magnitudeBits else 2 ^ 52 + x.magnitudeBits % 2 ^ 52

/-- The power of two that one step of the significand stands for, in least units. -/
def scale (x : Binary64) : Nat := x.magnitudeBits / 2 ^ 52 - 1

/-- The magnitude of a finite number in least units. -/
def units (x : Binary64) : Nat := x.significand * 2 ^ x.scale

/-- The number with given magnitude bits, infinity at most. -/
def ofMagnitudeBits (negative : Bool) (n : Nat) : Binary64 :=
  ⟨UInt64.ofNat ((if negative then 2 ^ 63 else 0) + min n infinityBits)⟩

/-- Infinity. -/
def infinity (negative : Bool) : Binary64 := ofMagnitudeBits negative infinityBits

/-- Not a number, in its usual bits. -/
def nan (negative : Bool) : Binary64 :=
  ⟨if negative then 0xfff8000000000000 else 0x7ff8000000000000⟩

/-- One. -/
def one : Binary64 := ⟨0x3ff0000000000000⟩

/-- At least one and finite. Among positive numbers the order of the bits is that of the numbers. -/
def isFiniteAtLeastOne (x : Binary64) : Bool :=
  decide (one.bits.toNat ≤ x.bits.toNat ∧ x.bits.toNat < infinityBits)

end Binary64

end Adjacency
