import Adjacency.Binary64.Basic

/-!
# Rounding to binary64

A ratio of natural numbers is rounded to the nearest binary64 number, a tie to the one with an even
significand. The ratio is first measured in least units; the length of that measure decides how many
low bits the result cannot hold, and those are rounded away. Too large a ratio becomes infinity.

Products, quotients and decimal numerals are ratios, so all of them round the same way.
-/

namespace Adjacency

/-- The whole number nearest to `a / b`; of two equally near ones the even one. -/
def roundDiv (a b : Nat) : Nat :=
  if 2 * (a % b) < b ∨ 2 * (a % b) = b ∧ a / b % 2 = 0 then a / b else a / b + 1

namespace Binary64

/-- The number nearest to `num / den`, with a sign. -/
def ofRatio (negative : Bool) (num den : Nat) : Binary64 :=
  let shift := (num * unitsPerOne / den).log2 - 52
  ofMagnitudeBits negative (shift * 2 ^ 52 + roundDiv (num * unitsPerOne) (den * 2 ^ shift))

/-- The number nearest to a natural number. -/
def ofNat (n : Nat) : Binary64 := ofRatio false n 1

/-- The number nearest to an integer. -/
def ofInt (n : Int) : Binary64 := ofRatio (n < 0) n.natAbs 1

/-- The number nearest to `digits * 10 ^ exponent`, with a sign. Magnitudes that are certainly too
large or too small for any finite number are not computed. -/
def ofDecimal (negative : Bool) (digits : Nat) (exponent : Int) : Binary64 :=
  if digits = 0 then ofMagnitudeBits negative 0
  else
    let point := exponent + ((Nat.toDigits 10 digits).length : Int)
    if 310 < point then infinity negative
    else if point < -330 then ofMagnitudeBits negative 0
    else if 0 ≤ exponent then ofRatio negative (digits * 10 ^ exponent.toNat) 1
    else ofRatio negative digits (10 ^ (-exponent).toNat)

/-- The whole number nearest from above to `a * (growth - 1) / b`, for a finite `growth` of one or
more; difference, product and quotient are each rounded first. Stops at `limit`. -/
def excessCeil (growth : Binary64) (a b limit : Nat) : Nat :=
  let excess := ofRatio false (growth.units - unitsPerOne) unitsPerOne
  let product := ofRatio false ((ofNat a).units * excess.units) (unitsPerOne * unitsPerOne)
  if product.isInfinite then limit
  else
    let quotient := ofRatio false product.units (ofNat b).units
    min ((quotient.units + unitsPerOne - 1) / unitsPerOne) limit

end Binary64

end Adjacency
