import Adjacency.Binary64.Basic

/-!
# The fewest digits that read back

A finite binary64 number is the one that every real number of an interval around it rounds to; the
ends belong to the interval exactly when its significand is even. Among the decimal numerals in that
interval we want one with the fewest digits, and among those the nearest.

The numerals of `k` digits form a grid. If any of its points lies in the interval then one of the
two points next to the number does, so for `k = 1, 2, …` only these two are tried. Seventeen digits
always suffice. Everything is compared in whole numbers, by quadrupling the least units.
-/

namespace Adjacency

namespace Binary64

/-- A numeral `0.d₁d₂… * 10 ^ point`, without zeros at its ends. -/
structure Numeral where
  digits : List Char
  point : Int
  deriving DecidableEq, Repr

/-- A number lies between the halfway points to its neighbours; in quarters of a least unit. -/
structure Interval where
  low : Nat
  value : Nat
  high : Nat
  closed : Bool
  deriving DecidableEq, Repr

/-- The interval that rounds to the magnitude of `x`. The neighbour below a power of two is nearer
than the one above. -/
def interval (x : Binary64) : Interval :=
  let step := 2 ^ x.scale
  let below := if x.significand = 2 ^ 52 ∧ 0 < x.scale then step else 2 * step
  { low := 4 * x.units - below
    value := 4 * x.units
    high := 4 * x.units + 2 * step
    closed := x.significand % 2 == 0 }

/-- The point `n * unit / den` lies in the interval. -/
def Interval.holds (i : Interval) (n unit den : Nat) : Bool :=
  if i.closed then decide (i.low * den ≤ n * unit ∧ n * unit ≤ i.high * den)
  else decide (i.low * den < n * unit ∧ n * unit < i.high * den)

/-- The grid point next to the number that lies in the interval, if one does: of two the nearer, of
two equally near ones the greater. -/
def Interval.gridPoint? (i : Interval) (unit den : Nat) : Option Nat :=
  let n := i.value * den / unit
  match i.holds n unit den, i.holds (n + 1) unit den with
  | true, true =>
    if i.value * den - n * unit < (n + 1) * unit - i.value * den then some n else some (n + 1)
  | true, false => some n
  | false, true => some (n + 1)
  | false, false => none

/-- The first grid with a point in the interval, from `k` digits on: the point and its number of
digits. The number itself is below `10 ^ point`. -/
def Interval.search (i : Interval) (point : Int) : (tries k : Nat) → Option (Nat × Nat)
  | 0, _ => none
  | tries + 1, k =>
    let e := point - (k : Int)
    let unit := 4 * unitsPerOne * 10 ^ e.toNat
    let den := 10 ^ (-e).toNat
    match i.gridPoint? unit den with
    | some n => some (n, k)
    | none => i.search point tries (k + 1)

/-- The least power of ten above `units`, searched upwards from an exponent. -/
def pointFrom (units : Nat) : (tries : Nat) → Int → Int
  | 0, e => e
  | tries + 1, e =>
    if units * 10 ^ (-e).toNat < unitsPerOne * 10 ^ e.toNat then e
    else pointFrom units tries (e + 1)

/-- The fewest digits that read back as the magnitude of a finite number. Zero has none. -/
def shortest (x : Binary64) : Numeral :=
  if x.units = 0 then ⟨[], 0⟩
  else
    let guess := ((x.units.log2 : Int) - 1074) * 30103 / 100000
    let point := pointFrom x.units 4 guess
    match x.interval.search point 17 1 with
    | none => ⟨[], 0⟩
    | some (n, k) =>
      let digits := Nat.toDigits 10 n
      { digits := (digits.reverse.dropWhile (· == '0')).reverse
        point := point + ((digits.length : Int) - (k : Int)) }

end Binary64

end Adjacency
