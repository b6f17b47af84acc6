import Adjacency.Binary64.Rounding
import Adjacency.Binary64.Shortest

/-!
# Binary64 numbers as text

A number is shown in the fewest digits that read back, always with a point and a digit behind it in
positional notation. A `Style` says what a number that is none looks like and from where on an
exponent is written. A number can also be shown with a fixed count of decimals, rounded from its
exact value.
-/

namespace Adjacency

namespace Binary64

/-- The choices a text format makes for numbers. -/
structure Style where
  /-- The text of a number that is none. -/
  nan : String
  /-- If given, `(low, high)`: only magnitudes from `10 ^ low` up to `10 ^ high` are positional. -/
  positional : Option (Int × Int)
  deriving DecidableEq, Repr

/-- Digits and point position in positional notation, with at least one digit on either side. -/
def Numeral.positional (d : Numeral) : String :=
  let count : Int := d.digits.length
  let whole := d.digits.take d.point.toNat ++ List.replicate (d.point - count).toNat '0'
  let fraction := List.replicate (-d.point).toNat '0' ++ d.digits.drop d.point.toNat
  String.ofList ((if whole.isEmpty then ['0'] else whole) ++ ['.']
    ++ (if fraction.isEmpty then ['0'] else fraction))

/-- Digits with an exponent; a single digit has no point behind it. -/
def Numeral.scientific (d : Numeral) : String :=
  let exponent := "e" ++ toString (d.point - 1)
  match d.digits with
  | [] => "0" ++ exponent
  | [c] => String.ofList [c] ++ exponent
  | c :: rest => String.ofList (c :: '.' :: rest) ++ exponent

/-- The text of a number. -/
def text (style : Style) (x : Binary64) : String :=
  if x.isNaN then style.nan
  else
    let magnitude :=
      if x.isInfinite then "inf"
      else
        let d := x.shortest
        match style.positional with
        | none => d.positional
        | some (low, high) =>
          if d.digits.isEmpty ∨ low < d.point ∧ d.point ≤ high then d.positional else d.scientific
    if x.negative then "-" ++ magnitude else magnitude

/-- The magnitude of a finite number with a fixed count of decimals, a tie going to the even digit.
-/
def fixed (places : Nat) (x : Binary64) : String :=
  let n := roundDiv (x.units * 10 ^ places) unitsPerOne
  let fraction := Nat.toDigits 10 (n % 10 ^ places)
  toString (n / 10 ^ places) ++ "."
    ++ String.ofList (List.replicate (places - fraction.length) '0' ++ fraction)

end Binary64

end Adjacency
