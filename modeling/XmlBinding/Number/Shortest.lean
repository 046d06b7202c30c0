import XmlBinding.Number.Binary

/-! The shortest decimal text of a binary number: of the decimals that are read as this number, those with
the fewest digits, and of these the nearest. The decimals with a last digit of weight `10 ^ k` form a
grid; if a grid has a point that is read as the number, then one of the two points around the number is. -/
namespace XmlBinding.Number

/-- The decimals that are read as one number, in quarters of the weight of its last binary digit. -/
structure Interval where
  low : Nat
  middle : Nat
  high : Nat
  /-- Whether the two ends belong to it. -/
  closed : Bool
  /-- The power of two that is the unit of the other fields. -/
  exponent : Int
deriving DecidableEq, Repr

namespace Interval

/-- What is read as a number above zero: up to halfway to its two neighbours. Below a power of two the
neighbours are closer together. -/
def around (format : Format) (significand : Nat) (exponent : Int) : Interval where
  low := 4 * significand - (if significand = Nat.pow 2 (format.precision - 1) then 1 else 2)
  middle := 4 * significand
  high := 4 * significand + 2
  closed := significand % 2 == 0
  exponent := exponent - 2

/-- The point of the grid of weight `10 ^ k` that lies inside and nearest to the middle, if one of the two
points around the middle lies inside; of two equally near ones the greater. -/
def onGrid? (interval : Interval) (k : Int) : Option Decimal :=
  let (units, one) := divPower 2 (-interval.exponent) 1 1
  let (scale, weight) := divPower 10 k units one
  let inside (point : Nat) : Bool :=
    if interval.closed then
      interval.low * scale ≤ point * weight ∧ point * weight ≤ interval.high * scale
    else interval.low * scale < point * weight ∧ point * weight < interval.high * scale
  let below := interval.middle * scale / weight
  let nearerBelow := 2 * (interval.middle * scale % weight) < weight
  if inside below && (nearerBelow || !inside (below + 1)) then some ⟨below, k⟩
  else if inside (below + 1) then some ⟨below + 1, k⟩
  else none

/-- The coarsest of so many grids that has a point inside, from the grid of weight `10 ^ k` downwards. -/
def search? (interval : Interval) : Nat → Int → Option Decimal
  | 0, _ => none
  | grids + 1, k =>
    match interval.onGrid? k with
    | some d => some d
    | none => interval.search? grids (k - 1)

end Interval

/-- A power of ten above a number whose last binary digit has the weight `2 ^ exponent`. -/
def ceilingLog10 (significand : Nat) (exponent : Int) : Int :=
  ((significand.log2 : Int) + 1 + exponent) * 30103 / 100000 + 1

/-- The shortest decimal that is read as a number above zero. -/
def shortest (format : Format) (significand : Nat) (exponent : Int) : Decimal :=
  ((Interval.around format significand exponent).search? (format.precision + 2)
    (ceilingLog10 significand exponent)).getD ⟨0, 0⟩

/-- The text of a number: never with an exponent, and with as few digits as are read back as it. -/
def BinaryNumber.text (format : Format) : BinaryNumber → List Char
  | .nan => "NaN".toList
  | .infinite negative => (if negative then "-inf" else "inf").toList
  | .finite negative significand exponent =>
    let digits := if significand = 0 then ['0'] else (shortest format significand exponent).text
    if negative then '-' :: digits else digits

end XmlBinding.Number
