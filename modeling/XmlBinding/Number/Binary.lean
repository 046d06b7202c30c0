import XmlBinding.Number.Decimal

/-! Binary floating-point numbers, exactly. A finite one is a significand times a power of two, within the
bounds of its format. Of a decimal number the nearest one is taken, of two equally near ones the one with
an even significand. -/
namespace XmlBinding.Number

/-- A format: how many bits a significand has, and which powers of two it is multiplied by. -/
structure Format where
  precision : Nat
  leastExponent : Int
  greatestExponent : Int
deriving DecidableEq, Repr

namespace Format

/-- Numbers in 32 bits. -/
def single : Format := ⟨24, -149, 104⟩

/-- Numbers in 64 bits. -/
def double : Format := ⟨53, -1074, 971⟩

end Format

inductive BinaryNumber where
  | nan
  | infinite (negative : Bool)
  /-- The number `significand * 2 ^ exponent`, or its negative. -/
  | finite (negative : Bool) (significand : Nat) (exponent : Int)
deriving DecidableEq, Repr

namespace BinaryNumber

/-- Whether a number is zero, of either sign. -/
def isZero : BinaryNumber → Bool
  | finite _ 0 _ => true
  | _ => false

end BinaryNumber

/-- The integer nearest to a quotient, the even one if two are equally near. -/
def roundHalfEven (numerator denominator : Nat) : Nat :=
  let quotient := numerator / denominator
  let twice := 2 * (numerator % denominator)
  if twice < denominator then quotient
  else if denominator < twice then quotient + 1
  else quotient + quotient % 2

/-- The quotient of two fractions' terms, as a fraction: `numerator / denominator` divided by
`base ^ exponent`. -/
def divPower (base : Nat) (exponent : Int) (numerator denominator : Nat) : Nat × Nat :=
  if 0 ≤ exponent then (numerator, denominator * Nat.pow base exponent.toNat)
  else (numerator * Nat.pow base (-exponent).toNat, denominator)

/-- The greatest `k` with `2 ^ k ≤ numerator / denominator`, for a fraction above zero. -/
def log2Quotient (numerator denominator : Nat) : Int :=
  let guess : Int := (numerator.log2 : Int) - denominator.log2
  let (n, d) := divPower 2 guess numerator denominator
  if n < d then guess - 1 else guess

namespace Format

/-- Zero, in the only exponent that a format gives it. -/
def zero (format : Format) (negative : Bool) : BinaryNumber :=
  .finite negative 0 format.leastExponent

/-- The number nearest to a decimal one; what lies beyond the largest finite number is infinite. -/
def nearest (format : Format) (negative : Bool) (d : Decimal) : BinaryNumber :=
  if d.significand = 0 then format.zero negative
  else
    let (numerator, denominator) := divPower 10 (-d.exponent) d.significand 1
    let exponent :=
      max format.leastExponent (log2Quotient numerator denominator - (format.precision - 1))
    let (n, m) := divPower 2 exponent numerator denominator
    let significand := roundHalfEven n m
    let (significand, exponent) :=
      if significand = Nat.pow 2 format.precision then (Nat.pow 2 (format.precision - 1), exponent + 1)
      else (significand, exponent)
    if significand = 0 then format.zero negative
    else if format.greatestExponent < exponent then .infinite negative
    else .finite negative significand exponent

/-- The words for what is no finite number, in any case of letters. -/
def special? (negative : Bool) (word : List Char) : Option BinaryNumber :=
  match String.ofList (word.map Char.toLower) with
  | "nan" => some .nan
  | "inf" => some (.infinite negative)
  | "infinity" => some (.infinite negative)
  | _ => none

/-- Reads a number: an optional sign, then a decimal number or a word. -/
def read? (format : Format) (chars : List Char) : Option BinaryNumber :=
  let (negative, rest) :=
    match chars with
    | '-' :: rest => (true, rest)
    | '+' :: rest => (false, rest)
    | rest => (false, rest)
  match Decimal.ofChars? rest with
  | some d => some (format.nearest negative d)
  | none => special? negative rest

end Format

end XmlBinding.Number
