import XmlBinding.Number.Integer

/-! Decimal numbers: a natural number times a power of ten. They are read with or without a point and
with or without an exponent, and written without an exponent, as far as the power of ten reaches. -/
namespace XmlBinding.Number

/-- The number `significand * 10 ^ exponent`. -/
structure Decimal where
  significand : Nat
  exponent : Int
deriving DecidableEq, Repr

/-- The number that a run of digits spells. -/
def digitsValue (digits : List Char) : Nat :=
  digits.foldl (fun n c => n * 10 + (c.toNat - '0'.toNat)) 0

/-- From here on the further digits of an exponent are passed over. -/
def exponentCeiling : Nat := 0x10000

/-- The size of the exponent that a run of digits spells. -/
def exponentSize (digits : List Char) : Nat :=
  digits.foldl (fun n c => if n < exponentCeiling then n * 10 + (c.toNat - '0'.toNat) else n) 0

/-- Reads what stands behind the digits of a number: nothing, or the letter `e` with an integer. -/
def readExponent? : List Char → Option Int
  | [] => some 0
  | c :: rest =>
    if c = 'e' ∨ c = 'E' then
      let (negative, digits) :=
        match rest with
        | '-' :: digits => (true, digits)
        | '+' :: digits => (false, digits)
        | digits => (false, digits)
      if digits ≠ [] ∧ digits.all Char.isDigit then
        some (if negative then -(exponentSize digits : Int) else exponentSize digits)
      else none
    else none

namespace Decimal

/-- Reads a number without a sign: digits with at most one point among or around them. -/
def ofChars? (chars : List Char) : Option Decimal :=
  let (whole, rest) := chars.span Char.isDigit
  let (fraction, rest) :=
    match rest with
    | '.' :: rest => rest.span Char.isDigit
    | rest => ([], rest)
  if whole = [] ∧ fraction = [] then none
  else (readExponent? rest).map fun exponent =>
    ⟨digitsValue (whole ++ fraction), exponent - fraction.length⟩

/-- All digits of a number, with a point only if digits stand behind it. -/
def text (d : Decimal) : List Char :=
  let digits := Nat.toDigits 10 d.significand
  if 0 ≤ d.exponent then digits ++ List.replicate d.exponent.toNat '0'
  else
    let places := (-d.exponent).toNat
    if places < digits.length then
      digits.take (digits.length - places) ++ '.' :: digits.drop (digits.length - places)
    else '0' :: '.' :: (List.replicate (places - digits.length) '0' ++ digits)

end Decimal

end XmlBinding.Number
