/-! Integers in decimal. Reading takes an optional sign and at least one digit. It goes through the digits
from the left: whatever is no digit is reported where it is met, and so is the first digit that carries
the number out of its range. -/
namespace XmlBinding.Number

/-- A reason why a text is no integer of some range. -/
inductive IntegerFault where
  | empty
  | invalidDigit
  | tooLarge
  | tooSmall
deriving DecidableEq, Repr

def IntegerFault.describe : IntegerFault → String
  | empty => "cannot parse integer from empty string"
  | invalidDigit => "invalid digit found in string"
  | tooLarge => "number too large to fit in target type"
  | tooSmall => "number too small to fit in target type"

/-- The integers from `least` to `greatest`. -/
structure IntegerRange where
  least : Int
  greatest : Int
deriving DecidableEq, Repr

namespace IntegerRange

/-- The integers of so many bits in two's complement. -/
def signed (bits : Nat) : IntegerRange := ⟨-(Nat.pow 2 (bits - 1) : Int), (Nat.pow 2 (bits - 1) : Int) - 1⟩

/-- The natural numbers of so many bits. -/
def unsigned (bits : Nat) : IntegerRange := ⟨0, (Nat.pow 2 bits : Int) - 1⟩

def Contains (range : IntegerRange) (n : Int) : Prop :=
  range.least ≤ n ∧ n ≤ range.greatest

instance (range : IntegerRange) (n : Int) : Decidable (range.Contains n) :=
  inferInstanceAs (Decidable (_ ∧ _))

end IntegerRange

/-- The value of a decimal digit. -/
def decimalDigit? (c : Char) : Option Nat :=
  if c.isDigit then some (c.toNat - '0'.toNat) else none

/-- Appends digits to a number; below zero each digit counts downwards. -/
def appendDigits (range : IntegerRange) (negative : Bool) (n : Int) :
    List Char → Except IntegerFault Int
  | [] => .ok n
  | c :: rest =>
    match decimalDigit? c with
    | none => .error .invalidDigit
    | some digit =>
      let next := if negative then n * 10 - digit else n * 10 + digit
      if next < range.least then .error .tooSmall
      else if range.greatest < next then .error .tooLarge
      else appendDigits range negative next rest

/-- Reads an integer of a range. A minus sign is known only where the range goes below zero. -/
def readInteger (range : IntegerRange) : List Char → Except IntegerFault Int
  | [] => .error .empty
  | ['+'] => .error .invalidDigit
  | ['-'] => .error .invalidDigit
  | '+' :: digits => appendDigits range false 0 digits
  | '-' :: digits =>
    if range.least < 0 then appendDigits range true 0 digits else .error .invalidDigit
  | digits => appendDigits range false 0 digits

/-- The digits of an integer, after a minus sign if it is below zero. -/
def integerText (n : Int) : List Char :=
  if n < 0 then '-' :: Nat.toDigits 10 n.natAbs else Nat.toDigits 10 n.natAbs

end XmlBinding.Number
