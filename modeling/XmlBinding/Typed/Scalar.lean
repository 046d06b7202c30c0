import XmlBinding.Number.Shortest
import XmlBinding.Text.Classes

/-! Scalars: the values that are written as one text. -/
namespace XmlBinding

/-- How wide an integer is; the last width is that of an address. -/
inductive Width where
  | w8
  | w16
  | w32
  | w64
  | w128
  | address
deriving DecidableEq, Repr

def Width.bits : Width → Nat
  | w8 => 8
  | w16 => 16
  | w32 => 32
  | w64 => 64
  | w128 => 128
  | address => 64

inductive ScalarType where
  | string
  | char
  | bool
  | signed (width : Width)
  | unsigned (width : Width)
  | single
  | double
deriving DecidableEq, Repr

inductive Scalar where
  | text (value : String)
  | char (value : Char)
  | bool (value : Bool)
  | integer (value : Int)
  | single (value : Number.BinaryNumber)
  | double (value : Number.BinaryNumber)
deriving DecidableEq, Repr

namespace Scalar

/-- The text of a scalar. -/
def format : Scalar → String
  | text value => value
  | char value => value.toString
  | bool value => if value then "true" else "false"
  | integer value => String.ofList (Number.integerText value)
  | single value => String.ofList (value.text .single)
  | double value => String.ofList (value.text .double)

/-- Whether a scalar is nothing in its type: no text, the null character, false or zero. -/
def isZero : Scalar → Bool
  | text value => value.isEmpty
  | char value => value == '\x00'
  | bool value => !value
  | integer value => value == 0
  | single value => value.isZero
  | double value => value.isZero

end Scalar

/-- Reads a truth value, in one of the spellings of true and false. -/
def readBool? (text : String) : Option Bool :=
  if text ∈ ["1", "t", "T", "true", "TRUE", "True"] then some true
  else if text ∈ ["0", "f", "F", "false", "FALSE", "False"] then some false
  else none

namespace ScalarType

/-- Reads a scalar of a type. A text is taken as it is and a character must be one; blanks around
anything else do not matter. -/
def read? (type : ScalarType) (text : String) : Option Scalar :=
  let trimmed := Text.trimBlank text
  let integer? (range : Number.IntegerRange) : Option Scalar :=
    (Number.readInteger range trimmed.toList).toOption.map .integer
  match type with
  | string => some (.text text)
  | char =>
    match text.toList with
    | [c] => some (.char c)
    | _ => none
  | bool => (readBool? trimmed).map .bool
  | signed width => integer? (.signed width.bits)
  | unsigned width => integer? (.unsigned width.bits)
  | single => (Number.Format.single.read? trimmed.toList).map .single
  | double => (Number.Format.double.read? trimmed.toList).map .double

/-- The scalar that is nothing in its type. -/
def blank : ScalarType → Scalar
  | string => .text ""
  | char => .char '\x00'
  | bool => .bool false
  | signed _ => .integer 0
  | unsigned _ => .integer 0
  | single => .single (Number.Format.single.zero false)
  | double => .double (Number.Format.double.zero false)

/-- The kind of thing that a scalar type holds. -/
def describe : ScalarType → String
  | string => "string"
  | char => "string"
  | bool => "bool"
  | signed _ => "integer"
  | unsigned _ => "integer"
  | single => "float"
  | double => "float"

end ScalarType

end XmlBinding
