import XmlBinding.Native.Value
import XmlBinding.Typed.Scalar

/-! Types and the values of types. A type says how a value is written and read; records, custom types and
types without a written form are known by what tells them apart, so a record may contain itself. -/
namespace XmlBinding

inductive Ty where
  | scalar (type : ScalarType)
  /-- A value that may be missing. -/
  | option (target : Ty)
  /-- A value kept elsewhere. -/
  | box (target : Ty)
  /-- A value of a type that is known only when it is written, or none. -/
  | dynamic
  | native
  /-- A record, by what tells its type from others; the name of its elements is another matter. -/
  | record (record : String)
  /-- A map; maps of several families are different types that hold the same values. -/
  | map (family : String) (key value : Ty)
  | sequence (element : Ty)
  | array (element : Ty) (length : Nat)
  /-- A type with a written form of its own. -/
  | custom (name : String)
  /-- A type that has no written form. -/
  | unsupported (name : String)
deriving DecidableEq, Repr

namespace Ty

/-- The kind of thing that a type holds. -/
def describe : Ty → String
  | scalar type => type.describe
  | option _ => "pointer"
  | box _ => "pointer"
  | dynamic => "dynamic value"
  | native => "native value"
  | record _ => "struct"
  | map _ _ _ => "map"
  | sequence _ => "sequence"
  | array _ _ => "array"
  | custom _ => "custom"
  | unsupported _ => "unsupported"

/-- The type of text. -/
abbrev string : Ty := scalar .string

end Ty

/-- A value of some type. The state of a custom type is whatever the type takes it to be. -/
inductive Data where
  | scalar (value : Scalar)
  /-- Nothing, in an option or a dynamic value. -/
  | absent
  /-- What an option or a box holds. -/
  | present (target : Data)
  /-- What a dynamic value holds, with its type. -/
  | dynamic (type : Ty) (content : Data)
  | native (value : Value)
  /-- The fields of a record under their names. -/
  | record (fields : List (String × Data))
  /-- The entries of a map under the texts of their keys. -/
  | map (entries : List (String × Data))
  /-- The items of a sequence or an array. -/
  | list (items : List Data)
  /-- A value that nothing can be seen of. -/
  | sealed
deriving Repr

instance : Inhabited Data := ⟨.absent⟩

/-- Whether a value counts as empty: a scalar that is nothing in its type, nothing in an option or a dynamic
value, and a native value or a collection without content. A record, a box and a custom type never do. -/
def Ty.isEmpty : Ty → Data → Bool
  | scalar _, .scalar value => value.isZero
  | option _, .absent => true
  | dynamic, .absent => true
  | native, .native value => value.isEmpty
  | map _ _ _, .map entries => entries.isEmpty
  | sequence _, .list items => items.isEmpty
  | array _ length, _ => length == 0
  | _, _ => false

end XmlBinding
