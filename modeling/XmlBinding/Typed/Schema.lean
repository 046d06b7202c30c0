import XmlBinding.Error
import XmlBinding.Typed.Data
import XmlBinding.Typed.Tag

/-! Schemas: what the types that are known by name stand for. A record has an element name, a list of fields with
their types and tags, and the value that a new one has; a custom type brings its own writing and reading. -/
namespace XmlBinding

structure Field where
  name : String
  type : Ty
  tag : String := ""
deriving DecidableEq, Repr

/-- The behaviour of a custom type. -/
structure Custom where
  blank : Data
  /-- The complete element that stands for a value under the given name. -/
  marshal : Data → String → Except Error (List UInt8)
  /-- Reads an element into a value; when it fails, the value is left as it then is. -/
  unmarshal : List UInt8 → Data → Data × Option Error

/-- A type of records. Fields that are not listed have a slot in the blank record only. -/
structure RecordType where
  /-- The name of the element that a record is written as at the root. -/
  name : String
  fields : List Field
  /-- The record that is made where there is none. -/
  blank : Data

structure Schema where
  /-- The types of records, under what tells them apart; several may have elements of one name. -/
  records : Keyed RecordType
  customs : Keyed Custom
  /-- The full name by which errors call a type. -/
  typeName : Ty → String

namespace Schema

/-- The fields of a record; a record that is not known has none. -/
def fields (schema : Schema) (record : String) : List Field :=
  ((schema.records.get? record).map RecordType.fields).getD []

/-- The name of the element that a record is written as at the root. -/
def elementName (schema : Schema) (record : String) : String :=
  ((schema.records.get? record).map RecordType.name).getD record

/-- The behaviour of a custom type; one that is not known has no written form. -/
def custom (schema : Schema) (name : String) : Except Error Custom :=
  match schema.customs.get? name with
  | some custom => .ok custom
  | none => .error (.unsupportedType (schema.typeName (.custom name)))

/-- The blank value of a type. What a blank record or custom value is like is for its type to say. -/
def blank (schema : Schema) : Ty → Data
  | .scalar type => .scalar type.blank
  | .option _ => .absent
  | .box target => .present (schema.blank target)
  | .dynamic => .absent
  | .native => .native .blank
  | .record record => ((schema.records.get? record).map RecordType.blank).getD (.record [])
  | .map _ _ _ => .map []
  | .sequence _ => .list []
  | .array element length => .list (List.replicate length (schema.blank element))
  | .custom name => ((schema.customs.get? name).map Custom.blank).getD .sealed
  | .unsupported _ => .sealed

section
variable (schema : Schema)

@[simp] theorem blank_scalar (type : ScalarType) : schema.blank (.scalar type) = .scalar type.blank := rfl

@[simp] theorem blank_option (target : Ty) : schema.blank (.option target) = .absent := rfl

@[simp] theorem blank_box (target : Ty) : schema.blank (.box target) = .present (schema.blank target) := rfl

@[simp] theorem blank_map (family : String) (key value : Ty) : schema.blank (.map family key value) = .map [] := rfl

@[simp] theorem blank_sequence (element : Ty) : schema.blank (.sequence element) = .list [] := rfl

@[simp] theorem blank_array (element : Ty) (length : Nat) :
    schema.blank (.array element length) = .list (List.replicate length (schema.blank element)) := rfl

end

end Schema

end XmlBinding
