import XmlBinding.Typed.Schema

/-! Access to values whose type is known only at run time. A value is handed over with its type, and each way
into the values of one type refuses a value of another. Where the answer does not hang on the value, the
value is not looked at. -/
namespace XmlBinding

/-- A value with its type. -/
structure Instance where
  type : Ty
  data : Data
deriving Repr

namespace Instance

/-- The value, if it is of the wanted type. -/
def expect (it : Instance) (schema : Schema) (type : Ty) : Except Error Data :=
  if it.type = type then .ok it.data
  else .error (.mismatch .otherType (schema.typeName type))

/-- Whether a value counts as empty among those of a type. -/
def isEmpty (it : Instance) (schema : Schema) (type : Ty) : Except Error Bool :=
  match type with
  | .box _ => .ok false
  | .record _ => .ok false
  | .array _ length => .ok (length == 0)
  | .custom _ => .ok false
  | .unsupported _ => .ok false
  | type => (it.expect schema type).map type.isEmpty

/-- The text of a scalar. -/
def format (it : Instance) (schema : Schema) (type : ScalarType) : Except Error String :=
  (it.expect schema (.scalar type)).map fun
    | .scalar value => value.format
    | _ => ""

/-- Whether a scalar is nothing in its type. -/
def isZero (it : Instance) (schema : Schema) (type : ScalarType) : Except Error Bool :=
  (it.expect schema (.scalar type)).map (Ty.isEmpty (.scalar type))

/-- Replaces a scalar by what a text stands for. The text is read before the value is looked at. -/
def parse (it : Instance) (schema : Schema) (type : ScalarType) (text : String) :
    Except Error Instance :=
  match type.read? text with
  | none => .error (.invalidScalar text (schema.typeName (.scalar type)))
  | some value => (it.expect schema (.scalar type)).map fun _ => { it with data := .scalar value }

/-- What an option or a box of a type holds. -/
def target? (it : Instance) (schema : Schema) (type : Ty) : Except Error (Option Data) :=
  (it.expect schema type).map fun
    | .present data => some data
    | _ => none

/-- Makes an option or a box of a type hold something, a blank value of the target type unless it already
does. -/
def fill (it : Instance) (schema : Schema) (type target : Ty) : Except Error Instance :=
  (it.expect schema type).map fun
    | .present data => { it with data := .present data }
    | _ => { it with data := .present (schema.blank target) }

/-- Takes away what an option or a box of a type holds; a box is left with a blank value. -/
def clear (it : Instance) (schema : Schema) (type : Ty) : Except Error Instance :=
  (it.expect schema type).map fun _ => { it with data := schema.blank type }

/-- A field of a record. -/
def field (it : Instance) (schema : Schema) (record : String) (field : Field) : Except Error Data :=
  (it.expect schema (.record record)).map fun
    | .record fields =>
      let fields : Keyed Data := fields
      (fields.get? field.name).getD (schema.blank field.type)
    | _ => schema.blank field.type

/-- The entries of a map of a type, under the texts of their keys. -/
def entries (it : Instance) (schema : Schema) (type : Ty) : Except Error (Keyed Data) :=
  (it.expect schema type).map fun
    | .map entries => entries
    | _ => []

/-- Adds an entry to a map of a type, unless it could not be made. -/
def insert (it : Instance) (schema : Schema) (type : Ty) (entry : Except Error (String × Data)) :
    Except Error Instance := do
  let entries ← it.entries schema type
  let (key, value) ← entry
  return { it with data := .map (entries.place key value) }

/-- The items of a sequence or an array of a type. -/
def items (it : Instance) (schema : Schema) (type : Ty) : Except Error (List Data) :=
  (it.expect schema type).map fun
    | .list items => items
    | _ => []

/-- Appends a blank item to a sequence of a type. -/
def push (it : Instance) (schema : Schema) (type element : Ty) : Except Error Instance :=
  (it.items schema type).map fun items =>
    { it with data := .list (items ++ [schema.blank element]) }

/-- Has a custom type write a value. -/
def marshal (it : Instance) (schema : Schema) (custom name : String) : Except Error (List UInt8) := do
  let data ← it.expect schema (.custom custom)
  (← schema.custom custom).marshal data name

/-- Has a custom type read an element. -/
def unmarshal (it : Instance) (schema : Schema) (custom : String) (xml : List UInt8) :
    Instance × Except Error Unit :=
  let found : Except Error (Custom × Data) := do
    let data ← it.expect schema (.custom custom)
    return (← schema.custom custom, data)
  match found with
  | .error e => (it, .error e)
  | .ok (custom, data) =>
    let (data, error?) := custom.unmarshal xml data
    ({ it with data }, error?.elim (.ok ()) .error)

end Instance

/-- The type of what a dynamic value holds. -/
def Data.describeDynamic (schema : Schema) : Data → String
  | .dynamic type _ => .join ["Dynamic(", schema.typeName type, ")"]
  | _ => "Dynamic(None)"

/-- A field with its name, its tag and its type. -/
def Field.describe (schema : Schema) (field : Field) : String :=
  .join ["Field \x7b name: ", Text.quoted field.name, ", tag: ", Text.quoted field.tag, ", ty: ",
    schema.typeName field.type, ", .. \x7d"]

end XmlBinding
