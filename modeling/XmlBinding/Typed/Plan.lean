import XmlBinding.Typed.Schema

/-! Plans of records: the fields that take part, with their tags read. A plan says under which key of an
element the content of a field is looked for, and in which order the parts of an element are written. -/
namespace XmlBinding

/-- A field that takes part, with what its tag says. -/
structure PlannedField where
  field : Field
  tag : FieldTag
deriving DecidableEq, Repr

/-- The fields of a record that take part, in the order of their declaration. -/
structure Plan where
  fields : List PlannedField
deriving DecidableEq, Repr

/-- A field that becomes child elements, with a link to how its type is written. -/
structure ChildField (ρ : Type) extends PlannedField where
  link : ρ
deriving DecidableEq, Repr

/-- The parts of an element that stands for a record, in the order in which they are written. -/
structure RecordForm (ρ : Type) where
  /-- By name; those of one name keep the order of their declaration. -/
  attributes : List PlannedField
  characters? : Option PlannedField
  cdata? : Option PlannedField
  children : List (ChildField ρ)
deriving DecidableEq, Repr

namespace Plan

def ofFields (fields : List Field) : Plan where
  fields := (fields.map fun field => ⟨field, .parse field.name field.tag⟩).filter (!·.tag.skip)

/-- The field that takes the content under a key: the first one with this key. -/
def find? (plan : Plan) (key : String) : Option PlannedField :=
  plan.fields.find? (·.tag.key == key)

def withRole (plan : Plan) (role : FieldRole) : List PlannedField :=
  plan.fields.filter (·.tag.role == role)

/-- How the record is written, its children linked to nothing but their types; of several fields for the text,
or for the CDATA, the last one counts. -/
def form (plan : Plan) : RecordForm Ty where
  attributes :=
    (Keyed.sort ((plan.withRole .attribute).map fun planned => (planned.tag.name, planned))).map Prod.snd
  characters? := (plan.withRole .characters).getLast?
  cdata? := (plan.withRole .cdata).getLast?
  children := (plan.withRole .element).map fun planned => ⟨planned, planned.field.type⟩

end Plan

/-- The plan of a record. -/
def Schema.plan (schema : Schema) (record : String) : Plan :=
  .ofFields (schema.fields record)

end XmlBinding
