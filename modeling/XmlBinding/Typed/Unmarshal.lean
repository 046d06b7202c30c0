import XmlBinding.Markup.Render
import XmlBinding.Native.Reader
import XmlBinding.Typed.Registry

/-! Assigning native values to typed values. What a document says nothing about keeps its value, and what has
been assigned before something fails stays assigned. A missing target is made, blank, before anything is
assigned to it; the items of a sequence are replaced, those of an array and the fields of a record are
assigned in place, and the entries of a map are added. -/
namespace XmlBinding

/-- What is left after an assignment: the target, what is known about types, and what went wrong. -/
structure Assigned (σ : Type) where
  target : Data
  registry : σ
  error? : Option Error := none

/-- Assigns to a target of a type what stands in an element of the given name. -/
abbrev Assignment (σ : Type) := Ty → String → σ → Data → Assigned σ

namespace Assigned
variable {σ : Type}

/-- Nothing more is assigned, for this reason. -/
def failed (target : Data) (registry : σ) (e : Error) : Assigned σ :=
  { target, registry, error? := some e }

/-- The assignment of a part, as an assignment of the whole: what becomes of the target, and where the part
stands if it fails. -/
def part (done : Assigned σ) (whole : Data → Data) (wrap : Error → Error) : Assigned σ where
  target := whole done.target
  registry := done.registry
  error? := done.error?.map wrap

/-- Goes on after an assignment that has not failed. -/
def andThen (done : Assigned σ) (next : σ → Data → Assigned σ) : Assigned σ :=
  match done.error? with
  | some _ => done
  | none => next done.registry done.target

end Assigned

/-- What belongs to the items of a list, or what belongs to any other value as a list of one. -/
def Value.listed (value : Value) (items : List α) (single : α) : List α :=
  match value with
  | .list _ => items
  | _ => [single]

namespace Assignment
variable {σ : Type}

/-- Assigns each entry to the field that takes it; entries that no field takes are passed over. -/
def fields (schema : Schema) (plan : Plan) : Keyed (Assignment σ) → σ → Data → Assigned σ
  | [], registry, target => { target, registry }
  | (key, assign) :: rest, registry, target =>
    match plan.find? key, target with
    | some planned, .record slots =>
      let slots : Keyed Data := slots
      let name := planned.field.name
      let slot := (slots.get? name).getD (schema.blank planned.field.type)
      let done := assign planned.field.type planned.tag.name registry slot
      (done.part (fun data => .record (slots.put name data)) (.inField name)).andThen
        (fields schema plan rest)
    | _, _ => fields schema plan rest registry target

/-- Adds each entry to a map, under the key that its name is read as; an entry that fails is not added. -/
def entries (schema : Schema) (keyType : ScalarType) (type : Ty) :
    Keyed (Assignment σ) → σ → Data → Assigned σ
  | [], registry, target => { target, registry }
  | (name, assign) :: rest, registry, target =>
    match keyType.read? name with
    | none =>
      .failed target registry
        (.inKey name (.invalidScalar name (schema.typeName (.scalar keyType))))
    | some key =>
      let old : Keyed Data := match target with | .map old => old | _ => []
      let done := assign type name registry (schema.blank type)
      let whole (data : Data) : Data :=
        if done.error?.isSome then target else .map (old.place key.format data)
      (done.part whole (.inKey name)).andThen (entries schema keyType type rest)

/-- Appends an item for each assignment to those that are there. -/
def items (schema : Schema) (type : Ty) (name : String) :
    List (Assignment σ) → List Data → σ → Assigned σ
  | [], done, registry => { target := .list done, registry }
  | assign :: rest, before, registry =>
    let done := assign type name registry (schema.blank type)
    match done.error? with
    | some e => .failed (.list (before ++ [done.target])) done.registry (.atIndex before.length e)
    | none => items schema type name rest (before ++ [done.target]) done.registry

/-- Assigns to the items of an array one after another, as far as both reach. -/
def inPlace (type : Ty) (name : String) :
    List (Assignment σ) → List Data → List Data → σ → Assigned σ
  | assign :: rest, before, old :: after, registry =>
    let done := assign type name registry old
    match done.error? with
    | some e =>
      .failed (.list (before ++ done.target :: after)) done.registry (.atIndex before.length e)
    | none => inPlace type name rest (before ++ [done.target]) after done.registry
  | _, before, after, registry => { target := .list (before ++ after), registry }

end Assignment

namespace Schema
variable {σ ρ : Type}

/-- What a box or an option holds, or else a blank value for it. -/
def held (schema : Schema) (type : Ty) : Data → Data
  | .present data => data
  | _ => schema.blank type

/-- The items of an array, or else blank ones. -/
def slots (schema : Schema) (type : Ty) (length : Nat) : Data → List Data
  | .list items => items
  | _ => List.replicate length (schema.blank type)

/-- A value cannot be assigned to a target of a type, for it is of the wrong form. -/
def misfit (schema : Schema) (value : Value) (type : Ty) (registry : σ) (target : Data) :
    Assigned σ :=
  .failed target registry (.mismatch (.native value.kind) (schema.typeName type))

/-- Reads the text of a value as a scalar. -/
def assignScalar (schema : Schema) (value : Value) (type : ScalarType) (registry : σ)
    (target : Data) : Assigned σ :=
  match type.read? value.text with
  | some scalar => { target := .scalar scalar, registry }
  | none =>
    .failed target registry (.invalidScalar value.text (schema.typeName (.scalar type)))

/-- Has a custom type read a value, written as an element of the given name. -/
def assignCustom (schema : Schema) (value : Value) (custom element : String) (registry : σ)
    (target : Data) : Assigned σ :=
  match schema.custom custom with
  | .ok custom =>
    let (target, error?) := custom.unmarshal (value.render { rootTag := element }) target
    { target, registry, error? }
  | .error e => .failed target registry e

/-- Assigns a value, given the assignments of its entries and of its items. Where a list is wanted, any other
value is a list of one. -/
def assignWith [Directory σ ρ] (schema : Schema) (value : Value) (entries : Keyed (Assignment σ))
    (items : List (Assignment σ)) : Assignment σ
  | .custom custom, name, registry, target => schema.assignCustom value custom name registry target
  | .dynamic, _, registry, _ => { target := .dynamic .native (.native value), registry }
  | .native, _, registry, _ => { target := .native value, registry }
  | .option type, name, registry, target =>
    match value with
    | .map [] => { target := .absent, registry }
    | _ =>
      (schema.assignWith value entries items type name registry (schema.held type target)).part
        .present id
  | .box type, name, registry, target =>
    (schema.assignWith value entries items type name registry (schema.held type target)).part
      .present id
  | .scalar type, _, registry, target =>
    match value with
    | .list _ => schema.misfit value (.scalar type) registry target
    | _ => schema.assignScalar value type registry target
  | .record record, _, registry, target =>
    match value with
    | .map _ =>
      let (plan, registry) := Directory.plan schema record registry
      Assignment.fields schema plan entries registry target
    | _ => schema.misfit value (.record record) registry target
  | .map family key type, _, registry, target =>
    match value, key with
    | .map _, .scalar key => Assignment.entries schema key type entries registry target
    | .map _, key => .failed target registry (.nonStringKey (schema.typeName key))
    | _, _ => schema.misfit value (.map family key type) registry target
  | .sequence type, name, registry, _ =>
    let single : Assignment σ := fun _ => schema.assignWith value entries items type
    Assignment.items schema type name (value.listed items single) [] registry
  | .array type length, name, registry, target =>
    let single : Assignment σ := fun _ => schema.assignWith value entries items type
    Assignment.inPlace type name ((value.listed items single).take length) []
      (schema.slots type length target) registry
  | .unsupported name, _, registry, target =>
    schema.misfit value (.unsupported name) registry target

mutual

/-- Assigns a native value to a target of a type. -/
def assign [Directory σ ρ] (schema : Schema) (value : Value) : Assignment σ :=
  match value with
  | .string text => schema.assignWith (.string text) [] []
  | .map entries => schema.assignWith (.map entries) (assignEntries schema entries) []
  | .list items => schema.assignWith (.list items) [] (assignItems schema items)

/-- How each entry is assigned. -/
def assignEntries [Directory σ ρ] (schema : Schema) : List (String × Value) → Keyed (Assignment σ)
  | [] => []
  | (key, value) :: rest => (key, assign schema value) :: assignEntries schema rest

/-- How each item is assigned. -/
def assignItems [Directory σ ρ] (schema : Schema) : List Value → List (Assignment σ)
  | [] => []
  | value :: rest => assign schema value :: assignItems schema rest

end

/-- Reads a document into a target of a type. A custom type at the root is given the document as it is. -/
def unmarshal [Directory σ ρ] (schema : Schema) (type : Ty) (xml : List UInt8) (target : Data)
    (registry : σ) : Assigned σ :=
  match type with
  | .custom name =>
    match schema.custom name with
    | .ok custom =>
      let (target, error?) := custom.unmarshal xml target
      { target, registry, error? }
    | .error e => .failed target registry e
  | type =>
    match Value.ofStream (.ofBytes xml) with
    | .ok value => schema.assign value type ({} : Settings).rootTag registry target
    | .error e => .failed target registry e

end Schema

/-- Reads a document into a target of a type, with what a registry knows. -/
def Registry.unmarshal (schema : Schema) (type : Ty) (xml : List UInt8) (target : Data)
    (registry : Registry) : Assigned Registry :=
  schema.unmarshal type xml target registry

end XmlBinding
