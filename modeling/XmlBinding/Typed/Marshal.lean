import XmlBinding.Markup.Render
import XmlBinding.Text.Name
import XmlBinding.Typed.Registry

/-! Writing typed values. A record becomes an element with its attributes, its text, its CDATA and then one
element for every other field; a map one with an element for each key, in the order of the keys; a sequence
one element for each item; a missing value an element without content. -/
namespace XmlBinding

/-- The text of a value in an attribute, as text or as CDATA, if there is anything to be written. -/
def Schema.textOf (schema : Schema) : Ty → Data → Except Error (Option String)
  | .scalar _, .scalar value => .ok (some value.format)
  | .option target, .present data => schema.textOf target data
  | .option _, .absent => .ok none
  | .box target, .present data => schema.textOf target data
  | .dynamic, .dynamic type data => schema.textOf type data
  | .dynamic, .absent => .ok none
  | .native, .native value => .ok (some value.text)
  | type, _ => .error (.notText (schema.typeName type))

/-- The text of a field, unless it is left out or empty. -/
def Schema.fieldText (schema : Schema) (planned : PlannedField) (fields : Keyed Data) :
    Except Error (Option String) :=
  let data := (fields.get? planned.field.name).getD .absent
  if planned.tag.omitEmpty && planned.field.type.isEmpty data then .ok none
  else
    match schema.textOf planned.field.type data with
    | .ok text => .ok (text.filter (· ≠ ""))
    | .error e => .error (.inField planned.field.name e)

/-- The name of the root element: that of the record which a value is or leads to, if it is one. -/
def Schema.rootName (schema : Schema) (default : String) : Ty → Data → String
  | .record record, _ => schema.elementName record
  | .option target, .present data => schema.rootName default target data
  | .box target, .present data => schema.rootName default target data
  | .dynamic, .dynamic type data => schema.rootName default type data
  | _, _ => default

/-- What writing goes through: the output so far and what is known about types. -/
structure Marshalling (σ : Type) where
  registry : σ
  writer : Writer

/-- A part of writing. When it fails, what is known about types is kept. -/
abbrev Writing (σ : Type) := EStateM Error (Marshalling σ)

/-- Writes a value as an element of the given name, by the encoder that a link leads to. -/
abbrev ElementWriting (σ ρ : Type) := ρ → String → Writing σ Unit

/-- How the parts of a value are written as elements: what it holds, its entries or fields, its items. -/
structure PartWritings (σ ρ : Type) where
  content : ElementWriting σ ρ := fun _ _ => pure ()
  entries : Keyed (ElementWriting σ ρ) := []
  items : List (ElementWriting σ ρ) := []

namespace Writing
variable {σ ρ : Type}

/-- Fails if the result is an error. -/
def ofExcept : Except Error α → Writing σ α
  | .ok a => return a
  | .error e => throw e

/-- Writes without a chance of failing. -/
def put (f : Writer → Writer) : Writing σ Unit :=
  modify fun state => { state with writer := f state.writer }

/-- Writes an element without content. -/
def emptyElement (name : String) : Writing σ Unit :=
  put fun w => (w.start name).close name

/-- A link to the encoder of a type, which is there from now on. -/
def request [Directory σ ρ] (schema : Schema) (type : Ty) : Writing σ ρ :=
  modifyGet fun state =>
    let (link, registry) := Directory.link schema type state.registry
    (link, { state with registry })

/-- The encoder that a link leads to. -/
def encoder [Directory σ ρ] (schema : Schema) (link : ρ) : Writing σ (Encoder ρ) := do
  ofExcept (Directory.follow schema (← get).registry link)

/-- Writes the text of a field in some way, if there is any. -/
def fieldText (schema : Schema) (fields : Keyed Data) (planned : PlannedField)
    (write : String → Writer → Writer) : Writing σ Unit := do
  match ← ofExcept (schema.fieldText planned fields) with
  | some text => put (write text)
  | none => return

/-- Writes the field of a record as an element, unless it is left out. -/
def child (fields : Keyed Data) (writings : Keyed (ElementWriting σ ρ)) (child : ChildField ρ) :
    Writing σ Unit := do
  let data := (fields.get? child.field.name).getD .absent
  if child.tag.omitEmpty && child.field.type.isEmpty data then return
  match writings.get? child.field.name with
  | some write => (write child.link child.tag.name).adaptExcept (.inField child.field.name)
  | none => return

/-- Writes a record, given how each of its fields is written as an element. -/
def record (schema : Schema) (form : RecordForm ρ) (fields : Keyed Data)
    (writings : Keyed (ElementWriting σ ρ)) (name : String) : Writing σ Unit := do
  put (·.start name)
  form.attributes.forM fun planned =>
    fieldText schema fields planned fun text w => w.putAttribute planned.tag.name text
  form.characters?.forM fun planned => fieldText schema fields planned fun text w => w.text text
  form.cdata?.forM fun planned => fieldText schema fields planned fun text w => w.cdata text
  form.children.forM (child fields writings)
  put (·.close name)

/-- Writes the value under a key of a map. -/
def entry (value : ρ) (key : String) (write : ElementWriting σ ρ) : Writing σ Unit :=
  if Text.isName key then (write value key).adaptExcept (.inKey key)
  else throw (.invalidName key)

/-- Writes a map, given how each of its values is written as an element. -/
def map (value : ρ) (writings : Keyed (ElementWriting σ ρ)) (name : String) : Writing σ Unit := do
  put (·.start name)
  writings.sort.forM fun (key, write) => entry value key write
  put (·.close name)

/-- Writes the items of a sequence from the given index on. -/
def items (element : ρ) (name : String) : Nat → List (ElementWriting σ ρ) → Writing σ Unit
  | _, [] => return
  | index, write :: rest => do
    (write element name).adaptExcept (.atIndex index)
    items element name (index + 1) rest

end Writing

namespace Schema
variable {σ ρ : Type} [Directory σ ρ]

/-- Writes a value as an encoder says, given how its parts are written. -/
def writeBy (schema : Schema) (encoder : Encoder ρ) (data : Data) (parts : PartWritings σ ρ)
    (name : String) : Writing σ Unit := do
  match encoder.routine, data with
  | .scalar, .scalar value => Writing.put (·.textElement name value.format)
  | .pointer target, .present _ => parts.content target name
  | .pointer _, .absent => Writing.emptyElement name
  | .dynamic, .dynamic content _ =>
    let content ← Writing.request schema content
    parts.content content name
  | .dynamic, .absent => Writing.emptyElement name
  | .native, .native value => Writing.put (·.value name value)
  | .record form, .record fields => Writing.record schema form fields parts.entries name
  | .map value, .map _ => Writing.map value parts.entries name
  | .keyedMap key, _ => throw (.nonStringKey (schema.typeName key))
  | .items element, .list _ => Writing.items element name 0 parts.items
  | .custom custom, data =>
    let custom ← Writing.ofExcept (schema.custom custom)
    let xml ← Writing.ofExcept (custom.marshal data name)
    Writing.put (·.raw xml)
  | .unsupported, _ => throw (.unsupportedType (schema.typeName encoder.type))
  | _, _ => throw (.mismatch .otherType (schema.typeName encoder.type))

/-- Writes a value by the encoder that a link leads to, given how its parts are written. -/
def writeWith (schema : Schema) (data : Data) (parts : PartWritings σ ρ) : ElementWriting σ ρ :=
  fun link name => do schema.writeBy (← Writing.encoder schema link) data parts name

mutual

/-- Writes a value as an element of the given name, by the encoder that a link leads to. -/
def write (schema : Schema) : Data → ElementWriting σ ρ
  | .scalar value => schema.writeWith (.scalar value) {}
  | .absent => schema.writeWith .absent {}
  | .present data => schema.writeWith (.present data) { content := write schema data }
  | .dynamic type data => schema.writeWith (.dynamic type data) { content := write schema data }
  | .native value => schema.writeWith (.native value) {}
  | .record fields => schema.writeWith (.record fields) { entries := writeEntries schema fields }
  | .map entries => schema.writeWith (.map entries) { entries := writeEntries schema entries }
  | .list items => schema.writeWith (.list items) { items := writeItems schema items }
  | .sealed => schema.writeWith .sealed {}

/-- How each entry is written as an element. -/
def writeEntries (schema : Schema) : List (String × Data) → Keyed (ElementWriting σ ρ)
  | [] => []
  | (key, data) :: rest => (key, write schema data) :: writeEntries schema rest

/-- How each item is written as an element. -/
def writeItems (schema : Schema) : List Data → List (ElementWriting σ ρ)
  | [] => []
  | data :: rest => write schema data :: writeItems schema rest

end

/-- Writes a value of a type as an element of the given name. -/
def writeRoot (schema : Schema) (type : Ty) (data : Data) (name : String) : Writing σ Unit := do
  let link ← Writing.request schema type
  schema.write data link name

/-- Writes a value of a type as a document. What is learnt about types on the way is kept even if it fails. -/
def marshalWith (schema : Schema) (type : Ty) (data : Data) (settings : Settings)
    (buffer : Array UInt8) (registry : σ) : EStateM.Result Error (Marshalling σ) Unit :=
  let name := schema.rootName settings.rootTag type data
  (schema.writeRoot type data name).run
    { registry, writer := { out := buffer, layout? := settings.layout? } }

def marshal (schema : Schema) (type : Ty) (data : Data) (settings : Settings) (registry : σ) :
    Except Error (List UInt8) × σ :=
  match schema.marshalWith type data settings #[] registry with
  | .ok _ state => (.ok state.writer.finish, state.registry)
  | .error e state => (.error e, state.registry)

end Schema

/-- Writes a value of a type as a document, with what a registry knows. -/
def Registry.marshal (schema : Schema) (type : Ty) (data : Data) (settings : Settings)
    (registry : Registry) : Except Error (List UInt8) × Registry :=
  schema.marshal type data settings registry

/-- Writes a value of a type into a buffer from storage that is given back, also if writing fails. -/
def Storage.marshal (storage : Storage) (schema : Schema) (type : Ty) (data : Data)
    (settings : Settings) (registry : Registry) :
    Except Error (List UInt8) × Registry × Storage :=
  let (buffer, storage) := storage.takeBuffer
  match schema.marshalWith type data settings buffer registry with
  | .ok _ state =>
    (.ok state.writer.finish, state.registry, storage.giveBuffer state.writer.endTag.out)
  | .error e state => (.error e, state.registry, storage.giveBuffer state.writer.out)

end XmlBinding
