import Mathlib.Data.List.Nodup
import XmlBinding.Proofs.Requests
import XmlBinding.Proofs.Scalars

/-! Values that a document can hold without a loss: what they are built of is written in a way that can be told from
what is left out. Writing them does not fail and puts down the elements that they are. -/
namespace XmlBinding
open Text

/-- Whether a value of a type is one element whatever it holds. Those of sequences and arrays, also in boxes and
options, are as many as there are items. -/
def Ty.isSingle : Ty → Bool
  | option target => target.isSingle
  | box target => target.isSingle
  | sequence _ => false
  | array _ _ => false
  | _ => true

/-- What a record holds of a field that it has a slot for. -/
theorem PlannedField.get?_of {planned : PlannedField} {slots : Keyed Data} (listed : planned.field.name ∈ slots.keys) :
    slots.get? planned.field.name = some (planned.of slots) := by
  obtain ⟨data, found⟩ := Option.isSome_iff_exists.1 (Keyed.get?_isSome_iff.2 listed)
  rw [PlannedField.of, found]
  rfl

namespace Schema

/-- A record whose fields stand under keys of their own, which are names, if they take part. -/
structure Addressable (schema : Schema) (record : String) : Prop where
  keys : ((schema.plan record).fields.map (·.tag.key)).Nodup
  named : ∀ planned ∈ (schema.plan record).fields, isName planned.tag.name = true

/-- A scalar, perhaps in boxes and options, that can be written as a text; what an option holds has a text. -/
inductive Literal (schema : Schema) : Ty → Data → Prop where
  | scalar (holds : ScalarType.Holds type value) : Literal schema (.scalar type) (.scalar value)
  | absent : Literal schema (.option target) .absent
  | present (inside : Literal schema target data) (written : schema.textOf target data = .ok (some text))
      (visible : text ≠ "") : Literal schema (.option target) (.present data)
  | box (inside : Literal schema target data) : Literal schema (.box target) (.present data)

/-- A value of a type that can be written as elements and read again: its scalars have exact texts, no list stands
where only one element can, what an option holds is not an element without content, the keys of maps are names, and
of a record all fields that take part have a slot and can be told apart. -/
inductive Portable (schema : Schema) : Ty → Data → Prop where
  | scalar (holds : ScalarType.Holds type value) : Portable schema (.scalar type) (.scalar value)
  | absent : Portable schema (.option target) .absent
  | present {target : Ty} {data : Data} (single : target.isSingle = true) (inside : Portable schema target data)
      (visible : ∀ name, schema.sketch data target name .nil ≠ Sketch.emptyElement name .nil) :
      Portable schema (.option target) (.present data)
  | box (inside : Portable schema target data) : Portable schema (.box target) (.present data)
  | record {record : String} {slots : Keyed Data} (addressable : schema.Addressable record)
      (distinct : slots.Distinct)
      (listed : ∀ planned ∈ (schema.plan record).fields, planned.field.name ∈ slots.keys)
      (literals : ∀ planned ∈ (schema.plan record).fields, planned.tag.role ≠ .element →
        schema.Literal planned.field.type (planned.of slots))
      (children : ∀ planned ∈ (schema.plan record).fields, planned.tag.role = .element →
        Portable schema planned.field.type (planned.of slots)) :
      Portable schema (.record record) (.record slots)
  | map {value : Ty} {entries : Keyed Data} {family : String} (single : value.isSingle = true)
      (ascending : entries.Ascending)
      (names : ∀ entry ∈ entries, isName entry.1 = true) (each : ∀ entry ∈ entries, Portable schema value entry.2) :
      Portable schema (.map family .string value) (.map entries)
  | sequence {element : Ty} {items : List Data} (single : element.isSingle = true)
      (each : ∀ item ∈ items, Portable schema element item) : Portable schema (.sequence element) (.list items)
  | array {element : Ty} {length : Nat} {items : List Data} (single : element.isSingle = true)
      (size : items.length = length) (each : ∀ item ∈ items, Portable schema element item) :
      Portable schema (.array element length) (.list items)

variable {schema : Schema}

/-- Fields of one key are the same. -/
theorem Addressable.eq_of_key (addressable : schema.Addressable name) {planned other : PlannedField}
    (member : planned ∈ (schema.plan name).fields) (member' : other ∈ (schema.plan name).fields)
    (same : planned.tag.key = other.tag.key) : planned = other :=
  List.inj_on_of_nodup_map addressable.keys member member' same

/-- A field takes what stands under its key. -/
theorem Addressable.find? (addressable : schema.Addressable record) {planned : PlannedField}
    (member : planned ∈ (schema.plan record).fields) : (schema.plan record).find? planned.tag.key = some planned := by
  cases found : (schema.plan record).find? planned.tag.key with
  | none => exact absurd (List.find?_eq_none.1 found planned member) (by simp)
  | some other =>
    have key : other.tag.key = planned.tag.key := by simpa using List.find?_some found
    rw [addressable.eq_of_key (List.mem_of_find?_eq_some found) member key]

/-- The text of a literal can be told. -/
theorem Literal.textOf (literal : schema.Literal type data) : ∃ text?, schema.textOf type data = .ok text? := by
  induction literal with
  | scalar holds => exact ⟨_, rfl⟩
  | absent => exact ⟨_, rfl⟩
  | present inside written visible ih => exact ih
  | box inside ih => exact ih

end Schema

namespace Writing
variable {schema : Schema}

theorem succeed_forM {x : α → Writing Demand Unit} {list : List α} (each : ∀ a ∈ list, Succeeds (x a)) :
    Succeeds (list.forM x) := by
  induction list with
  | nil => exact succeeds_pure
  | cons a rest ih =>
    obtain ⟨here, later⟩ := List.forall_mem_cons.1 each
    exact here.seq (ih later)

/-- A record can be written, if its texts can be told and its children can be written. -/
theorem succeeds_record {form : RecordForm Ty} {fields : Keyed Data} {writings : Keyed (ElementWriting Demand Ty)}
    (name : String) (texts : ∀ planned ∈ form.texts, ∃ text?, schema.fieldText planned fields = .ok text?)
    (children : ∀ planned ∈ form.children, Succeeds (child fields writings planned)) :
    Succeeds (record schema form fields writings name) := by
  rw [RecordForm.texts, List.forall_mem_append, List.forall_mem_append] at texts
  obtain ⟨⟨attributes, characters⟩, cdata⟩ := texts
  have inside := (succeed_forM children).seq (succeeds_put (·.close name))
  have sections := (succeeds_texts.2 cdata : Succeeds (form.cdata?.forM fun planned =>
    fieldText schema fields planned fun text w => w.cdata text)).seq inside
  have texts := (succeeds_texts.2 characters : Succeeds (form.characters?.forM fun planned =>
    fieldText schema fields planned fun text w => w.text text)).seq sections
  have tag := (succeed_forM fun planned held => (succeeds_fieldText.2 (attributes planned held) :
    Succeeds (fieldText schema fields planned fun text w => w.putAttribute planned.tag.name text))).seq texts
  exact (succeeds_put (·.start name)).seq tag

theorem succeed_items {writings : List (ElementWriting Demand Ty)} {element : Ty}
    (each : ∀ write ∈ writings, Succeeds (write element name)) (index : Nat) :
    Succeeds (items element name index writings) := by
  induction writings generalizing index with
  | nil => exact succeeds_pure
  | cons write rest ih =>
    obtain ⟨here, later⟩ := List.forall_mem_cons.1 each
    exact (here.adapt _).seq (ih later (index + 1))

theorem succeeds_map {writings : Keyed (ElementWriting Demand Ty)} {value : Ty}
    (names : ∀ entry ∈ writings, isName entry.1 = true) (each : ∀ entry ∈ writings, Succeeds (entry.2 value entry.1))
    (name : String) : Succeeds (map value writings name) := by
  have inside : Succeeds (writings.sort.forM fun writing => entry value writing.1 writing.2) := by
    refine succeed_forM fun writing member => ?_
    have member := (Keyed.sort_perm writings).mem_iff.1 member
    rw [entry, if_pos (names writing member)]
    exact (each writing member).adapt _
  exact (succeeds_put (·.start name)).seq (inside.seq (succeeds_put (·.close name)))

end Writing

namespace Schema
variable {schema : Schema}

/-- The text of a field can be told, or it is left out. -/
theorem Literal.fieldText {planned : PlannedField} {slots : Keyed Data}
    (literal : schema.Literal planned.field.type (planned.of slots)) :
    ∃ text?, schema.fieldText planned slots = .ok text? := by
  obtain ⟨text?, text⟩ := literal.textOf
  rw [Schema.fieldText, ← PlannedField.of, text]
  split <;> exact ⟨_, rfl⟩

/-- Writing a portable value does not fail. -/
theorem Portable.succeeds (portable : schema.Portable type data) (name : String) :
    Writing.Succeeds (schema.write data type name) := by
  induction portable generalizing name with
  | @scalar type value holds => exact Writing.succeeds_put (·.textElement name value.format)
  | absent => exact Writing.succeeds_put fun w => (w.start name).close name
  | present single inside visible ih => exact ih name
  | box inside ih => exact ih name
  | @sequence element items single each ih | @array element length items single size each ih =>
    show Writing.Succeeds (Writing.items element name 0 (schema.writeItems items))
    rw [writeItems_eq_map]
    refine Writing.succeed_items (fun write member => ?_) 0
    obtain ⟨item, held, rfl⟩ := List.mem_map.1 member
    exact ih item held name
  | @map value entries family single ascending names each ih =>
    rw [write_map, writeEntries_eq_map]
    refine Writing.succeeds_map (fun writing member => ?_) (fun writing member => ?_) name <;>
    obtain ⟨entry, held, rfl⟩ := List.mem_map.1 member
    · exact names entry held
    · exact ih entry held entry.1
  | @record record slots addressable distinct listed literals children ih =>
    have literal {planned : PlannedField} (member : planned ∈ (schema.plan record).fields)
        (role : planned.tag.role ≠ .element) := (literals planned member role).fieldText
    refine Writing.succeeds_record name (fun planned member => ?_) ?_
    · obtain ⟨member, role⟩ := Plan.mem_texts member
      exact literal member role
    · intro child member
      obtain ⟨planned, held, role, rfl⟩ := Plan.mem_children.1 member
      dsimp only
      rw [writeEntries_eq_map, Writing.child, Keyed.get?_map, PlannedField.get?_of (listed planned held)]
      dsimp only [Option.getD_some, Option.map_some]
      split
      · exact Writing.succeeds_pure
      · exact (ih planned held role _).adapt _

/-- All pieces of a portable value are portable. -/
theorem Portable.piece (portable : schema.Portable type data) (piece : schema.Piece ⟨type, data⟩ part) :
    schema.Portable part.type part.data := by
  cases portable with
  | scalar | absent => cases piece
  | present single inside visible => cases piece with | option => exact inside
  | box inside => cases piece with | box => exact inside
  | record addressable distinct listed literals children =>
    cases piece with | field member role held =>
    rw [PlannedField.get?_of (listed _ member)] at held
    exact Option.some.inj held ▸ children _ member role
  | map single ascending names each => cases piece with | entry held => exact each _ held
  | sequence single each => cases piece with | item held => exact each _ held
  | array single size each => cases piece with | slot held => exact each _ held

theorem Portable.throughout (portable : schema.Portable type data) {P : Instance → Prop}
    (each : ∀ type data, schema.Portable type data → P ⟨type, data⟩) : schema.Throughout P type data := by
  intro part within
  refine each part.type part.data ?_
  induction within with
  | refl => exact portable
  | tail _ piece ih => exact ih.piece piece

/-- Nothing in a portable value is written in a way of its own. -/
theorem Portable.plain (portable : schema.Portable type data) : schema.Throughout Instance.Plain type data :=
  portable.throughout fun _ _ portable => by cases portable <;> exact ⟨nofun, nofun⟩

/-- A portable value is marshaled without an error, as the document that its elements are. -/
theorem Portable.marshal (portable : schema.Portable type data) (settings : Settings) :
    (schema.marshal type data settings ({} : Demand)).1 =
      .ok ((schema.sketch data type (schema.rootName settings.rootTag type data) .nil).write
        { layout? := settings.layout? }).finish := by
  obtain ⟨tag, layout?⟩ := settings
  rcases marshal_lays portable.plain tag with ⟨after, ran⟩ | ⟨e, after, ran⟩
  · rw [ran]
  · obtain ⟨state, done⟩ := portable.succeeds (schema.rootName tag type data) ⟨{ requested := [type] }, { layout? }⟩
    have written : schema.marshalWith type data ⟨tag, layout?⟩ #[] ({} : Demand) = .ok () state := done
    have failed := ran layout?
    rw [Schema.marshal, written] at failed
    cases failed

/-- The elements of a portable value and their attributes have names. -/
theorem Portable.named (portable : schema.Portable type data) {name : String} (root : IsName name.toList)
    {more : Forest} (behind : more.Named) : (schema.sketch data type name more).Named := by
  have fields : schema.Throughout schema.FieldsNamed type data := by
    refine portable.throughout fun type data portable name same planned member _ => ?_
    cases portable with
    | record addressable => cases same; exact addressable.named planned member
    | _ => cases same
  obtain ⟨after, done⟩ := portable.succeeds name ⟨{}, {}⟩
  exact write_names data portable.plain fields root _ after done behind

end Schema

end XmlBinding
