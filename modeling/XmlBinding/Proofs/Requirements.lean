import Mathlib.Data.List.Nodup
import Mathlib.Logic.Relation
import XmlBinding.Proofs.Keyed
import XmlBinding.Typed.Registry

/-! What types lead to: the types whose values are written inside theirs. From one type only so many others can be
reached, for each of them is a part of it or of a field in the schema. Writing and reading can go without a registry,
too: every type is then written as the schema says, and what is asked for is noted. -/
namespace XmlBinding

theorem Ty.mem_parts_self (type : Ty) : type ∈ type.parts := by
  cases type <;> exact List.mem_cons_self

/-- What the tag of a field says. -/
def Field.parsed (field : Field) : FieldTag := .parse field.name field.tag

/-- The fields of a plan are those of the record that take part, with their tags read. -/
theorem Schema.mem_plan {schema : Schema} {planned : PlannedField} : planned ∈ (schema.plan name).fields ↔
    planned.field ∈ schema.fields name ∧ planned.tag = .parse planned.field.name planned.field.tag ∧
      planned.tag.skip = false := by
  obtain ⟨field, tag⟩ := planned
  simp only [plan, Plan.ofFields, List.mem_filter, List.mem_map, PlannedField.mk.injEq, Bool.not_eq_true']
  constructor
  · rintro ⟨⟨_, held, rfl, rfl⟩, taken⟩
    exact ⟨held, rfl, taken⟩
  · rintro ⟨held, rfl, taken⟩
    exact ⟨⟨field, held, rfl, rfl⟩, taken⟩

namespace Schema
variable {schema : Schema}

/-- A field takes part in a plan in one way. -/
theorem planned_eq {planned other : PlannedField} (member : planned ∈ (schema.plan name).fields)
    (member' : other ∈ (schema.plan name).fields) (same : planned.field = other.field) : planned = other := by
  obtain ⟨-, tag, -⟩ := mem_plan.1 member
  obtain ⟨-, tag', -⟩ := mem_plan.1 member'
  obtain ⟨field, _⟩ := planned
  obtain ⟨field', _⟩ := other
  dsimp only at same tag tag'
  rw [same, tag, tag', same]

/-- A value of a type is written with values of another inside: what a pointer leads to, the items of a sequence or an
array, the values of a map whose keys are text, and the fields of a record that become elements. -/
inductive Step (schema : Schema) : Ty → Ty → Prop
  | option : Step schema (.option target) target
  | box : Step schema (.box target) target
  | sequence : Step schema (.sequence element) element
  | array : Step schema (.array element length) element
  | map : Step schema (.map family .string value) value
  | record {field : Field} (member : field ∈ schema.fields name)
      (taken : (FieldTag.parse field.name field.tag).skip = false)
      (role : (FieldTag.parse field.name field.tag).role = .element) : Step schema (.record name) field.type

/-- A type leads to itself and to all that is reached from it step by step. -/
abbrev Leads (schema : Schema) : Ty → Ty → Prop := Relation.ReflTransGen schema.Step

theorem mem_needs_record {needed : Ty} : needed ∈ schema.needs (.record name) ↔
    ∃ planned ∈ (schema.plan name).fields, planned.tag.role = .element ∧ planned.field.type = needed := by
  rw [needs, routine, Routine.links, Plan.form, List.map_map, List.mem_map]
  simp only [Plan.withRole, List.mem_filter, beq_iff_eq, and_assoc, Function.comp]

/-- The links of a routine are the types inside. -/
theorem step_iff : schema.Step type other ↔ other ∈ schema.needs type := by
  constructor
  · intro step
    cases step with
    | option | box | sequence | array => exact List.mem_singleton_self _
    | map =>
      rw [needs, routine, if_pos rfl]
      exact List.mem_singleton_self _
    | @record name field member taken role =>
      exact mem_needs_record.2 ⟨⟨field, .parse field.name field.tag⟩, mem_plan.2 ⟨member, rfl, taken⟩, role, rfl⟩
  · intro need
    cases type with
    | option target | box target | sequence element | array element length =>
      rw [List.mem_singleton.1 need]
      constructor
    | map family key value =>
      rw [needs, routine] at need
      split at need
      · rename_i text
        rw [List.mem_singleton.1 need, text]
        exact .map
      · cases need
    | record name =>
      obtain ⟨planned, member, role, rfl⟩ := mem_needs_record.1 need
      obtain ⟨held, tag, taken⟩ := mem_plan.1 member
      rw [tag] at role taken
      exact .record held taken role
    | scalar | dynamic | native | custom | unsupported => cases need

/-- What is inside a part of a type is a part of it, unless the part is a record. -/
theorem step_parts {type part other : Ty} (member : part ∈ type.parts) (noRecord : ∀ name, part ≠ .record name)
    (step : schema.Step part other) : other ∈ type.parts := by
  induction type with
  | option target ih | box target ih | sequence target ih | array target length ih =>
    rcases List.mem_cons.1 member with rfl | member
    · cases step
      exact List.mem_cons_of_mem _ (Ty.mem_parts_self _)
    · exact List.mem_cons_of_mem _ (ih member)
  | map family key value _ ih =>
    rcases List.mem_cons.1 member with rfl | member
    · cases step
      exact List.mem_cons_of_mem _ (Ty.mem_parts_self _)
    · exact List.mem_cons_of_mem _ (ih member)
  | record name => exact absurd (List.mem_singleton.1 member) (noRecord name)
  | scalar | dynamic | native | custom | unsupported =>
    rw [List.mem_singleton.1 member] at step
    cases step

/-- A field of a record is listed in the schema. -/
theorem listed_of_mem {record : String} (member : field ∈ schema.fields record) :
    ∃ type, (record, type) ∈ schema.records ∧ field ∈ type.fields := by
  rw [fields] at member
  cases found : schema.records.get? record with
  | none => simp [found] at member
  | some type => exact ⟨type, Keyed.mem_of_get? found, by simpa [found] using member⟩

/-- What is inside a record are types of fields in the schema. -/
theorem step_record (step : schema.Step (.record name) other) :
    ∃ entry ∈ schema.records, ∃ field ∈ entry.2.fields, other = field.type := by
  cases step with
  | @record _ field member taken role =>
    obtain ⟨type, known, listed⟩ := listed_of_mem member
    exact ⟨(name, type), known, field, listed, rfl⟩

theorem mem_typesFrom_self (schema : Schema) (type : Ty) : type ∈ schema.typesFrom type :=
  List.mem_append_left _ type.mem_parts_self

/-- The types that a type can lead to are closed under steps. -/
theorem typesFrom_closed {type part other : Ty} (member : part ∈ schema.typesFrom type)
    (step : schema.Step part other) : other ∈ schema.typesFrom type := by
  have inField {entry : String × RecordType} (known : entry ∈ schema.records) {field : Field}
      (held : field ∈ entry.2.fields)
      (inside : other ∈ field.type.parts) : other ∈ schema.typesFrom type :=
    List.mem_append_right _ (List.mem_flatMap.2 ⟨entry, known, List.mem_flatMap.2 ⟨field, held, inside⟩⟩)
  by_cases isRecord : ∃ name, part = .record name
  · obtain ⟨name, rfl⟩ := isRecord
    obtain ⟨entry, known, field, held, rfl⟩ := step_record step
    exact inField known held field.type.mem_parts_self
  · have noRecord : ∀ name, part ≠ .record name := fun name same => isRecord ⟨name, same⟩
    rcases List.mem_append.1 member with inType | elsewhere
    · exact List.mem_append_left _ (step_parts inType noRecord step)
    · obtain ⟨entry, known, member⟩ := List.mem_flatMap.1 elsewhere
      obtain ⟨field, held, member⟩ := List.mem_flatMap.1 member
      exact inField known held (step_parts member noRecord step)

end Schema

/-- What has been asked for: types whose encoders are wanted, and records whose fields are assigned to. -/
structure Demand where
  requested : List Ty := []
  decoded : List String := []
deriving DecidableEq, Repr

/-- Links are types, and each leads to the routine that the schema says. -/
instance : Directory Demand Ty where
  link _ type demand := (type, { demand with requested := demand.requested ++ [type] })
  follow schema _ type := .ok ⟨type, schema.routine type⟩
  plan schema record demand := (schema.plan record, { demand with decoded := demand.decoded ++ [record] })

end XmlBinding
