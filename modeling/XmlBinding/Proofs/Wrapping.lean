import XmlBinding.Proofs.Naming
import XmlBinding.Proofs.Parallel

/-! Options, boxes and dynamic values are not seen in what is written. A value that is put into them is written as it is
alone, and so is every value that has values inside it put into them. Only where a sequence, an array, a map or a record
stands where text is wanted, the error names the type that it meets, and this is the type with the wrapped values. -/
namespace XmlBinding

/-- A value in options, boxes and dynamic values, as many as there are. -/
inductive Wraps : Ty → Data → Ty → Data → Prop where
  | refl : Wraps type data type data
  | option (inside : Wraps type data type' data') : Wraps type data (.option type') (.present data')
  | box (inside : Wraps type data type' data') : Wraps type data (.box type') (.present data')
  | dynamic (inside : Wraps type data type' data') : Wraps type data .dynamic (.dynamic type' data')

/-- Where a value stands in another one. -/
inductive Spot where
  /-- At the root, or in what the root leads to, so that a record here gives the document its name. -/
  | root
  | inside
  /-- In a field that is left out if it is empty. -/
  | optional

/-- Where a value stands that is held by one at some spot. -/
def Spot.held : Spot → Spot
  | root => root
  | _ => inside

/-- Where the content of a field stands. -/
def Field.spot (field : Field) : Spot := if field.parsed.omitEmpty then .optional else .inside

namespace Schema

/-- A value and the same with values inside it wrapped, and thus with other types: a record that has wrapped values in
its fields is of a type with other fields. What is left out if it is empty is not wrapped itself. -/
inductive Wrapped (schema : Schema) (records : Keyed RecordType) : Spot → Ty → Data → Ty → Data → Prop where
  | wrap (free : spot ≠ .optional) (inside : Wrapped schema records spot type a type' b)
      (wraps : Wraps type' b type'' c) : Wrapped schema records spot type a type'' c
  | scalar : Wrapped schema records spot (.scalar type) (.scalar value) (.scalar type) (.scalar value)
  | absent : Wrapped schema records spot (.option type) .absent (.option type') .absent
  | option (inside : Wrapped schema records spot.held type a type' b) :
      Wrapped schema records spot (.option type) (.present a) (.option type') (.present b)
  | box (inside : Wrapped schema records spot.held type a type' b) :
      Wrapped schema records spot (.box type) (.present a) (.box type') (.present b)
  | nothing : Wrapped schema records spot .dynamic .absent .dynamic .absent
  | dynamic (inside : Wrapped schema records spot.held type a type' b) :
      Wrapped schema records spot .dynamic (.dynamic type a) .dynamic (.dynamic type' b)
  | native : Wrapped schema records spot .native (.native value) .native (.native value)
  | record {a b : Keyed Data} (retype : Field → Ty) (named : spot = .root →
        schema.elementName name = { schema with records }.elementName name')
      (fields : { schema with records }.fields name' =
        (schema.fields name).map fun field => { field with type := retype field })
      (present : ∀ field ∈ schema.fields name, field.parsed.skip = false →
        (a.get? field.name).isSome = true ∧ (b.get? field.name).isSome = true)
      (each : ∀ field ∈ schema.fields name, field.parsed.skip = false → ∀ x y, a.get? field.name = some x →
        b.get? field.name = some y → Wrapped schema records field.spot field.type x (retype field) y) :
      Wrapped schema records spot (.record name) (.record a) (.record name') (.record b)
  | map {a b : Keyed Data} (keys : a.keys = b.keys)
      (each : ∀ (index : Nat) under x y, a[index]? = some (under, x) → b[index]? = some (under, y) →
        Wrapped schema records .inside value x value' y) :
      Wrapped schema records spot (.map family key value) (.map a) (.map family key value') (.map b)
  | sequence {a b : List Data} (lengths : a.length = b.length) (each : ∀ (index : Nat) x y, a[index]? = some x →
      b[index]? = some y → Wrapped schema records .inside element x element' y) :
      Wrapped schema records spot (.sequence element) (.list a) (.sequence element') (.list b)
  | array {a b : List Data} (lengths : a.length = b.length) (each : ∀ (index : Nat) x y, a[index]? = some x →
      b[index]? = some y → Wrapped schema records .inside element x element' y) :
      Wrapped schema records spot (.array element length) (.list a) (.array element' length) (.list b)
  | custom : Wrapped schema records spot (.custom name) data (.custom name) data
  | unsupported : Wrapped schema records spot (.unsupported name) data (.unsupported name) data

/-- Errors that say the same at the same place, but that the type of what is no text is that with the wrapped values. -/
inductive Renamed (schema : Schema) (records : Keyed RecordType) : Error → Error → Prop where
  | refl (e : Error) : Renamed schema records e e
  | notText (wrapped : schema.Wrapped records .optional type a type' b) :
      Renamed schema records (.notText (schema.typeName type)) (.notText (schema.typeName type'))
  | inField (name : String) (inside : Renamed schema records e e') :
      Renamed schema records (.inField name e) (.inField name e')
  | inKey (key : String) (inside : Renamed schema records e e') :
      Renamed schema records (.inKey key e) (.inKey key e')
  | atIndex (index : Nat) (inside : Renamed schema records e e') :
      Renamed schema records (.atIndex index e) (.atIndex index e')

variable {schema : Schema} {records : Keyed RecordType} {type type' : Ty} {a b : Data}

theorem renamed_contextual : Error.Contextual (schema.Renamed records) where
  refl := .refl
  inField := .inField
  inKey := .inKey
  atIndex := .atIndex

end Schema

namespace Wraps
variable {type type' : Ty} {data data' : Data}

theorem rootName (schema : Schema) (wraps : Wraps type data type' data') (default : String) :
    schema.rootName default type' data' = schema.rootName default type data := by
  induction wraps with
  | refl => rfl
  | option inside ih => exact ih
  | box inside ih => exact ih
  | dynamic inside ih => exact ih

theorem textOf (schema : Schema) (wraps : Wraps type data type' data') :
    schema.textOf type' data' = schema.textOf type data := by
  induction wraps with
  | refl => rfl
  | option inside ih => exact ih
  | box inside ih => exact ih
  | dynamic inside ih => exact ih

/-- What is written in parallel to a value is so to the wrapped value. -/
theorem parallel {schema : Schema} {related : Error → Error → Prop} {x : Writing Demand Unit} {name : String}
    (wraps : Wraps type data type' data') (parallel : Writing.Parallel related x (schema.write data type name)) :
    Writing.Parallel related x (schema.write data' type' name) := by
  induction wraps with
  | refl => exact parallel
  | option inside ih => exact ih
  | box inside ih => exact ih
  | dynamic inside ih => exact .request_right schema ih

end Wraps

namespace Schema.Wrapped
variable {schema : Schema} {records : Keyed RecordType} {type type' : Ty} {a b : Data} {spot : Spot}

/-- What is not wrapped itself is empty or not, whatever is wrapped inside it. -/
theorem isEmpty (wrapped : schema.Wrapped records .optional type a type' b) : type.isEmpty a = type'.isEmpty b := by
  cases wrapped with
  | wrap free => exact absurd rfl free
  | map keys each => exact isEmpty_of_length (by simpa using congrArg List.length keys)
  | sequence lengths each => exact isEmpty_of_length lengths
  | _ => rfl

theorem rootName (wrapped : schema.Wrapped records spot type a type' b) (root : spot = .root) (default : String) :
    schema.rootName default type a = { schema with records }.rootName default type' b := by
  induction wrapped with
  | wrap free inside wraps ih => rw [wraps.rootName _, ih root]
  | option inside ih | box inside ih | dynamic inside ih => exact ih (by rw [root]; rfl)
  | record retype named => exact named root
  | custom | unsupported => rename_i data; cases data <;> rfl
  | _ => rfl

theorem sequence_single {element element' : Ty} (wrapped : schema.Wrapped records .inside element a element' b) :
    schema.Wrapped records spot (.sequence element) (.list [a]) (.sequence element') (.list [b]) := by
  refine .sequence rfl fun index x y held held' => ?_
  cases index with
  | zero =>
    cases held
    cases held'
    exact wrapped
  | succ index => cases held

theorem record_single {record : String} (field : Field) (listed : schema.fields record = [field])
    (listed' : { schema with records }.fields record = [{ field with type := type' }])
    (named : schema.elementName record = { schema with records }.elementName record)
    (wrapped : schema.Wrapped records field.spot field.type a type' b) :
    schema.Wrapped records spot (.record record) (.record [(field.name, a)]) (.record record)
      (.record [(field.name, b)]) := by
  have found (data : Data) : Keyed.get? [(field.name, data)] field.name = some data := by
    rw [Keyed.get?_cons, if_pos rfl]
  refine .record (fun _ => type') (fun _ => named) (by rw [listed, listed']; rfl) ?_ ?_
  · rw [listed, List.forall_mem_singleton]
    exact fun _ => ⟨by rw [found]; rfl, by rw [found]; rfl⟩
  · rw [listed, List.forall_mem_singleton]
    intro _ x y held held'
    rw [found] at held held'
    cases held
    cases held'
    exact wrapped

/-- Text is the same, or there is none in both. -/
theorem textOf (wrapped : schema.Wrapped records spot type a type' b) :
    Outcome (schema.Renamed records) (schema.textOf type a) ({ schema with records }.textOf type' b) := by
  induction wrapped with
  | wrap free inside wraps ih => exact wraps.textOf _ ▸ ih
  | option inside ih => exact ih
  | box inside ih => exact ih
  | dynamic inside ih => exact ih
  | scalar | absent | nothing | native => exact .ok _
  | record retype named fields present each => exact .error (.notText (.record retype nofun fields present each))
  | map keys each => exact .error (.notText (.map keys each))
  | sequence lengths each => exact .error (.notText (.sequence lengths each))
  | array lengths each => exact .error (.notText (.array lengths each))
  | custom | unsupported => rename_i data; cases data <;> exact .error (.refl _)

end Schema.Wrapped

/-- A field of a plan with another type. -/
def PlannedField.retype (retype : Field → Ty) (planned : PlannedField) : PlannedField :=
  { planned with field := { planned.field with type := retype planned.field } }

theorem PlannedField.retype_tag (retype : Field → Ty) (planned : PlannedField) :
    (planned.retype retype).tag = planned.tag := rfl

namespace Plan

/-- Only tags decide which fields are written, and how. -/
theorem form_map (plan : Plan) {f : PlannedField → PlannedField} (tags : ∀ planned, (f planned).tag = planned.tag) :
    (Plan.mk (plan.fields.map f)).form = {
      attributes := plan.form.attributes.map f
      characters? := plan.form.characters?.map f
      cdata? := plan.form.cdata?.map f
      children := (plan.withRole .element).map fun planned => ⟨f planned, (f planned).field.type⟩ } := by
  have roles (role : FieldRole) : (Plan.mk (plan.fields.map f)).withRole role = (plan.withRole role).map f := by
    simp only [withRole, List.filter_map, Function.comp_def, tags]
  have sorted := Keyed.sort_map f ((plan.withRole .attribute).map fun planned => (planned.tag.name, planned))
  simp only [form, roles, List.map_map, List.getLast?_map, Function.comp_def, tags, RecordForm.mk.injEq, and_true]
  simp only [List.map_map, Function.comp_def] at sorted
  rw [sorted, List.map_map]
  rfl

end Plan

namespace Schema
variable {schema : Schema} {records : Keyed RecordType}

theorem plan_retyped {retype : Field → Ty} (fields : { schema with records }.fields name' =
    (schema.fields name).map fun field => { field with type := retype field }) :
    { schema with records }.plan name' = ⟨(schema.plan name).fields.map (.retype retype)⟩ := by
  rw [plan, plan, fields]
  simp only [Plan.ofFields, List.map_map, List.filter_map, Function.comp_def]
  rfl

end Schema

namespace Schema.Wrapped
variable {schema : Schema} {records : Keyed RecordType} {type type' : Ty}

/-- A field is left out in both or in neither. -/
theorem skips {field : Field} {x y : Data} (wrapped : schema.Wrapped records field.spot type x type' y)
    (omitted : field.parsed.omitEmpty = true) : type.isEmpty x = type'.isEmpty y := by
  rw [Field.spot, if_pos omitted] at wrapped
  exact wrapped.isEmpty

/-- The text of a field is the same, or there is none in both. -/
theorem fieldText {a b : Keyed Data} {planned planned' : PlannedField} (tags : planned'.tag = planned.tag)
    (names : planned'.field.name = planned.field.name) (tag : planned.tag = planned.field.parsed) {x y : Data}
    (held : a.get? planned.field.name = some x) (held' : b.get? planned.field.name = some y)
    (wrapped : schema.Wrapped records planned.field.spot planned.field.type x planned'.field.type y) :
    Outcome (schema.Renamed records) (schema.fieldText planned a) ({ schema with records }.fieldText planned' b) := by
  have texts := wrapped.textOf
  have skipped : (planned.tag.omitEmpty && planned.field.type.isEmpty x) =
      (planned.tag.omitEmpty && planned'.field.type.isEmpty y) := by
    cases left : planned.tag.omitEmpty with
    | false => rfl
    | true => rw [wrapped.skips (tag ▸ left)]
  unfold Schema.fieldText
  dsimp only
  rw [tags, names, held, held', Option.getD_some, Option.getD_some, skipped]
  split
  · exact .ok none
  · generalize schema.textOf planned.field.type x = text at texts ⊢
    generalize { schema with records }.textOf planned'.field.type y = text' at texts ⊢
    cases texts with
    | ok text => exact .ok _
    | error errors => exact .error (Renamed.inField _ errors)

theorem child {a b : Keyed Data} {planned : PlannedField} {retype : Field → Ty}
    (tag : planned.tag = planned.field.parsed) {x y : Data} (held : a.get? planned.field.name = some x)
    (held' : b.get? planned.field.name = some y)
    (wrapped : schema.Wrapped records planned.field.spot planned.field.type x (retype planned.field) y)
    (parallel : Writing.Parallel (schema.Renamed records) (schema.write x planned.field.type planned.tag.name)
      ({ schema with records }.write y (retype planned.field) planned.tag.name)) :
    Writing.Parallel (schema.Renamed records) (Writing.child a (schema.writeEntries a) ⟨planned, planned.field.type⟩)
      (Writing.child b ({ schema with records }.writeEntries b)
        ⟨planned.retype retype, (planned.retype retype).field.type⟩) := by
  refine Writing.parallel_child renamed_contextual rfl rfl (fun omitted => ?_) ?_
  · show planned.field.type.isEmpty ((a.get? planned.field.name).getD .absent) =
      (retype planned.field).isEmpty ((b.get? planned.field.name).getD .absent)
    rw [held, held']
    exact wrapped.skips (tag ▸ omitted)
  · rw [writeEntries_eq_map, writeEntries_eq_map, Keyed.get?_map, Keyed.get?_map, held, held']
    exact .some parallel

/-- Items are written as those with wrapped values, each under the index it has. -/
theorem items {a b : List Data} {element element' : Ty} (lengths : a.length = b.length)
    (each : ∀ (index : Nat) x y, a[index]? = some x → b[index]? = some y → ∀ name, Writing.Parallel
      (schema.Renamed records) (schema.write x element name) ({ schema with records }.write y element' name))
    (name : String) : Writing.Parallel (schema.Renamed records) (Writing.items element name 0 (schema.writeItems a))
      (Writing.items element' name 0 ({ schema with records }.writeItems b)) := by
  rw [writeItems_eq_map, writeItems_eq_map]
  refine Writing.parallel_items renamed_contextual ?_ 0
  rw [List.forall₂_map_left_iff, List.forall₂_map_right_iff, List.forall₂_iff_get]
  refine ⟨lengths, fun index here there => ?_⟩
  exact each index _ _ (List.getElem?_eq_getElem here) (List.getElem?_eq_getElem there) name

/-- The entries of a map come sorted by their keys, and these are the same. -/
theorem entries {a b : Keyed Data} {value value' : Ty} (keys : a.keys = b.keys)
    (each : ∀ (index : Nat) under x y, a[index]? = some (under, x) → b[index]? = some (under, y) → ∀ name,
      Writing.Parallel (schema.Renamed records) (schema.write x value name)
        ({ schema with records }.write y value' name))
    (name : String) : Writing.Parallel (schema.Renamed records) (Writing.map value (schema.writeEntries a) name)
      (Writing.map value' ({ schema with records }.writeEntries b) name) := by
  rw [writeEntries_eq_map, writeEntries_eq_map]
  refine Writing.parallel_map renamed_contextual ?_ name
  rw [Keyed.Pairs, List.forall₂_map_left_iff, List.forall₂_map_right_iff, List.forall₂_iff_get]
  have lengths : a.length = b.length := by simpa using congrArg List.length keys
  refine ⟨lengths, fun index here there => ?_⟩
  have same : (a.get ⟨index, here⟩).1 = (b.get ⟨index, there⟩).1 := by
    have found : a.keys[index]? = b.keys[index]? := by rw [keys]
    simpa [Keyed.keys, here, there] using found
  refine ⟨same, each index _ _ _ (List.getElem?_eq_getElem here) ?_⟩
  rw [List.getElem?_eq_getElem there]
  exact congrArg some (Prod.ext same.symm rfl)

/-- A record is written as the one with wrapped values in its fields, for the plans of both differ in nothing but the
types of the fields. -/
theorem slots {record record' : String} {a b : Keyed Data} {retype : Field → Ty}
    (fields : { schema with records }.fields record' =
      (schema.fields record).map fun field => { field with type := retype field })
    (slot : ∀ planned ∈ (schema.plan record).fields, ∃ x y, a.get? planned.field.name = some x ∧
      b.get? planned.field.name = some y ∧
      schema.Wrapped records planned.field.spot planned.field.type x (retype planned.field) y ∧
      ∀ name, Writing.Parallel (schema.Renamed records) (schema.write x planned.field.type name)
        ({ schema with records }.write y (retype planned.field) name))
    (name : String) : Writing.Parallel (schema.Renamed records) (schema.write (.record a) (.record record) name)
      ({ schema with records }.write (Data.record b) (Ty.record record') name) := by
  let textsMatch := Writing.TextsMatch (schema.Renamed records) schema { schema with records } a b
  have texts {planned : PlannedField} (member : planned ∈ (schema.plan record).fields) :
      textsMatch planned (planned.retype retype) := by
    obtain ⟨x, y, held, held', wrapped, -⟩ := slot planned member
    exact ⟨rfl, wrapped.fieldText rfl rfl (mem_plan.1 member).2.1 held held'⟩
  have single {planned? : Option PlannedField}
      (each : ∀ planned ∈ planned?, textsMatch planned (planned.retype retype)) :
      Option.Rel textsMatch planned? (planned?.map (.retype retype)) := by
    cases planned? with
    | none => exact .none
    | some planned => exact .some (each planned rfl)
  show Writing.Parallel _ (Writing.record schema (schema.plan record).form a (schema.writeEntries a) name)
    (Writing.record { schema with records } ({ schema with records }.plan record').form b
      ({ schema with records }.writeEntries b) name)
  rw [plan_retyped fields, Plan.form_map _ (PlannedField.retype_tag retype)]
  refine Writing.parallel_record ⟨?attributes, ?characters, ?cdata, ?children⟩ name
  case attributes =>
    rw [List.forall₂_map_right_iff, List.forall₂_same]
    exact fun planned member => texts (Plan.mem_attributes.1 member).1
  case characters => exact single fun planned member => texts (Plan.mem_characters member).1
  case cdata => exact single fun planned member => texts (Plan.mem_cdata member).1
  case children =>
    rw [Plan.form, List.forall₂_map_left_iff, List.forall₂_map_right_iff, List.forall₂_same]
    intro planned member
    have member := (Plan.mem_withRole.1 member).1
    obtain ⟨x, y, held, held', wrapped, parallel⟩ := slot planned member
    exact wrapped.child (mem_plan.1 member).2.1 held held' (parallel _)

/-- Wrapped values are written as those that are not. -/
theorem write (wrapped : schema.Wrapped records spot type a type' b) (name : String) :
    Writing.Parallel (schema.Renamed records) (schema.write a type name)
      ({ schema with records }.write b type' name) := by
  induction wrapped generalizing name with
  | wrap free inside wraps ih => exact wraps.parallel (ih name)
  | @scalar _ _ value => exact Writing.parallel_put (·.textElement name value.format)
  | absent | nothing => exact Writing.parallel_put fun w => (w.start name).close name
  | option inside ih | box inside ih => exact ih name
  | dynamic inside ih => exact .request schema { schema with records } (ih name)
  | @native _ value => exact Writing.parallel_put (·.value name value)
  | custom =>
    rename_i data
    cases data <;> exact Writing.parallel_ofExcept (.refl renamed_contextual _) fun custom =>
      Writing.parallel_ofExcept (.refl renamed_contextual _) fun xml => Writing.parallel_put (·.raw xml)
  | unsupported =>
    rename_i data
    cases data <;> exact Writing.parallel_throw (.refl _)
  | sequence lengths each ih | array lengths each ih => exact items lengths ih name
  | @map value value' spot family key a b keys each ih =>
    by_cases textual : key = .string
    · subst textual
      rw [write_map, write_map]
      exact entries keys ih name
    · show Writing.Parallel _ (schema.writeBy ⟨_, schema.routine (.map family key value)⟩ _ _ name)
        ({ schema with records }.writeBy ⟨_, { schema with records }.routine (.map family key value')⟩ _ _ name)
      rw [routine_keyedMap schema family value textual, routine_keyedMap _ family value' textual]
      exact Writing.parallel_throw (.refl _)
  | record retype named fields present each ih =>
    refine slots fields (fun planned member => ?_) name
    obtain ⟨listed, tag, taken⟩ := mem_plan.1 member
    have taken : planned.field.parsed.skip = false := by rw [← taken, tag]; rfl
    obtain ⟨here, there⟩ := present _ listed taken
    obtain ⟨x, held⟩ := Option.isSome_iff_exists.1 here
    obtain ⟨y, held'⟩ := Option.isSome_iff_exists.1 there
    exact ⟨x, y, held, held', each _ listed taken x y held held', ih _ listed taken x y held held'⟩

end Schema.Wrapped

namespace Registry

/-- A value in options, boxes and dynamic values is marshaled as it is alone. And with values inside it wrapped, a value
is marshaled as without, or both fail with errors that differ at most in the type of what is no text. -/
theorem marshal_wrapped :
    (∀ (schema : Schema) (registry registry' : Registry) (settings : Settings) (type type' : Ty) (data data' : Data),
      registry.Coherent schema → registry'.Coherent schema → Wraps type data type' data' →
        (registry.marshal schema type data settings).1 = (registry'.marshal schema type' data' settings).1) ∧
    ∀ (schema : Schema) (records : Keyed RecordType) (registry registry' : Registry) (settings : Settings)
      (type type' : Ty) (data data' : Data), registry.Coherent schema → registry'.Coherent { schema with records } →
        schema.Wrapped records .root type data type' data' →
          Outcome (schema.Renamed records) (registry.marshal schema type data settings).1
            (registry'.marshal { schema with records } type' data' settings).1 := by
  refine ⟨fun schema registry registry' settings type type' data data' coherent coherent' wraps => ?_,
    fun schema records registry registry' settings type type' data data' coherent coherent' wrapped => ?_⟩
  · rw [(coherent.marshal type data settings).1, (coherent'.marshal type' data' settings).1]
    exact (Schema.marshal_outcome (wraps.rootName schema _).symm fun name =>
      wraps.parallel (schema.write_parallel data type name)).eq
  · rw [(coherent.marshal type data settings).1, (coherent'.marshal type' data' settings).1]
    exact Schema.marshal_outcome (wrapped.rootName rfl _) wrapped.write

/-- An optional item of a list, in a record at the root. -/
theorem marshal_wrapped_item :
    let records (item : Ty) : Keyed RecordType :=
      [("Order", ⟨"Order", [⟨"items", .sequence item, "item,omitempty"⟩], .record [("items", .list [])]⟩)]
    let schema : Schema := { records := records .string, customs := [], typeName := fun _ => "" }
    let order (item : Data) : Data := .record [("items", .list [item])]
    let item : Data := .scalar (.text "pen")
    (({} : Registry).marshal schema (.record "Order") (order item) {}).1 =
        (({} : Registry).marshal schema (.box .dynamic) (.present (.dynamic (.record "Order") (order item))) {}).1 ∧
      Outcome (schema.Renamed (records (.option .string)))
        (({} : Registry).marshal schema (.record "Order") (order item) {}).1
        (({} : Registry).marshal { schema with records := records (.option .string) } (.record "Order")
          (order (.present item)) {}).1 := by
  intro records schema order item
  obtain ⟨wrapped, inside⟩ := marshal_wrapped
  refine ⟨wrapped schema {} {} {} _ _ _ _ (empty_coherent _) (empty_coherent _) (.box (.dynamic .refl)),
    inside schema (records (.option .string)) {} {} {} _ _ _ _ (empty_coherent _) (empty_coherent _) ?_⟩
  exact .record_single ⟨"items", .sequence .string, "item,omitempty"⟩ rfl rfl rfl
    (.sequence_single (.wrap nofun .scalar (.option .refl)))

/-- A list where text is wanted, and the same list of options. -/
theorem marshal_names_wrapped :
    let records (item : Ty) : Keyed RecordType :=
      [("Note", ⟨"Note", [⟨"lines", .sequence item, ",chardata"⟩], .record [("lines", .list [])]⟩)]
    let schema : Schema := {
      records := records .string, customs := [],
      typeName := fun | .sequence (.option _) => "list of options" | _ => "list" }
    let note (line : Data) : Data := .record [("lines", .list [line])]
    let line : Data := .scalar (.text "first")
    schema.Wrapped (records (.option .string)) .root (.record "Note") (note line) (.record "Note")
        (note (.present line)) ∧
      (({} : Registry).marshal schema (.record "Note") (note line) {}).1 =
        .error (.inField "lines" (.notText "list")) ∧
      (({} : Registry).marshal { schema with records := records (.option .string) } (.record "Note")
        (note (.present line)) {}).1 = .error (.inField "lines" (.notText "list of options")) := by
  intro records schema note line
  refine ⟨.record_single ⟨"lines", .sequence .string, ",chardata"⟩ rfl rfl rfl
    (.sequence_single (.wrap nofun .scalar (.option .refl))), ?_, ?_⟩
  · rw [((empty_coherent _).marshal _ _ _).1]
    rfl
  · rw [((empty_coherent _).marshal _ _ _).1]
    rfl

end Registry

end XmlBinding
