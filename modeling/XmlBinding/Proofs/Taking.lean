import XmlBinding.Proofs.Assigning
import XmlBinding.Proofs.Content
import XmlBinding.Proofs.Requirements

/-! What a type takes. Whether a value can be assigned to a target of a type is seen of the type and of the content of
the value alone, and never of the order of entries: a record looks only at entries that some field takes, a map takes
those whose keys can be read. What is left of a target has the form of its type again, so that something else may be
assigned to the same place. -/
namespace XmlBinding

/-- A type that names no custom type, other than by a record. -/
def Ty.plain : Ty → Bool
  | .custom _ => false
  | .option target | .box target => target.plain
  | .map _ _ value => value.plain
  | .sequence element | .array element _ => element.plain
  | _ => true

namespace Schema

/-- The types of what is assigned on the way to a value of a type. -/
inductive Assigns (schema : Schema) : Ty → Ty → Prop where
  | option : Assigns schema (.option target) target
  | box : Assigns schema (.box target) target
  | sequence : Assigns schema (.sequence element) element
  | array : Assigns schema (.array element length) element
  | entry : Assigns schema (.map family key value) value
  | field (member : planned ∈ (schema.plan record).fields) : Assigns schema (.record record) planned.field.type

/-- Nothing on the way to a value of a type is read in a way of its own. -/
def Customless (schema : Schema) (type : Ty) : Prop :=
  ∀ name, ¬ Relation.ReflTransGen schema.Assigns type (.custom name)

/-- A target that has the form of its type, as far as an assignment looks at what is there. -/
inductive Regular (schema : Schema) : Ty → Data → Prop where
  | scalar : Regular schema (.scalar type) data
  | dynamic : Regular schema .dynamic data
  | native : Regular schema .native data
  | sequence : Regular schema (.sequence element) data
  | custom : Regular schema (.custom name) data
  | unsupported : Regular schema (.unsupported name) data
  | option (inside : ∀ held, data = .present held → Regular schema target held) : Regular schema (.option target) data
  | box (inside : ∀ held, data = .present held → Regular schema target held) : Regular schema (.box target) data
  | record {slots : Keyed Data} (each : ∀ field ∈ schema.fields name, ∀ slot, slots.get? field.name = some slot →
      Regular schema field.type slot) : Regular schema (.record name) (.record slots)
  | map {entries : Keyed Data} (ascending : entries.Ascending) : Regular schema (.map family key value) (.map entries)
  | array (lengths : items.length = length) (each : ∀ item ∈ items, Regular schema element item) :
      Regular schema (.array element length) (.list items)

/-- A schema that says of each field and of each blank record what can be: a field that a record lists more than once
is of one type, and a blank record has the form of its type. -/
structure Consistent (schema : Schema) : Prop where
  fields (record : String) : ∀ field ∈ schema.fields record, ∀ other ∈ schema.fields record, field.name = other.name →
    field.type = other.type
  blanks (record : String) : schema.Regular (.record record) (schema.blank (.record record))

/-- A value can be assigned to a target of a type. -/
inductive Takes (schema : Schema) : Value → Ty → Prop where
  | scalar (single : ∀ items, value ≠ .list items) (read : type.read? value.text = some scalar) :
      Takes schema value (.scalar type)
  | dynamic : Takes schema value .dynamic
  | native : Takes schema value .native
  | nothing : Takes schema (.map []) (.option target)
  | option (inside : Takes schema value target) : Takes schema value (.option target)
  | box (inside : Takes schema value target) : Takes schema value (.box target)
  | record {entries : Entries} (each : ∀ entry ∈ entries, ∀ planned, (schema.plan record).find? entry.1 = some planned →
      Takes schema entry.2 planned.field.type) : Takes schema (.map entries) (.record record)
  | map {entries : Entries} (keys : ∀ entry ∈ entries, (key.read? entry.1).isSome = true)
      (each : ∀ entry ∈ entries, Takes schema entry.2 type) :
      Takes schema (.map entries) (.map family (.scalar key) type)
  | sequence (each : ∀ item ∈ value.asList, Takes schema item element) : Takes schema value (.sequence element)
  | array (each : ∀ item ∈ value.asList.take length, Takes schema item element) :
      Takes schema value (.array element length)

variable {schema : Schema} {type : Ty} {value : Value}

theorem Customless.inside (customless : schema.Customless type) (assigns : schema.Assigns type part) :
    schema.Customless part := fun name reaches => customless name (.head assigns reaches)

theorem Customless.find? {record : String} (customless : schema.Customless (.record record)) {planned : PlannedField}
    (found : (schema.plan record).find? key = some planned) : schema.Customless planned.field.type :=
  customless.inside (.field (List.mem_of_find?_eq_some found))

/-- Blank values have the form of their type. -/
theorem regular_blank (consistent : schema.Consistent) (type : Ty) : schema.Regular type (schema.blank type) := by
  induction type with
  | scalar => exact .scalar
  | option => exact .option nofun
  | box target ih =>
    refine .box fun held same => ?_
    cases same
    exact ih
  | dynamic => exact .dynamic
  | native => exact .native
  | record record => exact consistent.blanks record
  | map => exact .map .nil
  | sequence => exact .sequence
  | array element length ih =>
    refine .array List.length_replicate fun item held => ?_
    rw [List.eq_of_mem_replicate held]
    exact ih
  | custom => exact .custom
  | unsupported => exact .unsupported

theorem customless_of (other : ∀ name, type ≠ .custom name) (inside : ∀ part, schema.Assigns type part →
    schema.Customless part) : schema.Customless type := by
  intro name reaches
  rcases Relation.ReflTransGen.cases_head reaches with same | ⟨part, assigns, rest⟩
  · exact other name same
  · exact inside part assigns name rest

/-- Nothing is read in a way of its own where no type that a record lists names a custom type. -/
theorem customless_of_plain (fields : ∀ record ∈ schema.records, ∀ field ∈ record.2.fields, field.type.plain = true)
    (plain : type.plain = true) : schema.Customless type := by
  have parts : ∀ part, Relation.ReflTransGen schema.Assigns type part → part.plain = true := by
    intro part reaches
    induction reaches with
    | refl => exact plain
    | tail _ assigns ih =>
      cases assigns with
      | field member =>
        obtain ⟨list, known, listed⟩ := listed_of_mem (mem_plan.1 member).1
        exact fields _ known _ listed
      | _ => exact ih
  exact fun name reaches => Bool.false_ne_true (parts _ reaches)

/-- Where no record lists a field twice, a field is known by its name. -/
theorem field_eq (once : ∀ record ∈ schema.records, (record.2.fields.map Field.name).Nodup) {record : String}
    (member : field ∈ schema.fields record) (member' : other ∈ schema.fields record) (same : field.name = other.name) :
    field = other := by
  have once : ((schema.fields record).map Field.name).Nodup := by
    cases found : schema.records.get? record with
    | none =>
      rw [fields, found]
      exact List.nodup_nil
    | some list =>
      rw [fields, found]
      exact once _ (Keyed.mem_of_get? found)
  exact List.inj_on_of_nodup_map once member member' same

/-- A schema whose records list no field twice is consistent, if its blank records have the form of their types. -/
theorem consistent_of_nodup (once : ∀ record ∈ schema.records, (record.2.fields.map Field.name).Nodup)
    (blanks : ∀ record ∈ schema.records, schema.Regular (.record record.1) record.2.blank) : schema.Consistent where
  fields _ _ member _ member' same := congrArg Field.type (field_eq once member member' same)
  blanks record := by
    rw [blank]
    cases found : schema.records.get? record with
    | none => exact .record fun _ _ _ found => by cases found
    | some type => exact blanks _ (Keyed.mem_of_get? found)

theorem regular_held (consistent : schema.Consistent) {data : Data}
    (inside : ∀ held, data = .present held → schema.Regular type held) :
    schema.Regular type (schema.held type data) := by
  cases data with
  | present held => exact inside held rfl
  | _ => exact regular_blank consistent type

theorem Regular.eq_record (regular : schema.Regular (.record name) target) : ∃ slots, target = .record slots := by
  cases regular
  exact ⟨_, rfl⟩

theorem Regular.eq_map (regular : schema.Regular (.map family key type) target) : ∃ entries, target = .map entries := by
  cases regular
  exact ⟨_, rfl⟩

/-- The slot of a field is of the form of its type, also if it has to be made. -/
theorem Regular.slot (consistent : schema.Consistent) {record : String} {slots : Keyed Data}
    (regular : schema.Regular (.record record) (.record slots)) (member : field ∈ schema.fields record) :
    schema.Regular field.type ((slots.get? field.name).getD (schema.blank field.type)) := by
  cases regular with | record each =>
  cases held : slots.get? field.name with
  | none => exact regular_blank consistent _
  | some slot => exact each _ member slot held

/-- What is put into the slot of a field is of the form that every listing of the field wants. -/
theorem Regular.put (consistent : schema.Consistent) {record : String} {slots : Keyed Data} {data : Data}
    (regular : schema.Regular (.record record) (.record slots)) (member : field ∈ schema.fields record)
    (fits : schema.Regular field.type data) :
    schema.Regular (.record record) (.record (slots.put field.name data)) := by
  cases regular with | record each =>
  refine .record fun other held slot found => ?_
  rw [Keyed.get?_put] at found
  by_cases same : other.name = field.name
  · rw [if_pos same] at found
    rw [consistent.fields record other held field member same]
    exact Option.some.inj found ▸ fits
  · rw [if_neg same] at found
    exact each other held slot found

end Schema

namespace Value

theorem Distinct.asList {value : Value} (distinct : Distinct value) : ∀ item ∈ value.asList, Distinct item := by
  cases distinct with
  | string text => exact List.forall_mem_singleton.2 (.string text)
  | map keys each => exact List.forall_mem_singleton.2 (.map keys each)
  | list each => exact each

theorem asList_of_content {a b : Value} (same : a.content = b.content) :
    a.asList.map content = b.asList.map content := by
  cases a with
  | string text => rw [eq_string_of_content same]
  | map =>
    cases b with
    | string | list => cases same
    | map => exact congrArg ([·]) same
  | list =>
    cases b with
    | string | map => cases same
    | list => exact content_list_iff.1 same

/-- Among items of the same contents there is one of the content of each. -/
theorem item_of_content {items items' : List Value} (same : items.map content = items'.map content)
    (member : item ∈ items') : ∃ other ∈ items, other.content = item.content := by
  have listed : item.content ∈ items.map content := same ▸ List.mem_map_of_mem member
  exact List.mem_map.1 listed

end Value

namespace Schema
variable {schema : Schema} {type : Ty}

/-- Values of the same content are taken by the same types. -/
theorem Takes.of_content {a b : Value} (takes : schema.Takes a type) (distinct : b.Distinct)
    (same : a.content = b.content) : schema.Takes b type := by
  induction takes generalizing b with
  | @scalar a type scalar single read =>
    refine .scalar (fun items list => ?_) (Value.text_of_content same ▸ read)
    subst list
    cases a with
    | list items' => exact single items' rfl
    | string | map => cases same
  | dynamic => exact .dynamic
  | native => exact .native
  | nothing =>
    obtain rfl := Value.eq_nothing_of_content same
    exact .nothing
  | option inside ih => exact .option (ih distinct same)
  | box inside ih => exact .box (ih distinct same)
  | record each ih =>
    obtain ⟨entries', rfl⟩ := Value.eq_map_of_content same
    cases distinct with | map keys' each' =>
    refine .record fun entry member planned found => ?_
    obtain ⟨other, held, equal⟩ := Value.found_of_content same.symm (Keyed.get?_of_mem keys' member)
    exact ih (entry.1, other) (Keyed.mem_of_get? held) planned found (each' entry member) equal.symm
  | map keys each ih =>
    obtain ⟨entries', rfl⟩ := Value.eq_map_of_content same
    cases distinct with | map keys' each' =>
    have found {entry : String × Value} (member : entry ∈ entries') :=
      Value.found_of_content same.symm (Keyed.get?_of_mem keys' member)
    refine .map (fun entry member => ?_) fun entry member => ?_
    · obtain ⟨other, held, -⟩ := found member
      exact keys (entry.1, other) (Keyed.mem_of_get? held)
    · obtain ⟨other, held, equal⟩ := found member
      exact ih (entry.1, other) (Keyed.mem_of_get? held) (each' entry member) equal.symm
  | sequence each ih =>
    refine .sequence fun item member => ?_
    obtain ⟨other, held, equal⟩ := Value.item_of_content (Value.asList_of_content same) member
    exact ih other held (distinct.asList item member) equal
  | @array element a length each ih =>
    have taken : (a.asList.take length).map Value.content = (b.asList.take length).map Value.content := by
      rw [List.map_take, List.map_take, Value.asList_of_content same]
    refine .array fun item member => ?_
    obtain ⟨other, held, equal⟩ := Value.item_of_content taken member
    exact ih other held (distinct.asList item (List.mem_of_mem_take member)) equal

end Schema

/-- How an assignment ends that succeeds in certain cases only, and then leaves a target of the form of its type. -/
structure Assigned.Settles (schema : Schema) (type : Ty) (takes : Prop) (done : Assigned Demand) : Prop where
  ok : done.error? = none ↔ takes
  regular : done.error? = none → schema.Regular type done.target

namespace Assigned.Settles
variable {schema : Schema} {type : Ty} {takes more : Prop} {done : Assigned Demand}

theorem failed (failed : done.error? ≠ none) (refused : ¬ takes) : done.Settles schema type takes where
  ok := ⟨fun ended => absurd ended failed, fun taken => absurd taken refused⟩
  regular ended := absurd ended failed

theorem succeeded (ended : done.error? = none) (taken : takes) (regular : schema.Regular type done.target) :
    done.Settles schema type takes where
  ok := ⟨fun _ => taken, fun _ => ended⟩
  regular _ := regular

theorem iff (settles : done.Settles schema type takes) (same : takes ↔ more) : done.Settles schema type more where
  ok := settles.ok.trans same
  regular := settles.regular

theorem and (first : takes) (rest : done.Settles schema type more) : done.Settles schema type (takes ∧ more) :=
  rest.iff ⟨fun all => ⟨first, all⟩, And.right⟩

/-- A part and then all that comes after it. -/
theorem andThen {whole : Data → Data} {wrap : Error → Error} {next : Demand → Data → Assigned Demand}
    (first : done.error? = none ↔ takes)
    (rest : done.error? = none → (next done.registry (whole done.target)).Settles schema type more) :
    ((done.part whole wrap).andThen next).Settles schema type (takes ∧ more) := by
  by_cases ok : done.error? = none
  · rw [andThen_of_done (part_error?.2 ok)]
    exact (rest ok).and (first.1 ok)
  · refine failed (fun ended => ?_) fun all => ok (first.2 all.1)
    exact ok (part_error?.1 (andThen_error?.1 ended).1)

end Assigned.Settles

/-- A value is assigned if the type takes it, and then a target of the form of the type is left. -/
def Assignment.Settles (schema : Schema) (assign : Assignment Demand) (type : Ty) (value : Value) : Prop :=
  ∀ name demand target, schema.Regular type target →
    (assign type name demand target).Settles schema type (schema.Takes value type)

namespace Assignment
variable {schema : Schema} {assign : Value → Assignment Demand}

theorem fields_settle (consistent : schema.Consistent) {record : String} {entries : Entries}
    (each : ∀ entry ∈ entries, ∀ planned, (schema.plan record).find? entry.1 = some planned →
      (assign entry.2).Settles schema planned.field.type entry.2)
    (demand : Demand) {slots : Keyed Data} (regular : schema.Regular (.record record) (.record slots)) :
    (fields schema (schema.plan record) (entries.map fun entry => (entry.1, assign entry.2)) demand
      (.record slots)).Settles schema (.record record) (∀ entry ∈ entries, ∀ planned,
        (schema.plan record).find? entry.1 = some planned → schema.Takes entry.2 planned.field.type) := by
  induction entries generalizing demand slots with
  | nil => exact .succeeded rfl (List.forall_mem_nil _) regular
  | cons entry rest ih =>
    obtain ⟨key, value⟩ := entry
    obtain ⟨here, later⟩ := List.forall_mem_cons.1 each
    rw [List.map_cons, List.forall_mem_cons]
    cases found : (schema.plan record).find? key with
    | none =>
      rw [fields_pass found]
      refine (ih later demand regular).and fun planned same => ?_
      cases same
    | some planned =>
      have member := (Schema.mem_plan.1 (List.mem_of_find?_eq_some found)).1
      have first := here planned found planned.tag.name demand _ (regular.slot consistent member)
      rw [fields_take found]
      refine .andThen (first.ok.trans ⟨fun taken other same => ?_, fun all => all planned rfl⟩) fun ok => ?_
      · cases same
        exact taken
      · exact ih later _ (regular.put consistent member (first.regular ok))

theorem entries_settle (key : ScalarType) {type : Ty} {entries : Entries}
    (blank : schema.Regular type (schema.blank type))
    (each : ∀ entry ∈ entries, (assign entry.2).Settles schema type entry.2) (family : String) (keyType : Ty)
    (demand : Demand) {old : Keyed Data} (ascending : old.Ascending) :
    (Assignment.entries schema key type (entries.map fun entry => (entry.1, assign entry.2)) demand (.map old)).Settles
      schema (.map family keyType type)
      (∀ entry ∈ entries, (key.read? entry.1).isSome = true ∧ schema.Takes entry.2 type) := by
  induction entries generalizing demand old with
  | nil => exact .succeeded rfl (List.forall_mem_nil _) (.map ascending)
  | cons entry rest ih =>
    obtain ⟨name, value⟩ := entry
    obtain ⟨here, later⟩ := List.forall_mem_cons.1 each
    rw [List.map_cons, List.forall_mem_cons]
    cases read : key.read? name with
    | none => exact .failed (entries_unread read _) fun all => absurd all.1.1 nofun
    | some scalar =>
      have first := here name demand _ blank
      rw [entries_add read]
      refine .andThen (first.ok.trans ⟨fun taken => ⟨rfl, taken⟩, And.right⟩) fun ok => ?_
      dsimp only
      rw [ok]
      exact ih later _ (ascending.place _ _)

theorem items_settle {type : Ty} {values : List Value} (blank : schema.Regular type (schema.blank type))
    (each : ∀ value ∈ values, (assign value).Settles schema type value) (name : String) (before : List Data)
    (demand : Demand) :
    (Assignment.items schema type name (values.map assign) before demand).Settles schema (.sequence type)
      (∀ value ∈ values, schema.Takes value type) := by
  induction values generalizing before demand with
  | nil => exact .succeeded rfl (List.forall_mem_nil _) .sequence
  | cons value rest ih =>
    obtain ⟨here, later⟩ := List.forall_mem_cons.1 each
    have first := here name demand _ blank
    rw [List.map_cons, List.forall_mem_cons]
    by_cases ok : (assign value type name demand (schema.blank type)).error? = none
    · rw [items_done before ok]
      exact (ih later _ _).and (first.ok.1 ok)
    · exact .failed (items_failed before ok) fun all => ok (first.ok.2 all.1)

theorem inPlace_settle {type : Ty} {values : List Value}
    (each : ∀ value ∈ values, (assign value).Settles schema type value) (name : String) (before : List Data)
    {after : List Data} (room : values.length ≤ after.length)
    (regular : ∀ item ∈ before ++ after, schema.Regular type item) (demand : Demand) :
    (inPlace type name (values.map assign) before after demand).Settles schema
      (.array type (before ++ after).length) (∀ value ∈ values, schema.Takes value type) := by
  induction values generalizing before after demand with
  | nil => exact .succeeded rfl (List.forall_mem_nil _) (.array rfl regular)
  | cons value rest ih =>
    obtain ⟨here, later⟩ := List.forall_mem_cons.1 each
    cases after with
    | nil => cases room
    | cons old after =>
      have first := here name demand old (regular old (List.mem_append_right _ List.mem_cons_self))
      rw [List.map_cons, List.forall_mem_cons]
      by_cases ok : (assign value type name demand old).error? = none
      · rw [inPlace_done before after ok]
        have regular' : ∀ item ∈ before ++ [(assign value type name demand old).target] ++ after,
            schema.Regular type item := by
          intro item member
          simp only [List.mem_append, List.mem_singleton] at member regular
          rcases member with (earlier | rfl) | further
          · exact regular item (.inl earlier)
          · exact first.regular ok
          · exact regular item (.inr (List.mem_cons_of_mem _ further))
        have lengths : (before ++ old :: after).length =
            (before ++ [(assign value type name demand old).target] ++ after).length := by simp
        rw [lengths]
        exact (ih later _ (Nat.le_of_succ_le_succ room) regular' _).and (first.ok.1 ok)
      · exact .failed (inPlace_failed before after ok) fun all => ok (first.ok.2 all.1)

end Assignment

namespace Schema
variable {schema : Schema} {type : Ty}

variable {value : Value} {entries : Entries}

theorem misfit_settles (misfits : value.Misfits type) : (schema.assign value).Settles schema type value := by
  intro name demand target regular
  obtain ⟨e, -, refused⟩ := schema.assign_misfit (σ := Demand) misfits
  rw [refused]
  refine .failed nofun fun takes => ?_
  cases misfits with
  | list => cases takes with | scalar single => exact single _ rfl
  | unsupported => cases takes
  | noRecord other | noMap other => cases takes; exact other _ rfl
  | noKey other => cases takes; exact other _ rfl

theorem scalar_settles {type : ScalarType} (single : ∀ items, value ≠ .list items) :
    (schema.assign value).Settles schema (.scalar type) value := by
  intro name demand target regular
  rw [assign_single _ _ _ _ single, assignScalar]
  split
  · rename_i scalar read
    exact .succeeded rfl (.scalar single read) .scalar
  · rename_i unread
    refine .failed nofun fun takes => ?_
    cases takes with | scalar _ read => cases unread.symm.trans read

theorem option_settles (consistent : schema.Consistent) (visible : value ≠ .map [])
    (inside : (schema.assign value).Settles schema type value) :
    (schema.assign value).Settles schema (.option type) value := by
  intro name demand data regular
  cases regular with | option held =>
  have done := inside name demand _ (regular_held consistent held)
  rw [assign_option schema type name demand data visible]
  refine ⟨Assigned.part_error?.trans (done.ok.trans ⟨.option, fun takes => ?_⟩), fun ended => ?_⟩
  · cases takes with
    | nothing => exact absurd rfl visible
    | option inside => exact inside
  · refine .option fun held same => ?_
    cases same
    exact done.regular (Assigned.part_error?.1 ended)

theorem box_settles (consistent : schema.Consistent) (inside : (schema.assign value).Settles schema type value) :
    (schema.assign value).Settles schema (.box type) value := by
  intro name demand data regular
  cases regular with | box held =>
  have done := inside name demand _ (regular_held consistent held)
  rw [assign_box]
  refine ⟨Assigned.part_error?.trans (done.ok.trans ⟨.box, fun takes => ?_⟩), fun ended => ?_⟩
  · cases takes with | box inside => exact inside
  · refine .box fun held same => ?_
    cases same
    exact done.regular (Assigned.part_error?.1 ended)

theorem record_settles (consistent : schema.Consistent) {record : String}
    (each : ∀ entry ∈ entries, ∀ planned, (schema.plan record).find? entry.1 = some planned →
      (schema.assign entry.2).Settles schema planned.field.type entry.2) :
    (schema.assign (.map entries)).Settles schema (.record record) (.map entries) := by
  intro name demand target regular
  cases regular with | record inside =>
  rw [assign_record]
  refine (Assignment.fields_settle consistent each (Directory.plan schema record demand).2 (.record inside)).iff
    ⟨.record, fun takes => ?_⟩
  cases takes with | record each => exact each

theorem map_settles (consistent : schema.Consistent) {key : ScalarType} {family : String}
    (each : ∀ entry ∈ entries, (schema.assign entry.2).Settles schema type entry.2) :
    (schema.assign (.map entries)).Settles schema (.map family (.scalar key) type) (.map entries) := by
  intro name demand target regular
  cases regular with | map ascending =>
  rw [assign_map]
  refine (Assignment.entries_settle key (regular_blank consistent type) each family (.scalar key) demand ascending).iff
    ⟨fun all => ?_, fun takes => ?_⟩
  · exact .map (fun entry member => (all entry member).1) fun entry member => (all entry member).2
  · cases takes with | map keys each => exact fun entry member => ⟨keys entry member, each entry member⟩

theorem sequence_settles (consistent : schema.Consistent)
    (each : ∀ item ∈ value.asList, (schema.assign item).Settles schema type item) :
    (schema.assign value).Settles schema (.sequence type) value := by
  intro name demand target regular
  rw [assign_sequence]
  refine (Assignment.items_settle (regular_blank consistent type) each name [] demand).iff
    ⟨.sequence, fun takes => ?_⟩
  cases takes with | sequence each => exact each

theorem array_settles {length : Nat} (each : ∀ item ∈ value.asList, (schema.assign item).Settles schema type item) :
    (schema.assign value).Settles schema (.array type length) value := by
  intro name demand target regular
  cases regular with | array lengths regular =>
  have taken (item : Value) (member : item ∈ value.asList.take length) := each item (List.mem_of_mem_take member)
  have done := Assignment.inPlace_settle taken name [] (lengths ▸ List.length_take_le ..) regular demand
  rw [assign_array]
  rw [List.nil_append, lengths] at done
  refine done.iff ⟨.array, fun takes => ?_⟩
  cases takes with | array each => exact each

/-- A value is assigned exactly if the type takes it, whatever the target holds. -/
theorem assign_settles (consistent : schema.Consistent) (value : Value) (customless : schema.Customless type) :
    (schema.assign value).Settles schema type value := by
  induction value, type using Value.assign_induction with
  | misfit misfits => exact misfit_settles misfits
  | scalar type single => exact scalar_settles single
  | dynamic value =>
    intro name demand target regular
    rw [assign_dynamic]
    exact .succeeded rfl .dynamic .dynamic
  | native value =>
    intro name demand target regular
    rw [assign_native]
    exact .succeeded rfl .native .native
  | custom value name => exact absurd .refl (customless name)
  | nothing target => exact fun _ _ _ _ => .succeeded rfl .nothing (.option nofun)
  | option target visible ih => exact option_settles consistent visible (ih (customless.inside .option))
  | box value target ih => exact box_settles consistent (ih (customless.inside .box))
  | record entries record ih =>
    exact record_settles consistent fun entry member planned found => ih entry member _ (customless.find? found)
  | map entries family key type ih =>
    exact map_settles consistent fun entry member => ih entry member (customless.inside .entry)
  | sequence value element ih =>
    exact sequence_settles consistent fun item member => ih item member (customless.inside .sequence)
  | array value element length ih =>
    exact array_settles fun item member => ih item member (customless.inside .array)

end Schema

end XmlBinding
