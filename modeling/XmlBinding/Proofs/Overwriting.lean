import XmlBinding.Proofs.Changing
import XmlBinding.Proofs.InUse
import XmlBinding.Proofs.Taking

/-! What an assignment overwrites. Whatever a target holds, an assignment to it ends alike, and what it assigns comes of
the value alone: it replaces some parts of the target, at any depth, and leaves the others. So a second assignment of
the same value finds all that it would assign. -/
namespace XmlBinding

namespace Schema

/-- The type of the field of a record that has a name. -/
def slotType (schema : Schema) (record name : String) : Ty :=
  ((schema.fields record).find? (·.name == name)).elim .native Field.type

/-- Changes of a target of a type that overwrite some parts of it, whatever stands there. -/
inductive Overwrites (schema : Schema) : Ty → (Data → Data) → Prop where
  | keep : Overwrites schema type id
  | replace (data : Data) : Overwrites schema type fun _ => data
  | option (inside : Overwrites schema target change) :
      Overwrites schema (.option target) fun data => .present (change (schema.held target data))
  | box (inside : Overwrites schema target change) :
      Overwrites schema (.box target) fun data => .present (change (schema.held target data))
  | record {changes : Keyed (Data → Data)}
      (listed : ∀ name ∈ changes.keys, ∃ field ∈ schema.fields record, field.name = name)
      (each : ∀ name, Overwrites schema (schema.slotType record name) (Keyed.together (changes.under name))) :
      Overwrites schema (.record record)
        (Data.onSlots fun slots => slots.changeAll (fun name => schema.blank (schema.slotType record name)) changes)
  | map (more : Keyed Data) :
      Overwrites schema (.map family key value) (Data.onEntries fun entries => entries.placeAll more)
  | array {changes : List (Data → Data)} (each : ∀ change ∈ changes, Overwrites schema element change) :
      Overwrites schema (.array element length) (Data.onItems (changeEach changes))

variable {schema : Schema} {type : Ty} {change other : Data → Data}

theorem slotType_eq (consistent : schema.Consistent) (member : field ∈ schema.fields record) :
    schema.slotType record field.name = field.type := by
  have some : ((schema.fields record).find? (·.name == field.name)).isSome := by
    rw [List.find?_isSome]
    exact ⟨field, member, beq_self_eq_true _⟩
  obtain ⟨found, same⟩ := Option.isSome_iff_exists.1 some
  have name : found.name = field.name := by simpa using List.find?_some same
  rw [slotType, same]
  exact consistent.fields record found (List.mem_of_find?_eq_some same) field member name

/-- Of changes that overwrite, one after another overwrites too. -/
theorem Overwrites.comp (first : schema.Overwrites type change) (second : schema.Overwrites type other) :
    schema.Overwrites type (other ∘ change) := by
  induction first generalizing other with
  | keep => exact second
  | replace data => exact .replace (other data)
  | option inside ih =>
    cases second with
    | keep => exact .option inside
    | replace data => exact .replace data
    | option inside' => exact .option (ih inside')
  | box inside ih =>
    cases second with
    | keep => exact .box inside
    | replace data => exact .replace data
    | box inside' => exact .box (ih inside')
  | @record record changes listed each ih =>
    cases second with
    | keep => exact .record listed each
    | replace data => exact .replace data
    | @record _ changes' listed' each' =>
      have joined (name : String) : Keyed.together ((changes ++ changes').under name) =
          Keyed.together (changes'.under name) ∘ Keyed.together (changes.under name) := by
        funext data
        rw [Keyed.under_append]
        exact List.foldl_append
      have listed'' : ∀ name ∈ Keyed.keys (changes ++ changes'), ∃ field ∈ schema.fields record, field.name = name := by
        intro name member
        rw [Keyed.keys, List.map_append] at member
        exact (List.mem_append.1 member).elim (listed name) (listed' name)
      have appended := Overwrites.record listed'' fun name => joined name ▸ ih name (each' name)
      rw [Data.onSlots_comp]
      simpa only [Function.comp_def, Keyed.changeAll_append] using appended
  | map more =>
    cases second with
    | keep => exact .map more
    | replace data => exact .replace data
    | map more' =>
      have joined : Data.onEntries (fun entries => entries.placeAll more') ∘
          Data.onEntries (fun entries => entries.placeAll more) =
            Data.onEntries fun entries => entries.placeAll (more ++ more') := by
        rw [Data.onEntries_comp]
        simp only [Keyed.placeAll, List.foldl_append, Function.comp_def]
      rw [joined]
      exact .map (more ++ more')
  | @array element length changes each ih =>
    cases second with
    | keep => exact .array each
    | replace data => exact .replace data
    | @array _ _ changes' each' =>
      have joined : schema.Overwrites (.array element length) _ :=
        .array (forall_mem_joinEach each each' fun change member other => ih change member)
      rw [Data.onItems_comp]
      simpa only [Function.comp_def, changeEach_changeEach] using joined

/-- What overwrites does nothing more when it is done again. -/
theorem Overwrites.twice (consistent : schema.Consistent) (overwrites : schema.Overwrites type change) {data : Data}
    (regular : schema.Regular type data) : change (change data) = change data := by
  induction overwrites generalizing data with
  | keep | replace => rfl
  | option inside ih =>
    cases regular with | option held =>
    exact congrArg Data.present (ih (regular_held consistent held))
  | box inside ih =>
    cases regular with | box held =>
    exact congrArg Data.present (ih (regular_held consistent held))
  | record listed each ih =>
    obtain ⟨slots, rfl⟩ := regular.eq_record
    refine congrArg Data.record (Keyed.changeAll_changeAll _ slots fun name changed value same => ih name ?_)
    obtain ⟨field, member, rfl⟩ := listed name changed
    rw [same, slotType_eq consistent member]
    exact regular.slot consistent member
  | map more =>
    cases regular with | map ascending =>
    exact congrArg Data.map (Keyed.placeAll_placeAll ascending more)
  | array each ih =>
    cases regular with | array lengths held =>
    exact congrArg Data.list (changeEach_twice fun change member item there => ih change member (held item there))

/-- A change of the slot of one field of a record. -/
def onSlot (schema : Schema) (record name : String) (change : Data → Data) : Data → Data :=
  Data.onSlots fun slots => slots.changeAll (fun name => schema.blank (schema.slotType record name)) [(name, change)]

theorem onSlot_record (consistent : schema.Consistent) {record : String} (member : field ∈ schema.fields record)
    (change : Data → Data) (slots : Keyed Data) : schema.onSlot record field.name change (.record slots) =
      .record (slots.put field.name (change ((slots.get? field.name).getD (schema.blank field.type)))) := by
  rw [← slotType_eq consistent member]
  rfl

theorem Overwrites.slot (consistent : schema.Consistent) {record : String} (member : field ∈ schema.fields record)
    (inside : schema.Overwrites field.type change) :
    schema.Overwrites (.record record) (schema.onSlot record field.name change) := by
  refine .record (List.forall_mem_singleton.2 ⟨field, member, rfl⟩) fun name => ?_
  rw [Keyed.under_cons]
  by_cases same : field.name = name
  · subst same
    rw [if_pos rfl, slotType_eq consistent member]
    exact inside
  · rw [if_neg same]
    exact .keep

/-- Something that is done to targets of a type, and that ends alike for all of them. If it succeeds, it overwrites the
same parts of all of them. -/
def Definite (schema : Schema) (type : Ty) (run : String → Demand → Data → Assigned Demand) : Prop :=
  ∃ error? change, schema.Overwrites type change ∧ ∀ name demand target, schema.Regular type target →
    (run name demand target).error? = error? ∧ (error? = none → (run name demand target).target = change target)

theorem definite_failed {run : String → Demand → Data → Assigned Demand}
    (failed : ∀ name demand target, schema.Regular type target → (run name demand target).error? = some e) :
    schema.Definite type run :=
  ⟨some e, id, .keep, fun name demand target regular => ⟨failed name demand target regular, nofun⟩⟩

theorem definite_replaced {run : String → Demand → Data → Assigned Demand} (data : Data)
    (done : ∀ name demand target, (run name demand target).error? = none ∧ (run name demand target).target = data) :
    schema.Definite type run :=
  ⟨none, fun _ => data, .replace data, fun name demand target _ =>
    (done name demand target).imp_right fun left _ => left⟩

end Schema

theorem Assigned.andThen_of_failed {done : Assigned σ} {next : σ → Data → Assigned σ} (failed : done.error? = some e) :
    done.andThen next = done := by
  rw [andThen, failed]

/-- A part and then all that comes after it. -/
theorem Assigned.andThen_ends {done : Assigned σ} {next : σ → Data → Assigned σ} {first second : Option Error}
    (here : done.error? = first)
    (there : first = none → (next done.registry done.target).error? = second ∧
      (second = none → (next done.registry done.target).target = left)) :
    (done.andThen next).error? = first.or second ∧ (first.or second = none → (done.andThen next).target = left) := by
  cases first with
  | none =>
    rw [andThen_of_done here]
    exact there rfl
  | some e =>
    rw [andThen_of_failed here]
    exact ⟨here, nofun⟩

namespace Assignment
variable {schema : Schema} {assign : Value → Assignment Demand}

/-- The entries of a record are assigned alike whatever its slots hold. -/
theorem fields_definite (consistent : schema.Consistent) {record : String} {entries : Entries}
    (each : ∀ entry ∈ entries, ∀ planned, (schema.plan record).find? entry.1 = some planned →
      schema.Definite planned.field.type (assign entry.2 planned.field.type) ∧
        (assign entry.2).Settles schema planned.field.type entry.2) :
    schema.Definite (.record record) fun _ =>
      fields schema (schema.plan record) (entries.map fun entry => (entry.1, assign entry.2)) := by
  induction entries with
  | nil => exact ⟨none, id, .keep, fun _ _ _ _ => ⟨rfl, fun _ => rfl⟩⟩
  | cons entry rest ih =>
    obtain ⟨key, value⟩ := entry
    obtain ⟨here, later⟩ := List.forall_mem_cons.1 each
    obtain ⟨error?, change, overwrites, acts⟩ := ih later
    cases found : (schema.plan record).find? key with
    | none =>
      refine ⟨error?, change, overwrites, fun name demand target regular => ?_⟩
      simp only [List.map_cons, fields_pass found]
      exact acts name demand target regular
    | some planned =>
      have member := (Schema.mem_plan.1 (List.mem_of_find?_eq_some found)).1
      obtain ⟨⟨first?, make, makes, made⟩, settles⟩ := here planned found
      refine ⟨(first?.map (.inField planned.field.name)).or error?,
        change ∘ schema.onSlot record planned.field.name make, (makes.slot consistent member).comp overwrites,
        fun name demand target regular => ?_⟩
      obtain ⟨(slots : Keyed Data), rfl⟩ := regular.eq_record
      have held := regular.slot consistent member
      obtain ⟨ended, left⟩ := made planned.tag.name demand _ held
      simp only [List.map_cons, fields_take found]
      refine Assigned.andThen_ends (congrArg (Option.map _) ended) fun ok => ?_
      obtain rfl := Option.map_eq_none_iff.1 ok
      -- What comes later finds the slot changed, and still of the form that every listing of the field wants.
      have fits := regular.put consistent member ((settles planned.tag.name demand _ held).regular ended)
      rw [left rfl, ← Schema.onSlot_record consistent member] at fits
      show _ ∧ (error? = none → _ = change (schema.onSlot record planned.field.name make (.record slots)))
      dsimp only [Assigned.part]
      rw [left rfl, ← Schema.onSlot_record consistent member]
      exact acts name _ _ fits

/-- The values of a map come of blank ones, so all that is placed is known before. -/
theorem entries_definite (key : ScalarType) {type : Ty} (blank : schema.Regular type (schema.blank type))
    (family : String) {entries : Entries} (each : ∀ entry ∈ entries, schema.Definite type (assign entry.2 type)) :
    schema.Definite (.map family (.scalar key) type) fun _ =>
      Assignment.entries schema key type (entries.map fun entry => (entry.1, assign entry.2)) := by
  induction entries with
  | nil => exact ⟨none, id, .keep, fun _ _ _ _ => ⟨rfl, fun _ => rfl⟩⟩
  | cons entry rest ih =>
    obtain ⟨name, value⟩ := entry
    obtain ⟨⟨first?, make, -, made⟩, later⟩ := List.forall_mem_cons.1 each
    obtain ⟨error?, change, overwrites, acts⟩ := ih later
    cases read : key.read? name with
    | none =>
      refine Schema.definite_failed (e := .inKey name (.invalidScalar name (schema.typeName (.scalar key)))) ?_
      intro _ demand target regular
      rw [List.map_cons]
      unfold Assignment.entries
      rw [read]
      rfl
    | some scalar =>
      refine ⟨(first?.map (.inKey name)).or error?,
        change ∘ Data.onEntries fun entries => entries.placeAll [(scalar.format, make (schema.blank type))],
        (Schema.Overwrites.map _).comp overwrites, fun whole demand target regular => ?_⟩
      obtain ⟨old, rfl⟩ := regular.eq_map
      cases regular with | map ascending =>
      obtain ⟨ended, left⟩ := made name demand _ blank
      simp only [List.map_cons, entries_add read]
      refine Assigned.andThen_ends (congrArg (Option.map _) ended) fun ok => ?_
      obtain rfl := Option.map_eq_none_iff.1 ok
      dsimp only [Assigned.part]
      rw [ended, left rfl]
      exact acts whole _ _ (.map (ascending.place _ _))

/-- The items of a sequence come of blank ones too, and nothing is left of what was there. -/
theorem items_definite {type : Ty} (blank : schema.Regular type (schema.blank type)) {values : List Value}
    (each : ∀ value ∈ values, schema.Definite type (assign value type)) (index : Nat) :
    ∃ error? made, ∀ name (before : List Data) demand, before.length = index →
      (Assignment.items schema type name (values.map assign) before demand).error? = error? ∧
        (error? = none → (Assignment.items schema type name (values.map assign) before demand).target =
          .list (before ++ made)) := by
  induction values generalizing index with
  | nil => exact ⟨none, [], fun name before demand _ => ⟨rfl, fun _ => congrArg Data.list (List.append_nil _).symm⟩⟩
  | cons value rest ih =>
    obtain ⟨⟨first?, make, -, made⟩, later⟩ := List.forall_mem_cons.1 each
    obtain ⟨error?, items, acts⟩ := ih later (index + 1)
    refine ⟨(first?.map (.atIndex index)).or error?, make (schema.blank type) :: items,
      fun name before demand length => ?_⟩
    obtain ⟨ended, left⟩ := made name demand _ blank
    rw [List.map_cons]
    cases first? with
    | none =>
      rw [items_done before ended, left rfl]
      have further := acts name (before ++ [make (schema.blank type)])
        (assign value type name demand (schema.blank type)).registry (by simp [length])
      rwa [List.append_assoc] at further
    | some e =>
      rw [Assignment.items, ended, length]
      exact ⟨rfl, fun done => by cases done⟩

/-- The items of an array are changed one by one. -/
theorem inPlace_definite {type : Ty} {values : List Value}
    (each : ∀ value ∈ values, schema.Definite type (assign value type)) (index : Nat) :
    ∃ error? changes, (∀ change ∈ changes, schema.Overwrites type change) ∧
      ∀ name (before after : List Data) demand, before.length = index → values.length ≤ after.length →
        (∀ item ∈ after, schema.Regular type item) →
        (inPlace type name (values.map assign) before after demand).error? = error? ∧
          (error? = none → (inPlace type name (values.map assign) before after demand).target =
            .list (before ++ changeEach changes after)) := by
  induction values generalizing index with
  | nil =>
    refine ⟨none, [], List.forall_mem_nil _, fun name before after demand _ _ _ => ?_⟩
    cases after <;> exact ⟨rfl, fun _ => rfl⟩
  | cons value rest ih =>
    obtain ⟨⟨first?, make, makes, made⟩, later⟩ := List.forall_mem_cons.1 each
    obtain ⟨error?, changes, overwrite, acts⟩ := ih later (index + 1)
    refine ⟨(first?.map (.atIndex index)).or error?, make :: changes, List.forall_mem_cons.2 ⟨makes, overwrite⟩,
      fun name before after demand length room regular => ?_⟩
    cases after with
    | nil => cases room
    | cons old after =>
      obtain ⟨here, others⟩ := List.forall_mem_cons.1 regular
      obtain ⟨ended, left⟩ := made name demand old here
      rw [List.map_cons]
      cases first? with
      | none =>
        rw [inPlace_done before after ended, left rfl]
        have further := acts name (before ++ [make old]) after (assign value type name demand old).registry
          (by simp [length]) (Nat.le_of_succ_le_succ room) others
        rwa [List.append_assoc] at further
      | some e =>
        rw [inPlace, ended, length]
        exact ⟨rfl, fun done => by cases done⟩

end Assignment

namespace Schema
variable {schema : Schema} {type : Ty}

variable {value : Value} {entries : Entries}

theorem misfit_definite (misfits : value.Misfits type) : schema.Definite type (schema.assign value type) := by
  obtain ⟨e, -, refused⟩ := schema.assign_misfit (σ := Demand) misfits
  exact definite_failed fun name demand target _ => congrArg Assigned.error? (refused name demand target)

theorem scalar_definite {type : ScalarType} (single : ∀ items, value ≠ .list items) :
    schema.Definite (.scalar type) (schema.assign value (.scalar type)) := by
  cases read : type.read? value.text with
  | some scalar =>
    refine definite_replaced (.scalar scalar) fun name demand target => ?_
    rw [assign_single _ _ _ _ single, assignScalar, read]
    exact ⟨rfl, rfl⟩
  | none =>
    refine definite_failed (e := .invalidScalar value.text (schema.typeName (.scalar type))) ?_
    intro name demand target _
    rw [assign_single _ _ _ _ single, assignScalar, read]
    rfl

theorem option_definite (consistent : schema.Consistent) (visible : value ≠ .map [])
    (inside : schema.Definite type (schema.assign value type)) :
    schema.Definite (.option type) (schema.assign value (.option type)) := by
  obtain ⟨error?, change, overwrites, acts⟩ := inside
  refine ⟨error?, _, .option overwrites, fun name demand data regular => ?_⟩
  cases regular with | option held =>
  obtain ⟨ended, left⟩ := acts name demand _ (regular_held consistent held)
  rw [assign_option _ _ _ _ _ visible]
  exact ⟨by simp [Assigned.part, ended], fun ok => congrArg Data.present (left ok)⟩

theorem box_definite (consistent : schema.Consistent) (inside : schema.Definite type (schema.assign value type)) :
    schema.Definite (.box type) (schema.assign value (.box type)) := by
  obtain ⟨error?, change, overwrites, acts⟩ := inside
  refine ⟨error?, _, .box overwrites, fun name demand data regular => ?_⟩
  cases regular with | box held =>
  obtain ⟨ended, left⟩ := acts name demand _ (regular_held consistent held)
  rw [assign_box]
  exact ⟨by simp [Assigned.part, ended], fun ok => congrArg Data.present (left ok)⟩

theorem record_definite (consistent : schema.Consistent) {record : String}
    (each : ∀ entry ∈ entries, ∀ planned, (schema.plan record).find? entry.1 = some planned →
      schema.Definite planned.field.type (schema.assign entry.2 planned.field.type) ∧
        (schema.assign entry.2).Settles schema planned.field.type entry.2) :
    schema.Definite (.record record) (schema.assign (.map entries) (.record record)) := by
  obtain ⟨error?, change, overwrites, acts⟩ := Assignment.fields_definite consistent each
  refine ⟨error?, change, overwrites, fun name demand target regular => ?_⟩
  rw [assign_record]
  exact acts name _ target regular

theorem map_definite (consistent : schema.Consistent) {key : ScalarType} {family : String}
    (each : ∀ entry ∈ entries, schema.Definite type (schema.assign entry.2 type)) :
    schema.Definite (.map family (.scalar key) type) (schema.assign (.map entries) (.map family (.scalar key) type)) := by
  obtain ⟨error?, change, overwrites, acts⟩ :=
    Assignment.entries_definite key (regular_blank consistent type) family each
  refine ⟨error?, change, overwrites, fun name demand target regular => ?_⟩
  rw [assign_map]
  exact acts name demand target regular

theorem sequence_definite (consistent : schema.Consistent)
    (each : ∀ item ∈ value.asList, schema.Definite type (schema.assign item type)) :
    schema.Definite (.sequence type) (schema.assign value (.sequence type)) := by
  obtain ⟨error?, made, acts⟩ := Assignment.items_definite (regular_blank consistent type) each 0
  refine ⟨error?, fun _ => .list made, .replace _, fun name demand target _ => ?_⟩
  rw [assign_sequence]
  exact acts name [] demand rfl

theorem array_definite {length : Nat} (each : ∀ item ∈ value.asList, schema.Definite type (schema.assign item type)) :
    schema.Definite (.array type length) (schema.assign value (.array type length)) := by
  have taken (item : Value) (member : item ∈ value.asList.take length) := each item (List.mem_of_mem_take member)
  obtain ⟨error?, changes, overwrite, acts⟩ := Assignment.inPlace_definite taken 0
  refine ⟨error?, _, .array overwrite, fun name demand target regular => ?_⟩
  cases regular with | array lengths held =>
  rw [assign_array]
  exact acts name [] _ demand rfl (lengths ▸ List.length_take_le ..) held

/-- Assigning a value ends alike for all targets, and overwrites the same parts of all of them. -/
theorem assign_definite (consistent : schema.Consistent) (value : Value) (customless : schema.Customless type) :
    schema.Definite type (schema.assign value type) := by
  induction value, type using Value.assign_induction with
  | misfit misfits => exact misfit_definite misfits
  | scalar type single => exact scalar_definite single
  | dynamic value =>
    refine definite_replaced (.dynamic .native (.native value)) fun name demand target => ?_
    rw [assign_dynamic]
    exact ⟨rfl, rfl⟩
  | native value =>
    refine definite_replaced (.native value) fun name demand target => ?_
    rw [assign_native]
    exact ⟨rfl, rfl⟩
  | custom value name => exact absurd .refl (customless name)
  | nothing target => exact definite_replaced .absent fun _ _ _ => ⟨rfl, rfl⟩
  | option target visible ih => exact option_definite consistent visible (ih (customless.inside .option))
  | box value target ih => exact box_definite consistent (ih (customless.inside .box))
  | record entries record ih =>
    exact record_definite consistent fun entry member planned found =>
      ⟨ih entry member _ (customless.find? found), assign_settles consistent entry.2 (customless.find? found)⟩
  | map entries family key type ih =>
    exact map_definite consistent fun entry member => ih entry member (customless.inside .entry)
  | sequence value element ih =>
    exact sequence_definite consistent fun item member => ih item member (customless.inside .sequence)
  | array value element length ih =>
    exact array_definite fun item member => ih item member (customless.inside .array)

end Schema

/-- A run ends alike for two targets; and if it succeeds, another run finds all done in what it leaves. -/
structure Assigned.Idempotent (run again : Data → Assigned Registry) (a b : Data) : Prop where
  alike : (run a).error? = (again b).error?
  succeeds : (run a).error? = none → (again (run a).target).error? = none
  unchanged : (run a).error? = none → (again (run a).target).target = (run a).target

namespace Registry
variable {schema : Schema} {registry registry' : Registry}

/-- Whether a document can be read into a target does not depend on what the target holds, and reading it once more into
the target it has been read into changes nothing. The same holds of assigning a value, whatever the order of its
entries. -/
theorem unmarshal_idempotent (consistent : schema.Consistent) (coherent : registry.Coherent schema)
    (coherent' : registry'.Coherent schema) {type : Ty} (customless : schema.Customless type) {a b : Data}
    (regular : schema.Regular type a) (regular' : schema.Regular type b) :
    (∀ value name, Assigned.Idempotent (schema.assign value type name registry)
      (schema.assign value type name registry') a b) ∧
    ∀ xml, Assigned.Idempotent (fun target => registry.unmarshal schema type xml target)
      (fun target => registry'.unmarshal schema type xml target) a b := by
  have assigned (value : Value) (name : String) : Assigned.Idempotent (schema.assign value type name registry)
      (schema.assign value type name registry') a b := by
    obtain ⟨error?, change, overwrites, acts⟩ := schema.assign_definite consistent value customless
    have one (target : Data) := schema.assign_mirrors value type name registry {} target coherent.answers
    have two (target : Data) := schema.assign_mirrors value type name registry' {} target coherent'.answers
    obtain ⟨ended, left⟩ := acts name {} a regular
    have same : (schema.assign value type name registry a).error? = error? := (one a).error?.trans ended
    have further (done : (schema.assign value type name registry a).error? = none) :=
      (schema.assign_settles consistent value customless name {} a regular).regular ((one a).error?.symm.trans done)
    refine ⟨?_, fun done => ?_, fun done => ?_⟩
    · rw [same, (two b).error?, (acts name {} b regular').1]
    · rw [(two _).error?, (one a).target, (acts name {} _ (further done)).1, ← same, done]
    · have fine : error? = none := same.symm.trans done
      rw [(two _).target, (one a).target, (acts name {} _ (further done)).2 fine, left fine]
      exact overwrites.twice consistent regular
  refine ⟨assigned, fun xml => ?_⟩
  unfold Registry.unmarshal Schema.unmarshal
  split
  · exact absurd .refl (customless _)
  · cases read : Value.ofStream (.ofBytes xml) with
    | ok value => exact assigned value _
    | error e => exact ⟨rfl, nofun, nofun⟩

/-- Entries of a record that are added to a map and put in front of an array, twice. -/
theorem unmarshal_idempotent_added :
    let schema : Schema := {
      records := [("Item", {
        name := "Item"
        fields := [⟨"pair", .array .string 2, ""⟩, ⟨"notes", .map "HashMap" .string .string, ""⟩]
        blank := .record [("pair", .list [.scalar (.text ""), .scalar (.text "")]), ("notes", .map [])] })]
      customs := [], typeName := fun _ => "" }
    let value : Value := .map [("pair", .string "x"), ("notes", .map [("y", .string "2"), ("a", .string "1")])]
    let target : Data := .record [("pair", .list [.scalar (.text "old"), .scalar (.text "kept")]),
      ("notes", .map [("y", .scalar (.text "0")), ("z", .scalar (.text "9"))])]
    let done := schema.assign value (.record "Item") "" ({} : Registry) target
    let again := schema.assign value (.record "Item") "" ({} : Registry) done.target
    done.error? = none ∧ done.target = .record [("pair", .list [.scalar (.text "x"), .scalar (.text "kept")]),
        ("notes", .map [("a", .scalar (.text "1")), ("y", .scalar (.text "2")), ("z", .scalar (.text "9"))])] ∧
      again.error? = none ∧ again.target = done.target := by
  intro schema value target done again
  have once : ∀ record ∈ schema.records, (record.2.fields.map Field.name).Nodup := by decide
  have fields : schema.fields "Item" =
    [⟨"pair", .array .string 2, ""⟩, ⟨"notes", .map "HashMap" .string .string, ""⟩] := rfl
  have item {first second : Data} {notes : Keyed Data} (ascending : notes.Ascending) :
      schema.Regular (.record "Item") (.record [("pair", .list [first, second]), ("notes", .map notes)]) := by
    refine .record ?_
    rw [fields]
    refine List.forall_mem_cons.2 ⟨fun slot found => ?_, List.forall_mem_singleton.2 fun slot found => ?_⟩
    · cases found
      exact .array rfl fun _ _ => .scalar
    · cases found
      exact .map ascending
  have regular : schema.Regular (.record "Item") target :=
    item (List.pairwise_cons.2 ⟨by decide, List.pairwise_singleton _ _⟩)
  have consistent : schema.Consistent := Schema.consistent_of_nodup once (List.forall_mem_singleton.2 (item .nil))
  have ended : done.error? = none := rfl
  have idempotent := (unmarshal_idempotent consistent (empty_coherent schema)
    (empty_coherent schema) (Schema.customless_of_plain (by decide) rfl) regular regular).1 value ""
  exact ⟨ended, rfl, idempotent.succeeds ended, idempotent.unchanged ended⟩

end Registry

end XmlBinding
