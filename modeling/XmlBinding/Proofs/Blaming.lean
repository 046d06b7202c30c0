import XmlBinding.Proofs.Overwriting

/-! What the error of an assignment blames. An error names the way from the whole to what is at fault: a field, an index
or a key for each value that is inside another, and nothing for what an option or a box holds. What is at fault is a
value that cannot be assigned to any target of its type, or a text that cannot be read as a key, and the error inside is
the one that this alone leads to. -/
namespace XmlBinding

/-- What is at fault when a value cannot be assigned. -/
inductive Culprit where
  /-- A value, as something for a target of a type. -/
  | value (value : Value) (type : Ty)
  /-- The text of a key. -/
  | key (text : String) (type : ScalarType)

/-- Whether a type is that of an option or of a box. -/
def Ty.isPointer : Ty → Bool
  | .option _ | .box _ => true
  | _ => false

namespace Schema

/-- The way that an error names, from a value that is assigned to a target of a type, ends at a culprit. -/
inductive Blames (schema : Schema) : Value → Ty → Error → Culprit → Prop where
  | value (bare : e.cause = e) (direct : type.isPointer = false) :
      Blames schema value type e (.value value type)
  | option (visible : value ≠ .map []) (inside : Blames schema value target e culprit) :
      Blames schema value (.option target) e culprit
  | box (inside : Blames schema value target e culprit) : Blames schema value (.box target) e culprit
  | field {entries : Entries} (member : (key, part) ∈ entries) (found : (schema.plan record).find? key = some planned)
      (inside : Blames schema part planned.field.type e culprit) :
      Blames schema (.map entries) (.record record) (.inField planned.field.name e) culprit
  | item (held : value.asList[index]? = some part) (inside : Blames schema part element e culprit) :
      Blames schema value (.sequence element) (.atIndex index e) culprit
  | slot (room : index < length) (held : value.asList[index]? = some part)
      (inside : Blames schema part element e culprit) :
      Blames schema value (.array element length) (.atIndex index e) culprit
  | entry {entries : Entries} (member : (key, part) ∈ entries) (inside : Blames schema part type e culprit) :
      Blames schema (.map entries) (.map family keyType type) (.inKey key e) culprit
  | key {entries : Entries} (member : (key, part) ∈ entries) (bare : e.cause = e) :
      Blames schema (.map entries) (.map family (.scalar keyType) type) (.inKey key e) (.key key keyType)

end Schema

/-- A culprit by itself leads to an error, whatever the target holds. -/
def Culprit.FailsWith (schema : Schema) (e : Error) : Culprit → Prop
  | .value part type => ∀ registry : Registry, registry.Coherent schema → ∀ name target, schema.Regular type target →
      (schema.assign part type name registry target).error? = some e
  | .key text type => type.read? text = none ∧ e = .invalidScalar text (schema.typeName (.scalar type))

/-- An assignment to some target of a type fails. -/
def Assignment.Fails (schema : Schema) (assign : Assignment Demand) (type : Ty) (e : Error) : Prop :=
  ∃ name demand target, schema.Regular type target ∧ (assign type name demand target).error? = some e

/-- What goes on fails either at once or later. -/
theorem Assigned.failed_of_andThen {done : Assigned σ} {next : σ → Data → Assigned σ}
    (failed : (done.andThen next).error? = some e) :
    done.error? = some e ∨ done.error? = none ∧ (next done.registry done.target).error? = some e := by
  cases here : done.error? with
  | none =>
    rw [andThen_of_done here] at failed
    exact .inr ⟨rfl, failed⟩
  | some e' =>
    rw [andThen_of_failed here, here] at failed
    exact .inl failed

/-- A part fails inside the whole. -/
theorem Assigned.failed_of_part {done : Assigned σ} {whole : Data → Data} {wrap : Error → Error}
    (failed : (done.part whole wrap).error? = some e) : ∃ e', done.error? = some e' ∧ e = wrap e' := by
  obtain ⟨e', failed, same⟩ := Option.map_eq_some_iff.1 failed
  exact ⟨e', failed, same.symm⟩

namespace Assignment
variable {schema : Schema} {assign : Value → Assignment Demand}

theorem fields_failed (consistent : schema.Consistent) {record : String} {entries : Entries}
    (each : ∀ entry ∈ entries, ∀ planned, (schema.plan record).find? entry.1 = some planned →
      (assign entry.2).Settles schema planned.field.type entry.2)
    {demand : Demand} {slots : Keyed Data} (regular : schema.Regular (.record record) (.record slots))
    (failed : (fields schema (schema.plan record) (entries.map fun entry => (entry.1, assign entry.2)) demand
      (.record slots)).error? = some e) :
    ∃ entry ∈ entries, ∃ planned e', (schema.plan record).find? entry.1 = some planned ∧
      e = .inField planned.field.name e' ∧ (assign entry.2).Fails schema planned.field.type e' := by
  induction entries generalizing demand slots with
  | nil => cases failed
  | cons entry rest ih =>
    obtain ⟨key, value⟩ := entry
    obtain ⟨here, later⟩ := List.forall_mem_cons.1 each
    rw [List.map_cons] at failed
    cases found : (schema.plan record).find? key with
    | none =>
      rw [fields_pass found] at failed
      obtain ⟨entry, member, rest⟩ := ih later regular failed
      exact ⟨entry, List.mem_cons_of_mem _ member, rest⟩
    | some planned =>
      have member := (Schema.mem_plan.1 (List.mem_of_find?_eq_some found)).1
      have held := regular.slot consistent member
      rw [fields_take found] at failed
      rcases Assigned.failed_of_andThen failed with failed | ⟨done, failed⟩
      · obtain ⟨e', failed, same⟩ := Assigned.failed_of_part failed
        exact ⟨(key, value), List.mem_cons_self, planned, e', found, same, _, _, _, held, failed⟩
      · have fits := (here planned found planned.tag.name demand _ held).regular (Assigned.part_error?.1 done)
        obtain ⟨entry, member, rest⟩ := ih later (regular.put consistent member fits) failed
        exact ⟨entry, List.mem_cons_of_mem _ member, rest⟩

theorem entries_failed {key : ScalarType} {type : Ty} {entries : Entries}
    (blank : schema.Regular type (schema.blank type)) {demand : Demand} {old : Keyed Data}
    (failed : (Assignment.entries schema key type (entries.map fun entry => (entry.1, assign entry.2)) demand
      (.map old)).error? = some e) :
    ∃ entry ∈ entries, ∃ e', e = .inKey entry.1 e' ∧
      ((key.read? entry.1 = none ∧ e' = .invalidScalar entry.1 (schema.typeName (.scalar key))) ∨
        (assign entry.2).Fails schema type e') := by
  induction entries generalizing demand old with
  | nil => cases failed
  | cons entry rest ih =>
    obtain ⟨name, value⟩ := entry
    rw [List.map_cons] at failed
    cases read : key.read? name with
    | none =>
      unfold Assignment.entries at failed
      rw [read] at failed
      cases failed
      exact ⟨(name, value), List.mem_cons_self, _, rfl, .inl ⟨read, rfl⟩⟩
    | some scalar =>
      rw [entries_add read] at failed
      rcases Assigned.failed_of_andThen failed with failed | ⟨done, failed⟩
      · obtain ⟨e', failed, same⟩ := Assigned.failed_of_part failed
        exact ⟨(name, value), List.mem_cons_self, e', same, .inr ⟨_, _, _, blank, failed⟩⟩
      · dsimp only [Assigned.part] at failed
        rw [Assigned.part_error?.1 done] at failed
        obtain ⟨entry, member, rest⟩ := ih failed
        exact ⟨entry, List.mem_cons_of_mem _ member, rest⟩

theorem items_failed_at {type : Ty} {values : List Value} (blank : schema.Regular type (schema.blank type))
    {name : String} {before : List Data} {demand : Demand}
    (failed : (Assignment.items schema type name (values.map assign) before demand).error? = some e) :
    ∃ index value e', values[index]? = some value ∧ e = .atIndex (before.length + index) e' ∧
      (assign value).Fails schema type e' := by
  induction values generalizing before demand with
  | nil => cases failed
  | cons value rest ih =>
    rw [List.map_cons] at failed
    cases ended : (assign value type name demand (schema.blank type)).error? with
    | some e' =>
      rw [Assignment.items, ended] at failed
      cases failed
      exact ⟨0, value, e', rfl, rfl, _, _, _, blank, ended⟩
    | none =>
      rw [items_done before ended] at failed
      obtain ⟨index, value, e', held, rfl, fails⟩ := ih failed
      refine ⟨index + 1, value, e', held, ?_, fails⟩
      rw [List.length_append, List.length_singleton, Nat.add_assoc, Nat.add_comm 1]

theorem inPlace_failed_at {type : Ty} {values : List Value} {name : String} {before after : List Data} {demand : Demand}
    (regular : ∀ item ∈ after, schema.Regular type item)
    (failed : (inPlace type name (values.map assign) before after demand).error? = some e) :
    ∃ index value e', values[index]? = some value ∧ e = .atIndex (before.length + index) e' ∧
      (assign value).Fails schema type e' := by
  induction values generalizing before after demand with
  | nil => cases after <;> cases failed
  | cons value rest ih =>
    cases after with
    | nil => cases failed
    | cons old after =>
      obtain ⟨here, later⟩ := List.forall_mem_cons.1 regular
      rw [List.map_cons] at failed
      cases ended : (assign value type name demand old).error? with
      | some e' =>
        rw [inPlace, ended] at failed
        cases failed
        exact ⟨0, value, e', rfl, rfl, _, _, _, here, ended⟩
      | none =>
        rw [inPlace_done before after ended] at failed
        obtain ⟨index, value, e', held, rfl, fails⟩ := ih later failed
        refine ⟨index + 1, value, e', held, ?_, fails⟩
        rw [List.length_append, List.length_singleton, Nat.add_assoc, Nat.add_comm 1]

end Assignment

namespace Schema
variable {schema : Schema} {type : Ty} {value : Value}

/-- A value that fails for one target of a type fails for all of them, with the same error. -/
theorem failsWith_of_fails (consistent : schema.Consistent) (customless : schema.Customless type)
    (fails : (schema.assign value).Fails schema type e) : (Culprit.value value type).FailsWith schema e := by
  obtain ⟨error?, change, -, acts⟩ := schema.assign_definite consistent value customless
  obtain ⟨name, demand, target, regular, failed⟩ := fails
  intro registry coherent name' target' regular'
  rw [(schema.assign_mirrors value type name' registry {} target' coherent.answers).error?,
    (acts name' {} target' regular').1, ← (acts name demand target regular).1, failed]

/-- A scalar has nothing inside it, so its error names no way. -/
theorem scalar_bare {type : ScalarType} (single : ∀ items, value ≠ .list items)
    (fails : (schema.assign value).Fails schema (.scalar type) e) : e.cause = e := by
  obtain ⟨name, demand, target, -, failed⟩ := fails
  rw [assign_single _ _ _ _ single, assignScalar] at failed
  split at failed
  · cases failed
  · cases failed
    rfl

/-- Something at fault is at the end of the way that an error names. -/
def Blamed (schema : Schema) (value : Value) (type : Ty) (e : Error) : Prop :=
  ∃ culprit, schema.Blames value type e culprit ∧ culprit.FailsWith schema e.cause

/-- An error that names no way blames the value itself. -/
theorem blamed_of_bare (consistent : schema.Consistent) (customless : schema.Customless type)
    (fails : (schema.assign value).Fails schema type e) (bare : e.cause = e) (direct : type.isPointer = false) :
    schema.Blamed value type e :=
  ⟨_, .value bare direct, bare.symm ▸ failsWith_of_fails consistent customless fails⟩

/-- A misfit is at fault itself. -/
theorem misfit_blamed (consistent : schema.Consistent) (customless : schema.Customless type)
    (misfits : value.Misfits type) (fails : (schema.assign value).Fails schema type e) :
    schema.Blamed value type e := by
  refine blamed_of_bare consistent customless fails ?_ (by cases misfits <;> rfl)
  obtain ⟨e', bare, refused⟩ := schema.assign_misfit (σ := Demand) misfits
  obtain ⟨name, demand, target, -, failed⟩ := fails
  rw [refused] at failed
  cases failed
  exact bare

theorem option_blamed (consistent : schema.Consistent) (visible : value ≠ .map [])
    (inside : ∀ {e}, (schema.assign value).Fails schema type e → schema.Blamed value type e)
    (fails : (schema.assign value).Fails schema (.option type) e) : schema.Blamed value (.option type) e := by
  obtain ⟨name, demand, data, regular, failed⟩ := fails
  cases regular with | option held =>
  rw [assign_option _ _ _ _ _ visible] at failed
  obtain ⟨e', failed, rfl⟩ := Assigned.failed_of_part failed
  obtain ⟨culprit, blames, fails⟩ := inside ⟨name, demand, _, regular_held consistent held, failed⟩
  exact ⟨culprit, .option visible blames, fails⟩

theorem box_blamed (consistent : schema.Consistent)
    (inside : ∀ {e}, (schema.assign value).Fails schema type e → schema.Blamed value type e)
    (fails : (schema.assign value).Fails schema (.box type) e) : schema.Blamed value (.box type) e := by
  obtain ⟨name, demand, data, regular, failed⟩ := fails
  cases regular with | box held =>
  rw [assign_box] at failed
  obtain ⟨e', failed, rfl⟩ := Assigned.failed_of_part failed
  obtain ⟨culprit, blames, fails⟩ := inside ⟨name, demand, _, regular_held consistent held, failed⟩
  exact ⟨culprit, .box blames, fails⟩

theorem record_blamed (consistent : schema.Consistent) {record : String} {entries : Entries}
    (customless : schema.Customless (.record record))
    (each : ∀ entry ∈ entries, ∀ planned e, (schema.plan record).find? entry.1 = some planned →
      (schema.assign entry.2).Fails schema planned.field.type e → schema.Blamed entry.2 planned.field.type e)
    (fails : (schema.assign (.map entries)).Fails schema (.record record) e) :
    schema.Blamed (.map entries) (.record record) e := by
  obtain ⟨name, demand, target, regular, failed⟩ := fails
  obtain ⟨(slots : Keyed Data), rfl⟩ := regular.eq_record
  rw [assign_record] at failed
  obtain ⟨entry, member, planned, e', found, rfl, fails⟩ := Assignment.fields_failed consistent
    (fun entry _ planned found => assign_settles consistent entry.2 (customless.find? found)) regular failed
  obtain ⟨culprit, blames, fails⟩ := each entry member planned e' found fails
  exact ⟨culprit, .field member found blames, fails⟩

theorem map_blamed (consistent : schema.Consistent) {key : ScalarType} {family : String} {entries : Entries}
    (each : ∀ entry ∈ entries, ∀ e, (schema.assign entry.2).Fails schema type e → schema.Blamed entry.2 type e)
    (fails : (schema.assign (.map entries)).Fails schema (.map family (.scalar key) type) e) :
    schema.Blamed (.map entries) (.map family (.scalar key) type) e := by
  obtain ⟨name, demand, target, regular, failed⟩ := fails
  obtain ⟨(old : Keyed Data), rfl⟩ := regular.eq_map
  rw [assign_map] at failed
  obtain ⟨entry, member, e', rfl, ⟨unread, rfl⟩ | fails⟩ :=
    Assignment.entries_failed (regular_blank consistent type) failed
  · exact ⟨.key entry.1 key, .key member rfl, unread, rfl⟩
  · obtain ⟨culprit, blames, fails⟩ := each entry member e' fails
    exact ⟨culprit, .entry member blames, fails⟩

theorem sequence_blamed (consistent : schema.Consistent)
    (each : ∀ item ∈ value.asList, ∀ e, (schema.assign item).Fails schema type e → schema.Blamed item type e)
    (fails : (schema.assign value).Fails schema (.sequence type) e) : schema.Blamed value (.sequence type) e := by
  obtain ⟨name, demand, target, -, failed⟩ := fails
  rw [assign_sequence] at failed
  obtain ⟨index, item, e', held, rfl, fails⟩ := Assignment.items_failed_at (regular_blank consistent type) failed
  obtain ⟨culprit, blames, fails⟩ := each item (List.mem_of_getElem? held) e' fails
  rw [List.length_nil, Nat.zero_add]
  exact ⟨culprit, .item held blames, fails⟩

theorem array_blamed {length : Nat}
    (each : ∀ item ∈ value.asList, ∀ e, (schema.assign item).Fails schema type e → schema.Blamed item type e)
    (fails : (schema.assign value).Fails schema (.array type length) e) :
    schema.Blamed value (.array type length) e := by
  obtain ⟨name, demand, target, regular, failed⟩ := fails
  cases regular with | array lengths regular =>
  rw [assign_array] at failed
  obtain ⟨index, item, e', held, rfl, fails⟩ := Assignment.inPlace_failed_at regular failed
  rw [List.getElem?_take, Option.ite_none_right_eq_some] at held
  obtain ⟨room, held⟩ := held
  obtain ⟨culprit, blames, fails⟩ := each item (List.mem_of_getElem? held) e' fails
  rw [List.length_nil, Nat.zero_add]
  exact ⟨culprit, .slot room held blames, fails⟩

/-- The way that an error names ends at what is at fault. -/
theorem blames_of_fails (consistent : schema.Consistent) (value : Value) (customless : schema.Customless type)
    (fails : (schema.assign value).Fails schema type e) : schema.Blamed value type e := by
  induction value, type using Value.assign_induction generalizing e with
  | misfit misfits => exact misfit_blamed consistent customless misfits fails
  | scalar type single => exact blamed_of_bare consistent customless fails (scalar_bare single fails) rfl
  | dynamic value =>
    obtain ⟨name, demand, target, -, failed⟩ := fails
    rw [assign_dynamic] at failed
    cases failed
  | native value =>
    obtain ⟨name, demand, target, -, failed⟩ := fails
    rw [assign_native] at failed
    cases failed
  | custom value name => exact absurd .refl (customless name)
  | nothing target =>
    obtain ⟨name, demand, data, -, failed⟩ := fails
    cases failed
  | option target visible ih =>
    exact option_blamed consistent visible (fun fails => ih (customless.inside .option) fails) fails
  | box value target ih => exact box_blamed consistent (fun fails => ih (customless.inside .box) fails) fails
  | record entries record ih =>
    exact record_blamed consistent customless (fun entry member planned e found fails =>
      ih entry member _ (customless.find? found) fails) fails
  | map entries family key type ih =>
    exact map_blamed consistent (fun entry member e fails => ih entry member (customless.inside .entry) fails) fails
  | sequence value element ih =>
    exact sequence_blamed consistent (fun item member e fails => ih item member (customless.inside .sequence) fails) fails
  | array value element length ih =>
    exact array_blamed (fun item member e fails => ih item member (customless.inside .array) fails) fails

end Schema

theorem Error.cause_cause (e : Error) : e.cause.cause = e.cause := by
  induction e with
  | inField field cause ih => exact ih
  | inKey key cause ih => exact ih
  | atIndex index cause ih => exact ih
  | _ => rfl

namespace Registry
variable {schema : Schema} {registry : Registry}

/-- The error of an assignment names the way to what is at fault, around the error that this alone leads to. -/
theorem assign_blames (consistent : schema.Consistent) (coherent : registry.Coherent schema) {value : Value} {type : Ty}
    (customless : schema.Customless type) {target : Data} (regular : schema.Regular type target) {name : String}
    (failed : (schema.assign value type name registry target).error? = some e) :
    e.cause.cause = e.cause ∧ ∃ culprit, schema.Blames value type e culprit ∧ culprit.FailsWith schema e.cause := by
  rw [(schema.assign_mirrors value type name registry {} target coherent.answers).error?] at failed
  exact ⟨e.cause_cause, schema.blames_of_fails consistent value customless ⟨name, {}, target, regular, failed⟩⟩

/-- A key that cannot be read, in the second record of a sequence. -/
theorem assign_blames_key :
    let schema : Schema := {
      records := [
        ("Outer", ⟨"Outer", [⟨"items", .sequence (.option (.record "Inner")), "item"⟩], .record []⟩),
        ("Inner", ⟨"Inner", [⟨"flags", .map "BTreeMap" (.scalar .bool) .string, ""⟩], .record []⟩)],
      customs := [], typeName := fun _ => "bool" }
    let value : Value := .map [("item", .list [.map [],
      .map [("flags", .map [("true", .string "1"), ("perhaps", .string "2")])]])]
    let e := .inField "items" (.atIndex 1 (.inField "flags" (.inKey "perhaps" (.invalidScalar "perhaps" "bool"))))
    (schema.assign value (.record "Outer") "" ({} : Registry) (.record [])).error? = some e ∧
      ∃ culprit, schema.Blames value (.record "Outer") e culprit ∧
        culprit.FailsWith schema (.invalidScalar "perhaps" "bool") := by
  intro schema value e
  have once : ∀ record ∈ schema.records, (record.2.fields.map Field.name).Nodup := by decide
  have regular {record : String} : schema.Regular (.record record) (.record []) := .record fun _ _ _ found => by cases found
  have consistent : schema.Consistent :=
    Schema.consistent_of_nodup once (List.forall_mem_cons.2 ⟨regular, List.forall_mem_singleton.2 regular⟩)
  have failed : (schema.assign value (.record "Outer") "" ({} : Registry) (.record [])).error? = some e := rfl
  exact ⟨failed, (assign_blames consistent (empty_coherent schema)
    (Schema.customless_of_plain (by decide) rfl) regular failed).2⟩

end Registry

end XmlBinding
