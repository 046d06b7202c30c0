import XmlBinding.Proofs.Requests

/-! Which records are decoded. A record is decoded when the content of an element is assigned to it, whatever fields take
something of it. The parts of a value are assigned in order, and what stands behind a part that cannot be assigned is not
come by; so which records are decoded is seen of the value, the target and the parts that can be assigned. -/
namespace XmlBinding

namespace Schema

/-- A value can be assigned to a target of a type, and this is what is left of the target. -/
structure Leaves (schema : Schema) (value : Value) (type : Ty) (name : String) (target after : Data) : Prop where
  error? : (schema.assign value type name ({} : Registry) target).error? = none
  target : (schema.assign value type name ({} : Registry) target).target = after

/-- Assigning a value from the element of a name to a target of a type comes by a record, before it fails if it does. -/
inductive Decodes (schema : Schema) (decoded : String) : Value → Ty → String → Data → Prop where
  | here : Decodes schema decoded (.map entries) (.record decoded) name target
  | option (visible : value ≠ .map []) (inside : Decodes schema decoded value type name (schema.held type target)) :
      Decodes schema decoded value (.option type) name target
  | box (inside : Decodes schema decoded value type name (schema.held type target)) :
      Decodes schema decoded value (.box type) name target
  /-- A field finds its slot as the entries before have left it. -/
  | field {entries before after : Entries} {record : String} {planned : PlannedField} {slots : Keyed Data}
      (order : entries = before ++ (key, value) :: after)
      (earlier : schema.Leaves (.map before) (.record record) name target (.record slots))
      (taken : (schema.plan record).find? key = some planned)
      (inside : Decodes schema decoded value planned.field.type planned.tag.name
        ((slots.get? planned.field.name).getD (schema.blank planned.field.type))) :
      Decodes schema decoded (.map entries) (.record record) name target
  | entry {entries before after : Entries} {keyType : ScalarType} {type : Ty} {family : String}
      (order : entries = before ++ (key, value) :: after)
      (earlier : schema.Leaves (.map before) (.map family (.scalar keyType) type) name target left)
      (read : (keyType.read? key).isSome = true)
      (inside : Decodes schema decoded value type key (schema.blank type)) :
      Decodes schema decoded (.map entries) (.map family (.scalar keyType) type) name target
  | item {before after : List Value} {element : Ty} (order : value.asList = before ++ item :: after)
      (earlier : schema.Leaves (.list before) (.sequence element) name target left)
      (inside : Decodes schema decoded item element name (schema.blank element)) :
      Decodes schema decoded value (.sequence element) name target
  /-- An item of an array is assigned to what stands in its place. -/
  | slot {before after : List Value} {element : Ty} {length : Nat}
      (order : value.asList.take length = before ++ item :: after)
      (earlier : schema.Leaves (.list before) (.array element length) name target left)
      (held : (schema.slots element length target)[before.length]? = some old)
      (inside : Decodes schema decoded item element name old) :
      Decodes schema decoded value (.array element length) name target

end Schema

/-- Every demand is answered by some registry. -/
theorem Registry.exists_answers (schema : Schema) (demand : Demand) :
    ∃ registry : Registry, registry.Coherent schema ∧ Answers schema {} registry demand := by
  obtain ⟨requested, decoded⟩ := demand
  have asked : ∃ registry : Registry, Answers schema {} registry { requested } := by
    induction requested using List.reverseRecOn with
    | nil => exact ⟨{}, (empty_coherent schema).answers⟩
    | append_singleton before type ih =>
      obtain ⟨registry, answers⟩ := ih
      exact ⟨_, answers.link type⟩
  induction decoded using List.reverseRecOn with
  | nil => exact asked.imp fun registry answers => ⟨answers.coherent, answers⟩
  | append_singleton before name ih =>
    obtain ⟨registry, -, answers⟩ := ih
    exact ⟨_, (answers.plan name).coherent, answers.plan name⟩

/-- Whether a value can be assigned and what is left of the target does not depend on what has been asked for. -/
theorem Schema.leaves_iff {schema : Schema} (demand : Demand) : schema.Leaves value type name target after ↔
    (schema.assign value type name demand target).error? = none ∧
      (schema.assign value type name demand target).target = after := by
  obtain ⟨registry, coherent, answers⟩ := Registry.exists_answers schema demand
  have new := schema.assign_mirrors value type name {} {} target (Registry.empty_coherent schema).answers
  have here := schema.assign_mirrors value type name registry demand target answers
  have again := schema.assign_mirrors value type name registry {} target coherent.answers
  have same : (schema.assign value type name demand target).error? =
      (schema.assign value type name ({} : Registry) target).error? :=
    here.error?.symm.trans (again.error?.trans new.error?.symm)
  have equal : (schema.assign value type name demand target).target =
      (schema.assign value type name ({} : Registry) target).target :=
    here.target.symm.trans (again.target.trans new.target.symm)
  rw [same, equal]
  exact ⟨fun leaves => ⟨leaves.error?, leaves.target⟩, fun both => ⟨both.1, both.2⟩⟩

/-- An assignment that asks for no types, and for the plans of certain records. -/
structure Assigned.Learns (done : Assigned Demand) (demand : Demand) (decoded : String → Prop) : Prop where
  requested : done.registry.requested = demand.requested
  exact (record : String) : record ∈ done.registry.decoded ↔ record ∈ demand.decoded ∨ decoded record

namespace Assigned.Learns
variable {done : Assigned Demand} {demand : Demand} {decoded more : String → Prop}

theorem of_iff (learns : done.Learns demand decoded) (same : ∀ record, decoded record ↔ more record) :
    done.Learns demand more where
  requested := learns.requested
  exact record := (learns.exact record).trans (or_congr_right (same record))

theorem nothing (same : done.registry = demand) (none : ∀ record, ¬ decoded record) : done.Learns demand decoded where
  requested := congrArg Demand.requested same
  exact record := by rw [same, or_iff_left (none record)]

theorem part (learns : done.Learns demand decoded) (whole : Data → Data) (wrap : Error → Error) :
    (done.part whole wrap).Learns demand decoded := ⟨learns.requested, learns.exact⟩

/-- What comes second asks for something only if what comes first does not fail. -/
theorem seq {next : Assigned Demand} (first : done.Learns demand decoded) (second : next.Learns done.registry more) :
    next.Learns demand fun record => decoded record ∨ more record where
  requested := second.requested.trans first.requested
  exact record := by rw [second.exact, first.exact, or_assoc]

theorem andThen {next : Demand → Data → Assigned Demand} (first : done.Learns demand decoded)
    (second : (next done.registry done.target).Learns done.registry more) :
    (done.andThen next).Learns demand fun record => decoded record ∨ done.error? = none ∧ more record := by
  cases ended : done.error? with
  | none =>
    rw [andThen_of_done ended]
    exact (first.seq second).of_iff fun record => by simp
  | some e =>
    rw [Assigned.andThen, ended]
    exact first.of_iff fun record => by simp

end Assigned.Learns

namespace Assignment
variable {schema : Schema} {demand : Demand}

/-- What is no record has no fields. -/
theorem fields_stray {plan : Plan} (assigns : Keyed (Assignment σ)) {registry : σ}
    (stray : ∀ slots, target ≠ .record slots) : fields schema plan assigns registry target = { target, registry } := by
  induction assigns with
  | nil => rfl
  | cons entry rest ih =>
    unfold fields
    split
    · exact absurd rfl (stray _)
    · exact ih

theorem fields_learns {entries : Entries} (each : ∀ entry ∈ entries, ∀ type name demand target,
      (schema.assign entry.2 type name demand target).Learns demand fun record =>
        schema.Decodes record entry.2 type name target) (plan : Plan) (demand : Demand) (target : Data) :
    (fields schema plan (entries.map fun entry => (entry.1, schema.assign entry.2)) demand target).Learns demand
      fun record => ∃ before entry after, entries = before ++ entry :: after ∧ ∃ planned slots,
        let done := fields schema plan (before.map fun entry => (entry.1, schema.assign entry.2)) demand target
        (done.error? = none ∧ done.target = .record slots) ∧ plan.find? entry.1 = some planned ∧
          schema.Decodes record entry.2 planned.field.type planned.tag.name
            ((Keyed.get? slots planned.field.name).getD (schema.blank planned.field.type)) := by
  induction entries generalizing demand target with
  | nil => exact .nothing rfl fun record => not_split_nil
  | cons entry rest ih =>
    obtain ⟨here, later⟩ := List.forall_mem_cons.1 each
    obtain ⟨key, value⟩ := entry
    rw [List.map_cons]
    cases found : plan.find? key with
    | none =>
      rw [fields_pass found]
      refine (ih later demand target).of_iff fun record => ?_
      simp only [exists_split_cons, List.map_cons, fields_pass found]
      simp [found]
    | some planned =>
      by_cases slotted : ∃ slots, target = .record slots
      · obtain ⟨(slots : Keyed Data), rfl⟩ := slotted
        rw [fields_take found]
        have first := (here planned.field.type planned.tag.name demand
          ((slots.get? planned.field.name).getD (schema.blank planned.field.type))).part
            (fun data => .record (slots.put planned.field.name data)) (.inField planned.field.name)
        refine (first.andThen (ih later _ _)).of_iff fun record => ?_
        simp only [exists_split_cons, List.map_cons, List.map_nil, fields_take found]
        refine or_congr ⟨fun decodes => ?_, ?_⟩ ⟨?_, ?_⟩
        · exact ⟨planned, slots, ⟨rfl, rfl⟩, found, decodes⟩
        · rintro ⟨planned', slots', ⟨-, same⟩, found', decodes⟩
          cases same
          cases found.symm.trans found'
          exact decodes
        · rintro ⟨ok, before, entry, after, split, planned', slots', ⟨done, left⟩, rest⟩
          refine ⟨before, entry, after, split, planned', slots', ?_, rest⟩
          rw [Assigned.andThen_of_done ok]
          exact ⟨done, left⟩
        · rintro ⟨before, entry, after, split, planned', slots', ⟨done, left⟩, rest⟩
          obtain ⟨ok, done⟩ := Assigned.andThen_error?.1 done
          rw [Assigned.andThen_of_done ok] at left
          exact ⟨ok, before, entry, after, split, planned', slots', ⟨done, left⟩, rest⟩
      · have stray : ∀ slots, target ≠ .record slots := fun slots same => slotted ⟨slots, same⟩
        refine .nothing (by rw [fields_stray _ stray]) fun record => ?_
        rintro ⟨before, entry, after, split, planned', slots, ⟨-, left⟩, -⟩
        rw [fields_stray _ stray] at left
        exact stray slots left

theorem entries_learns {entries : Entries} {type : Ty} (each : ∀ entry ∈ entries, ∀ name demand target,
      (schema.assign entry.2 type name demand target).Learns demand fun record =>
        schema.Decodes record entry.2 type name target) (key : ScalarType) (target : Data) :
    (Assignment.entries schema key type (entries.map fun entry => (entry.1, schema.assign entry.2)) demand
      target).Learns demand fun record => ∃ before entry after, entries = before ++ entry :: after ∧
        (Assignment.entries schema key type (before.map fun entry => (entry.1, schema.assign entry.2)) demand
          target).error? = none ∧ (key.read? entry.1).isSome = true ∧
            schema.Decodes record entry.2 type entry.1 (schema.blank type) := by
  induction entries generalizing demand target with
  | nil => exact .nothing rfl fun record => not_split_nil
  | cons entry rest ih =>
    obtain ⟨here, later⟩ := List.forall_mem_cons.1 each
    obtain ⟨name, value⟩ := entry
    rw [List.map_cons]
    cases read : key.read? name with
    | none =>
      refine .nothing (by unfold Assignment.entries; rw [read]; rfl) fun record => ?_
      rw [exists_split_cons]
      rintro (⟨-, readable, -⟩ | ⟨before, entry, after, split, ok, -⟩)
      · rw [read] at readable
        cases readable
      · exact entries_unread read _ ok
    | some scalar =>
      have first := here name demand (schema.blank type)
      simp only [entries_take read]
      refine ((first.part _ _).andThen (ih later _)).of_iff fun record => ?_
      simp only [exists_split_cons, List.map_cons, List.map_nil, entries_take read, Assigned.andThen_error?]
      refine or_congr ⟨fun decodes => ⟨rfl, by rw [read]; rfl, decodes⟩, fun split => split.2.2⟩ ⟨?_, ?_⟩
      · rintro ⟨ok, before, entry, after, split, done, rest⟩
        exact ⟨before, entry, after, split, ⟨ok, done⟩, rest⟩
      · rintro ⟨before, entry, after, split, ⟨ok, done⟩, rest⟩
        exact ⟨ok, before, entry, after, split, done, rest⟩

theorem items_learns {values : List Value} {type : Ty} {name : String} (each : ∀ value ∈ values, ∀ demand target,
      (schema.assign value type name demand target).Learns demand fun record =>
        schema.Decodes record value type name target) (done : List Data) :
    (Assignment.items schema type name (values.map schema.assign) done demand).Learns demand fun record =>
      ∃ before value after, values = before ++ value :: after ∧
        (Assignment.items schema type name (before.map schema.assign) done demand).error? = none ∧
          schema.Decodes record value type name (schema.blank type) := by
  induction values generalizing demand done with
  | nil => exact .nothing rfl fun record => not_split_nil
  | cons value rest ih =>
    obtain ⟨here, later⟩ := List.forall_mem_cons.1 each
    have first := here demand (schema.blank type)
    simp only [exists_split_cons, List.map_cons, List.map_nil]
    by_cases ok : (schema.assign value type name demand (schema.blank type)).error? = none
    · simp only [items_done done ok]
      refine (first.seq (ih later _)).of_iff fun record => or_congr_left ?_
      exact (and_iff_right rfl).symm
    · have registry : (Assignment.items schema type name (schema.assign value :: rest.map schema.assign) done
          demand).registry = (schema.assign value type name demand (schema.blank type)).registry := by
        obtain ⟨e, failed⟩ := Option.ne_none_iff_exists'.1 ok
        rw [Assignment.items, failed]
        rfl
      refine .of_iff ⟨registry ▸ first.requested, registry ▸ first.exact⟩ fun record => ?_
      rw [or_iff_left]
      · exact (and_iff_right rfl).symm
      · rintro ⟨before, value, after, split, done, -⟩
        exact items_failed _ ok done

theorem inPlace_learns {values : List Value} {type : Ty} {name : String} (each : ∀ value ∈ values, ∀ demand target,
      (schema.assign value type name demand target).Learns demand fun record =>
        schema.Decodes record value type name target) (done slots : List Data) :
    (inPlace type name (values.map schema.assign) done slots demand).Learns demand fun record =>
      ∃ before value after, values = before ++ value :: after ∧
        (inPlace type name (before.map schema.assign) done slots demand).error? = none ∧
          ∃ old, slots[before.length]? = some old ∧ schema.Decodes record value type name old := by
  induction values generalizing demand done slots with
  | nil => exact .nothing (by cases slots <;> rfl) fun record => not_split_nil
  | cons value rest ih =>
    obtain ⟨here, later⟩ := List.forall_mem_cons.1 each
    cases slots with
    | nil =>
      refine .nothing rfl fun record => ?_
      rintro ⟨before, value, after, -, -, old, held, -⟩
      cases held
    | cons slot slots =>
      have first := here demand slot
      simp only [exists_split_cons, List.map_cons, List.map_nil, List.length_cons, List.getElem?_cons_succ]
      have alone (record : String) : schema.Decodes record value type name slot ↔
          (inPlace type name [] done (slot :: slots) demand).error? = none ∧
            ∃ old, (slot :: slots)[0]? = some old ∧ schema.Decodes record value type name old :=
        ⟨fun decodes => ⟨rfl, slot, rfl, decodes⟩, fun ⟨_, old, held, decodes⟩ => Option.some.inj held ▸ decodes⟩
      by_cases ok : (schema.assign value type name demand slot).error? = none
      · simp only [inPlace_done done slots ok]
        exact (first.seq (ih later _ _)).of_iff fun record => or_congr_left (alone record)
      · have registry : (inPlace type name (schema.assign value :: rest.map schema.assign) done (slot :: slots)
            demand).registry = (schema.assign value type name demand slot).registry := by
          obtain ⟨e, failed⟩ := Option.ne_none_iff_exists'.1 ok
          rw [inPlace, failed]
          rfl
        refine .of_iff ⟨registry ▸ first.requested, registry ▸ first.exact⟩ fun record => ?_
        rw [or_iff_left, alone record]
        · rfl
        · rintro ⟨before, value, after, split, done, -⟩
          exact inPlace_failed _ _ ok done

end Assignment

namespace Schema
variable {schema : Schema}

theorem record_learns {entries : Entries} (record : String) (each : ∀ entry ∈ entries, ∀ type name demand target,
      (schema.assign entry.2 type name demand target).Learns demand fun decoded =>
        schema.Decodes decoded entry.2 type name target) (name : String) (demand : Demand) (target : Data) :
    (schema.assign (.map entries) (.record record) name demand target).Learns demand fun decoded =>
      schema.Decodes decoded (.map entries) (.record record) name target := by
  have leaves (before : Entries) (after : Data) : schema.Leaves (.map before) (.record record) name target after ↔ _ :=
    schema.leaves_iff demand
  simp only [assign_record] at leaves ⊢
  have inside := Assignment.fields_learns each (schema.plan record) (Directory.plan schema record demand).2 target
  refine ⟨inside.requested, fun decoded => ?_⟩
  have known : decoded ∈ (Directory.plan schema record demand).2.decoded ↔
      decoded ∈ demand.decoded ∨ decoded = record := by
    show decoded ∈ demand.decoded ++ [record] ↔ _
    rw [List.mem_append, List.mem_singleton]
  rw [show (Directory.plan schema record demand).1 = schema.plan record from rfl] at leaves ⊢
  rw [inside.exact, known, or_assoc]
  refine or_congr_right ⟨?_, fun decodes => ?_⟩
  · rintro (rfl | ⟨before, entry, after, order, planned, slots, done, taken, inside⟩)
    · exact .here
    · exact .field order ((leaves before _).2 done) taken inside
  · cases decodes with
    | here => exact .inl rfl
    | field order earlier taken inside => exact .inr ⟨_, _, _, order, _, _, (leaves _ _).1 earlier, taken, inside⟩

theorem map_learns {entries : Entries} {type : Ty} (family : String) (key : ScalarType)
    (each : ∀ entry ∈ entries, ∀ name demand target, (schema.assign entry.2 type name demand target).Learns demand
      fun record => schema.Decodes record entry.2 type name target) (name : String) (demand : Demand) (target : Data) :
    (schema.assign (.map entries) (.map family (.scalar key) type) name demand target).Learns demand fun record =>
      schema.Decodes record (.map entries) (.map family (.scalar key) type) name target := by
  have leaves (before : Entries) (after : Data) :
      schema.Leaves (.map before) (.map family (.scalar key) type) name target after ↔ _ := schema.leaves_iff demand
  simp only [assign_map] at leaves ⊢
  refine (Assignment.entries_learns each key target).of_iff fun record => ⟨?_, fun decodes => ?_⟩
  · rintro ⟨before, entry, after, order, done, read, inside⟩
    exact .entry order ((leaves before _).2 ⟨done, rfl⟩) read inside
  · cases decodes with
    | entry order earlier read inside => exact ⟨_, _, _, order, ((leaves _ _).1 earlier).1, read, inside⟩

theorem sequence_learns {value : Value} {element : Ty} {name : String} (each : ∀ item ∈ value.asList, ∀ demand target,
      (schema.assign item element name demand target).Learns demand fun record =>
        schema.Decodes record item element name target) (demand : Demand) (target : Data) :
    (schema.assign value (.sequence element) name demand target).Learns demand fun record =>
      schema.Decodes record value (.sequence element) name target := by
  have leaves (before : List Value) (after : Data) :
      schema.Leaves (.list before) (.sequence element) name target after ↔ _ := schema.leaves_iff demand
  simp only [assign_sequence] at leaves ⊢
  refine (Assignment.items_learns each []).of_iff fun record => ⟨?_, fun decodes => ?_⟩
  · rintro ⟨before, item, after, order, done, inside⟩
    exact .item order ((leaves before _).2 ⟨done, rfl⟩) inside
  · cases decodes with | item order earlier inside => exact ⟨_, _, _, order, ((leaves _ _).1 earlier).1, inside⟩

theorem array_learns {value : Value} {element : Ty} {name : String} (length : Nat)
    (each : ∀ item ∈ value.asList, ∀ demand target, (schema.assign item element name demand target).Learns demand
      fun record => schema.Decodes record item element name target) (demand : Demand) (target : Data) :
    (schema.assign value (.array element length) name demand target).Learns demand fun record =>
      schema.Decodes record value (.array element length) name target := by
  have leaves {before after : List Value} {item : Value} (order : value.asList.take length = before ++ item :: after)
      (left : Data) : schema.Leaves (.list before) (.array element length) name target left ↔
        let done := Assignment.inPlace element name (before.map schema.assign) [] (schema.slots element length target)
          demand
        done.error? = none ∧ done.target = left := by
    have room : before.length ≤ length := by
      have lengths := congrArg List.length order
      simp only [List.length_take, List.length_append, List.length_cons] at lengths
      omega
    rw [schema.leaves_iff demand, assign_array, Value.asList, List.take_of_length_le room]
  rw [assign_array]
  refine (Assignment.inPlace_learns (fun item held => each item (List.mem_of_mem_take held)) [] _).of_iff fun record =>
    ⟨?_, fun decodes => ?_⟩
  · rintro ⟨before, item, after, order, done, old, held, inside⟩
    exact .slot order ((leaves order _).2 ⟨done, rfl⟩) held inside
  · cases decodes with
    | slot order earlier held inside => exact ⟨_, _, _, order, ((leaves order _).1 earlier).1, _, held, inside⟩

/-- Assigning a value asks for the plans of the records that it comes by. -/
theorem assign_learns (schema : Schema) (value : Value) (type : Ty) (name : String) (demand : Demand) (target : Data) :
    (schema.assign value type name demand target).Learns demand fun record =>
      schema.Decodes record value type name target := by
  induction value, type using Value.assign_induction generalizing name demand target with
  | misfit misfits =>
    obtain ⟨e, -, refused⟩ := schema.assign_misfit (σ := Demand) misfits
    rw [refused]
    refine .nothing rfl fun record decodes => ?_
    cases misfits with
    | list | unsupported => cases decodes
    | noRecord other | noMap other => cases decodes <;> exact other _ rfl
    | noKey other => cases decodes with | entry => exact other _ rfl
  | scalar type single =>
    rw [assign_single _ _ _ _ single, assignScalar]
    split <;> exact .nothing rfl nofun
  | dynamic value =>
    rw [assign_dynamic]
    exact .nothing rfl nofun
  | native value =>
    rw [assign_native]
    exact .nothing rfl nofun
  | custom value custom =>
    rw [assign_custom, assignCustom]
    split <;> exact .nothing rfl nofun
  | nothing target =>
    refine .nothing rfl fun record decodes => ?_
    cases decodes with | option visible => exact visible rfl
  | option type visible ih =>
    rw [assign_option _ _ _ _ _ visible]
    refine ((ih name demand _).part _ _).of_iff fun record => ⟨.option visible, fun decodes => ?_⟩
    cases decodes with | option _ inside => exact inside
  | box value type ih =>
    rw [assign_box]
    refine ((ih name demand _).part _ _).of_iff fun record => ⟨.box, fun decodes => ?_⟩
    cases decodes with | box inside => exact inside
  | record entries record ih => exact record_learns record ih name demand target
  | map entries family key type ih => exact map_learns family key ih name demand target
  | sequence value element ih => exact sequence_learns (fun item held => ih item held name) demand target
  | array value element length ih => exact array_learns length (fun item held => ih item held name) demand target

/-- Unmarshaling asks for no types, and for the plans of the records that it comes by in the document. -/
theorem unmarshal_learns (schema : Schema) (type : Ty) (xml : List UInt8) (target : Data) :
    (schema.unmarshal type xml target ({} : Demand)).Learns {} fun record => ∃ value,
      Value.ofStream (.ofBytes xml) = .ok value ∧ schema.Decodes record value type ({} : Settings).rootTag target := by
  unfold unmarshal
  split
  · refine .nothing (by split <;> rfl) fun record => ?_
    rintro ⟨value, -, decodes⟩
    cases decodes
  · cases read : Value.ofStream (.ofBytes xml) with
    | error e =>
      refine .nothing rfl fun record => ?_
      rintro ⟨value, accepted, -⟩
      cases accepted
    | ok value =>
      refine (schema.assign_learns value type _ {} target).of_iff fun record => ⟨fun decodes => ⟨value, rfl, decodes⟩, ?_⟩
      rintro ⟨_, same, decodes⟩
      cases same
      exact decodes

end Schema

end XmlBinding
