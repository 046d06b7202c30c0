import XmlBinding.Proofs.Restoring

/-! What portable values are written as. Each is written as elements of which a value is read that restores it in any
target that can receive it. A blank target can if blank records are as blank as their fields: where nothing is written,
the value is blank too. -/
namespace XmlBinding
open Text

/-- The contents of several elements of one name are listed as they stand. -/
theorem Value.asList_of_gathered {contents : List Value}
    (plain : ∀ content ∈ contents, ∃ entries, content = .map entries)
    (gathered : Value.gathered contents = some value) : value.asList = contents := by
  rcases contents with _ | ⟨first, _ | ⟨second, more⟩⟩
  · cases gathered
  · cases gathered
    obtain ⟨entries, rfl⟩ := plain _ (List.mem_singleton_self _)
    rfl
  · cases gathered
    rfl

namespace Schema
variable {schema : Schema}

/-- What a value of a type is written as: elements with these contents, of which the value is restored; where there
are none, it is blank. -/
structure Conveyed (schema : Schema) (type : Ty) (data : Data) (contents : List Value) : Prop where
  children (name : String) (more : Forest) :
    (schema.sketch data type name more).children = contents.map (name, ·) ++ more.children
  plain : ∀ content ∈ contents, ∃ entries, content = .map entries
  single : type.isSingle = true → ∃ content, contents = [content]
  blank : contents = [] → data = schema.blank type
  restored {value : Value} : Value.gathered contents = some value → (schema.assign value).Restores schema type data

/-- One element of which a value is restored. -/
theorem Conveyed.one {entries : Entries}
    (children : ∀ name more, (schema.sketch data type name more).children = (name, .map entries) :: more.children)
    (restores : (schema.assign (.map entries)).Restores schema type data) :
    schema.Conveyed type data [.map entries] where
  children := children
  plain := List.forall_mem_singleton.2 ⟨entries, rfl⟩
  single _ := ⟨_, rfl⟩
  blank none := by cases none
  restored same := by cases same; exact restores

theorem conveyed_scalar (holds : ScalarType.Holds type scalar) :
    ∃ contents, schema.Conveyed (.scalar type) (.scalar scalar) contents := by
  refine ⟨[.map (if scalar.format = "" then [] else [(textKey, .string scalar.format)])], .one (fun name more => ?_)
    (restores_scalar holds ?_ rfl)⟩
  · show (_, Value.ofParts [] [] scalar.format none) :: more.children = _
    rw [Value.ofParts]
    split <;> rfl
  · split
    · rename_i none
      rw [none]
      rfl
    · rfl

theorem conveyed_absent : ∃ contents, schema.Conveyed (.option type) .absent contents :=
  ⟨[.map []], .one (fun _ _ => rfl) fun _ registry _ coherent _ => ⟨registry, coherent, rfl⟩⟩

theorem Conveyed.present {data : Data} (conveyed : schema.Conveyed type data contents) (single : type.isSingle = true)
    (visible : ∀ name, schema.sketch data type name .nil ≠ Sketch.emptyElement name .nil) :
    schema.Conveyed (.option type) (.present data) contents := by
  obtain ⟨content, rfl⟩ := conveyed.single single
  obtain ⟨entries, rfl⟩ := conveyed.plain content (List.mem_singleton_self _)
  refine .one conveyed.children (restores_option (conveyed.restored rfl) fun empty => visible "" ?_)
  refine Forest.eq_of_empty ?_
  rw [conveyed.children, empty]
  rfl

theorem Conveyed.box (conveyed : schema.Conveyed type data contents) :
    schema.Conveyed (.box type) (.present data) contents where
  children := conveyed.children
  plain := conveyed.plain
  single := conveyed.single
  blank none := by rw [conveyed.blank none, blank_box]
  restored some := restores_box (conveyed.restored some)

section
variable {element : Ty} {items : List Data} {content : Data → Value}
  (each : ∀ item ∈ items, schema.Conveyed element item [content item])
include each

theorem children_items (name : String) (more : Forest) :
    (Sketch.items element name (schema.sketchItems items) more).children =
      (items.map content).map (name, ·) ++ more.children := by
  induction items with
  | nil => rfl
  | cons item rest ih =>
    obtain ⟨here, later⟩ := List.forall_mem_cons.1 each
    rw [sketchItems, List.map_cons, List.map_cons, List.cons_append, ← ih later]
    exact here.children name _

theorem plain_items : ∀ value ∈ items.map content, ∃ entries, value = .map entries := by
  intro value member
  obtain ⟨item, held, rfl⟩ := List.mem_map.1 member
  exact (each item held).plain _ (List.mem_singleton_self _)

theorem restores_items : ∀ item ∈ items, (schema.assign (content item)).Restores schema element item :=
  fun item member => (each item member).restored rfl

theorem conveyed_sequence : schema.Conveyed (.sequence element) (.list items) (items.map content) where
  children := children_items each
  plain := plain_items each
  single isSingle := by cases isSingle
  blank none := by rw [List.map_eq_nil_iff.1 none, blank_sequence]
  restored some name registry target coherent receives := by
    cases receives with | sequence blanks =>
    obtain ⟨known, coherent, done⟩ := Assignment.items_restored (restores_items each) blanks name [] coherent
    refine ⟨known, coherent, ?_⟩
    rw [assign_sequence, Value.asList_of_gathered (plain_items each) some, List.map_map]
    rwa [List.map_id', List.nil_append] at done

theorem conveyed_array : schema.Conveyed (.array element items.length) (.list items) (items.map content) where
  children := children_items each
  plain := plain_items each
  single isSingle := by cases isSingle
  blank none := by
    rw [List.map_eq_nil_iff.1 none, blank_array]
    rfl
  restored some name registry target coherent receives := by
    cases receives with | array size slots =>
    have targets : List.Forall₂ (fun item old => schema.Receives element old item) items
        (schema.slots element items.length target) :=
      List.forall₂_iff_get.2 ⟨size.symm, fun index inside inside' =>
        slots index _ _ (List.getElem?_eq_getElem inside') (List.getElem?_eq_getElem inside)⟩
    obtain ⟨known, coherent, done⟩ := Assignment.inPlace_restored (restores_items each) targets name [] coherent
    refine ⟨known, coherent, ?_⟩
    rw [assign_array, Value.asList_of_gathered (plain_items each) some, List.take_of_length_le (List.length_map _).le,
      List.map_map]
    rwa [List.map_id', List.nil_append] at done

end

/-- The elements of a map of values that are one element each. -/
theorem children_entries {type : Ty} {entries : Keyed Data} {content : String × Data → Value}
    (each : ∀ entry ∈ entries, schema.Conveyed type entry.2 [content entry]) :
    (Sketch.entries type (schema.sketchEntries entries) .nil).children =
      entries.map fun entry => (entry.1, content entry) := by
  induction entries with
  | nil => rfl
  | cons entry rest ih =>
    obtain ⟨here, later⟩ := List.forall_mem_cons.1 each
    rw [List.map_cons, ← ih later]
    exact here.children entry.1 _

theorem conveyed_map {type : Ty} {entries : Keyed Data} {content : String × Data → Value} (family : String)
    (ascending : entries.Ascending) (each : ∀ entry ∈ entries, schema.Conveyed type entry.2 [content entry]) :
    schema.Conveyed (.map family .string type) (.map entries)
      [.map (entries.map fun entry => (entry.1, content entry))] := by
  have names := ascending.distinct.values content
  refine .one (fun name more => ?_) fun name registry target coherent receives => ?_
  · have sorted : (schema.sketchEntries entries).sort = schema.sketchEntries entries := by
      rw [sketchEntries_eq_map, Keyed.sort_map, Keyed.sort_of_sorted ascending.sorted]
    rw [sketch_map, sorted, Forest.children, children_entries each, Value.ofParts_children names]
  · cases receives with | @map _ _ _ found _ among blanks =>
    let assigns : Keyed (Assignment Registry) := entries.map fun entry => (entry.1, schema.assign (content entry))
    have restores : ∀ assign ∈ assigns, ∃ data, entries.get? assign.1 = some data ∧
        schema.Receives type (schema.blank type) data ∧ assign.2.Restores schema type data := by
      intro assign member
      obtain ⟨entry, held, rfl⟩ := List.mem_map.1 member
      exact ⟨entry.2, Keyed.get?_of_mem ascending.distinct held, blanks entry held, (each entry held).restored rfl⟩
    have same : assigns.keys = entries.keys := List.map_map
    have sorted : Keyed.Ascending found := List.pairwise_map.1 ((List.pairwise_map.2 ascending).sublist among)
    have others (key : String) (absent : key ∉ assigns.keys) : Keyed.get? found key = entries.get? key := by
      rw [same] at absent
      rw [Keyed.get?_eq_none_iff.2 absent, Keyed.get?_eq_none_iff.2 fun held => absent (among.subset held)]
    obtain ⟨known, coherent, done⟩ := Assignment.entries_restored ascending restores sorted others coherent
    refine ⟨known, coherent, ?_⟩
    rw [assign_map, List.map_map]
    exact done

/-- What fields put under their names is found there, if no two have the same one. -/
theorem under_fields {list : List PlannedField} (apart : (list.map (·.tag.name)).Nodup) {planned : PlannedField}
    (member : planned ∈ list) (follow : PlannedField → List α) :
    Keyed.under (list.flatMap fun planned => (follow planned).map (planned.tag.name, ·)) planned.tag.name =
      follow planned := by
  have elsewhere {list : List PlannedField} (absent : ∀ other ∈ list, other.tag.name ≠ planned.tag.name) :
      Keyed.under (list.flatMap fun planned => (follow planned).map (planned.tag.name, ·)) planned.tag.name = [] := by
    induction list with
    | nil => rfl
    | cons first rest ih =>
      obtain ⟨here, later⟩ := List.forall_mem_cons.1 absent
      rw [List.flatMap_cons, Keyed.under_append, Keyed.under_same, if_neg here, ih later, List.append_nil]
  induction list with
  | nil => cases member
  | cons first rest ih =>
    obtain ⟨fresh, apart⟩ := List.nodup_cons.1 apart
    rw [List.flatMap_cons, Keyed.under_append, Keyed.under_same]
    rcases List.mem_cons.1 member with rfl | member
    · rw [if_pos rfl, elsewhere fun other held same => fresh (List.mem_map.2 ⟨other, held, same⟩), List.append_nil]
    · rw [if_neg fun same => fresh (List.mem_map.2 ⟨planned, member, same.symm⟩), ih apart member, List.nil_append]

namespace Addressable
variable {record : String} (addressable : schema.Addressable record)
include addressable

/-- Fields of one role, in whatever order, have names of their own if their keys tell their names. -/
theorem names {list : List PlannedField} (role : FieldRole) (perm : list.Perm ((schema.plan record).withRole role))
    (key : String → String)
    (keyed : ∀ planned : PlannedField, planned.tag.role = role → planned.tag.key = key planned.tag.name) :
    (list.map (·.tag.name)).Nodup := by
  have keys : (((schema.plan record).withRole role).map (·.tag.key)).Nodup :=
    addressable.keys.sublist (List.filter_sublist.map _)
  have same : ((schema.plan record).withRole role).map (·.tag.key) =
      (((schema.plan record).withRole role).map (·.tag.name)).map key := by
    rw [List.map_map]
    exact List.map_congr_left fun planned member => keyed planned (Plan.mem_withRole.1 member).2
  rw [same] at keys
  exact (perm.map _).nodup_iff.2 (.of_map _ keys)

/-- The one field of a role whose key is fixed. -/
theorem getLast?_withRole {planned : PlannedField} (member : planned ∈ (schema.plan record).fields) (key : String)
    (keyed : ∀ other : PlannedField, other.tag.role = planned.tag.role → other.tag.key = key) :
    ((schema.plan record).withRole planned.tag.role).getLast? = some planned := by
  have held := Plan.mem_withRole.2 ⟨member, rfl⟩
  cases found : ((schema.plan record).withRole planned.tag.role).getLast? with
  | none => rw [List.getLast?_eq_none_iff.1 found] at held; cases held
  | some other =>
    obtain ⟨member', role⟩ := Plan.mem_withRole.1 (List.mem_of_getLast? found)
    rw [addressable.eq_of_key member' member ((keyed other role).trans (keyed planned rfl).symm)]

end Addressable

/-- What is left of a field that is written as elements with these contents. -/
def left (planned : PlannedField) (data : Data) (contents : List Value) : List Value :=
  if planned.tag.omitEmpty && planned.field.type.isEmpty data then [] else contents

/-- The parts of the element that a record is written as, by what its fields are written as. -/
def recordParts (schema : Schema) (record : String) (slots : Keyed Data) (contents : PlannedField → List Value) :
    Parts Value :=
  let form := (schema.plan record).form
  let text? := Sketch.text? schema slots
  { attributes := (Sketch.attributes schema slots form.attributes).map fun entry => (entry.1, .string entry.2)
    children := ((schema.plan record).withRole .element).flatMap fun planned =>
      (left planned (planned.of slots) (contents planned)).map (planned.tag.name, ·)
    text? := (form.characters?.bind text?).map .string
    cdata? := (form.cdata?.bind text?).map .string }

section
variable {record : String} (addressable : schema.Addressable record) {slots : Keyed Data}
  {contents : PlannedField → List Value}
include addressable

theorem recordParts_named : (schema.recordParts record slots contents).Named := by
  intro entry member
  obtain ⟨planned, held, member⟩ := List.mem_flatMap.1 member
  obtain ⟨value, -, rfl⟩ := List.mem_map.1 member
  exact (isName_iff.1 (addressable.named planned (Plan.mem_withRole.1 held).1)).isChildKey

/-- What stands under the key of a field that is a child. -/
theorem get?_child {planned : PlannedField} (member : planned ∈ (schema.plan record).fields)
    (role : planned.tag.role = .element)
    (plain : ∀ value ∈ contents planned, ∃ entries, value = .map entries) :
    ((schema.recordParts record slots contents).entries Value.coalesce).get? planned.tag.key =
      Value.gathered (left planned (planned.of slots) (contents planned)) := by
  have child := (isName_iff.1 (addressable.named planned member)).isChildKey
  have key : planned.tag.key = planned.tag.name := by rw [FieldTag.key, role]
  have names := addressable.names .element (.refl _) id fun other isElement => by rw [FieldTag.key, isElement]; rfl
  have under : (schema.recordParts record slots contents).children.under planned.tag.name =
      left planned (planned.of slots) (contents planned) :=
    under_fields names (Plan.mem_withRole.2 ⟨member, role⟩) fun planned =>
      left planned (planned.of slots) (contents planned)
  rw [key, Parts.get?_child _ child, under, Value.joinOnto_coalesce]
  intro value held
  rw [left] at held
  split at held
  · cases held
  · obtain ⟨entries, rfl⟩ := plain value held
    rfl

/-- What stands under the key of a field that is a text. -/
theorem get?_literal {planned : PlannedField} (member : planned ∈ (schema.plan record).fields)
    (role : planned.tag.role ≠ .element) :
    ((schema.recordParts record slots contents).entries Value.coalesce).get? planned.tag.key =
      (Sketch.text? schema slots planned).map .string := by
  have named : (schema.recordParts record slots contents).Named := recordParts_named addressable
  have only (key : String) (keyed : ∀ other : PlannedField, other.tag.role = planned.tag.role → other.tag.key = key) :=
    addressable.getLast?_withRole member key keyed
  have key : planned.tag.key = _ := FieldTag.key.eq_def planned.tag
  match is : planned.tag.role with
  | .element => exact absurd is role
  | .attribute =>
    rw [is] at key
    have held := Plan.mem_withRole.2 ⟨member, is⟩
    have perm : (schema.plan record).form.attributes.Perm ((schema.plan record).withRole .attribute) := by
      rw [Plan.form]
      refine ((Keyed.sort_perm _).map _).trans (.of_eq ?_)
      rw [List.map_map]
      exact List.map_id _
    have names := addressable.names .attribute perm attributeKey fun other same => by rw [FieldTag.key, same]
    have under := under_fields names (perm.mem_iff.2 held) fun planned =>
      (Sketch.text? schema slots planned).toList
    rw [key, Parts.get?_attribute _ named, recordParts, Keyed.under_map, Sketch.attributes, under]
    cases Sketch.text? schema slots planned <;> rfl
  | .characters =>
    rw [is] at key only
    rw [key, Parts.get?_text _ named, recordParts]
    dsimp only [Plan.form]
    rw [only textKey fun other same => by rw [FieldTag.key, same]]
    rfl
  | .cdata =>
    rw [is] at key only
    rw [key, Parts.get?_cdata _ named, recordParts]
    dsimp only [Plan.form]
    rw [only cdataKey fun other same => by rw [FieldTag.key, same]]
    rfl

end

theorem children_fields {slots : Keyed Data} {contents : PlannedField → List Value} {list : List PlannedField}
    (conveyed : ∀ planned ∈ list, slots.get? planned.field.name = some (planned.of slots) ∧
      schema.Conveyed planned.field.type (planned.of slots) (contents planned)) :
    ((list.map fun planned => ⟨planned, planned.field.type⟩).foldr (Sketch.child slots
      (schema.sketchEntries slots)) .nil).children =
        list.flatMap fun planned =>
          (left planned (planned.of slots) (contents planned)).map (planned.tag.name, ·) := by
  induction list with
  | nil => rfl
  | cons planned rest ih =>
    obtain ⟨⟨found, here⟩, later⟩ := List.forall_mem_cons.1 conveyed
    rw [List.map_cons, List.foldr_cons, List.flatMap_cons, ← ih later]
    generalize List.foldr _ _ (rest.map _) = more
    rw [Sketch.child, sketchEntries_eq_map, Keyed.get?_map, found]
    dsimp only [Option.getD_some, Option.map_some, left]
    split
    · rfl
    · exact here.children planned.tag.name more

/-- No field has an empty text. -/
theorem text?_ne_empty (schema : Schema) (fields : Keyed Data) (planned : PlannedField) :
    Sketch.text? schema fields planned ≠ some "" := by
  rw [Sketch.text?, fieldText]
  split
  · exact fun same => by cases same
  · split
    · simp [Except.toOption, Option.filter_eq_some_iff]
    · simp [Except.toOption]

section
variable {record : String} (addressable : schema.Addressable record) {slots : Keyed Data} (distinct : slots.Distinct)
  (listed : ∀ planned ∈ (schema.plan record).fields, planned.field.name ∈ slots.keys)
  {contents : PlannedField → List Value}
  (conveyed : ∀ planned ∈ (schema.plan record).fields, planned.tag.role = .element →
    schema.Conveyed planned.field.type (planned.of slots) (contents planned))
  (literals : ∀ planned ∈ (schema.plan record).fields, planned.tag.role ≠ .element →
    schema.Literal planned.field.type (planned.of slots))

include listed conveyed in
/-- A record is written as one element with its parts. -/
theorem children_record (name : String) (more : Forest) :
    (schema.sketch (.record slots) (.record record) name more).children =
      (name, .map ((schema.recordParts record slots contents).entries Value.coalesce)) :: more.children := by
  have inside : ((schema.plan record).form.children.foldr (Sketch.child slots
      (schema.sketchEntries slots)) .nil).children =
        (schema.recordParts record slots contents).children :=
    children_fields fun planned member =>
      have held := Plan.mem_withRole.1 member
      ⟨PlannedField.get?_of (listed planned held.1), conveyed planned held.1 held.2⟩
  have text (text? : Option String) (some : text? ≠ some "") :
      (if text?.getD "" = "" then none else Option.some (Value.string (text?.getD ""))) = text?.map .string := by
    cases text? with
    | none => rfl
    | some text => exact if_neg fun same => some (congrArg Option.some same)
  show (name, Value.ofParts _ _ _ _) :: more.children = _
  rw [inside, Value.ofParts, text]
  · rfl
  · intro same
    obtain ⟨planned, -, same⟩ := Option.bind_eq_some_iff.1 same
    exact text?_ne_empty _ _ _ same

include addressable conveyed in
/-- Nothing stands under the key of a field of which nothing is written. -/
theorem unwritten_iff {planned : PlannedField} (member : planned ∈ (schema.plan record).fields) :
    schema.Unwritten slots planned ↔
      ((schema.recordParts record slots contents).entries Value.coalesce).get? planned.tag.key = none := by
  rw [Unwritten]
  split
  · rename_i role
    have here := conveyed planned member role
    rw [get?_child addressable member role here.plain, Value.gathered_eq_none_iff, left, PlannedField.leftOut,
      ← Forest.children_eq_nil_iff, here.children]
    split <;> simp_all [Forest.children]
  · rename_i role
    rw [get?_literal addressable member role, Option.map_eq_none_iff]

include addressable conveyed literals in
/-- Each field is restored from what stands under its key. -/
theorem field_restored {planned : PlannedField} (member : planned ∈ (schema.plan record).fields)
    (standing : ((schema.recordParts record slots contents).entries Value.coalesce).get? planned.tag.key = some value) :
    (schema.assign value).Restores schema planned.field.type (planned.of slots) := by
  by_cases role : planned.tag.role = .element
  · have here := conveyed planned member role
    rw [get?_child addressable member role here.plain, left] at standing
    split at standing
    · cases standing
    · exact here.restored standing
  · rw [get?_literal addressable member role] at standing
    obtain ⟨text, found, rfl⟩ := Option.map_eq_some_iff.1 standing
    exact (literals planned member role).field.2 text found

include addressable distinct listed conveyed literals in
/-- A record is restored from its element. -/
theorem conveyed_record : schema.Conveyed (.record record) (.record slots)
    [.map ((schema.recordParts record slots contents).entries Value.coalesce)] := by
  refine .one (children_record listed conveyed) fun name registry target coherent receives => ?_
  cases receives with | @record _ found _ shape others unwritten written =>
  let entries := (schema.recordParts record slots contents).entries Value.coalesce
  have once : entries.Distinct := Parts.entries_distinct _ _
  let assigns : Keyed (Assignment Registry) := entries.map fun entry => (entry.1, schema.assign entry.2)
  have standing {assign : String × Assignment Registry} (member : assign ∈ assigns) {planned : PlannedField}
      (some : (schema.plan record).find? assign.1 = some planned) : planned ∈ (schema.plan record).fields ∧
        ∃ value, entries.get? planned.tag.key = Option.some value ∧ assign.2 = schema.assign value := by
    obtain ⟨entry, standing, rfl⟩ := List.mem_map.1 member
    have key : planned.tag.key = entry.1 := by simpa using List.find?_some some
    exact ⟨List.mem_of_find?_eq_some some, entry.2, key ▸ Keyed.get?_of_mem once standing, rfl⟩
  have each : ∀ assign ∈ assigns, ∀ planned, (schema.plan record).find? assign.1 = some planned →
      assign.2.Restores schema planned.field.type (planned.of slots) := by
    intro assign member planned some
    obtain ⟨held, value, standing, same⟩ := standing member some
    exact same ▸ field_restored addressable conveyed literals held standing
  have targets : ∀ assign ∈ assigns, ∀ planned, (schema.plan record).find? assign.1 = some planned →
      schema.Receives planned.field.type (planned.of found) (planned.of slots) := by
    intro assign member planned some
    obtain ⟨held, value, standing, -⟩ := standing member some
    refine written planned held fun none => ?_
    rw [(unwritten_iff addressable conveyed held).1 none] at standing
    cases standing
  -- A slot that no entry reaches is of a field of which nothing is written, or of none that takes part.
  have others' (name : String) (absent : ∀ assign ∈ assigns, ∀ planned,
      (schema.plan record).find? assign.1 = some planned → planned.field.name ≠ name) :
      Keyed.get? found name = slots.get? name := by
    by_cases taken : ∃ planned ∈ (schema.plan record).fields, planned.field.name = name
    · obtain ⟨planned, member, rfl⟩ := taken
      have missing : entries.get? planned.tag.key = none := by
        rw [Keyed.get?_eq_none_iff]
        intro listed
        obtain ⟨entry, standing, key⟩ := List.mem_map.1 listed
        exact absent _ (List.mem_map_of_mem standing) planned (key ▸ addressable.find? member) rfl
      have same := unwritten planned member ((unwritten_iff addressable conveyed member).2 missing)
      rw [PlannedField.get?_of (listed planned member), PlannedField.get?_of (shape ▸ listed planned member), same]
    · exact others name fun planned member same => taken ⟨planned, member, same⟩
  rw [assign_record, show (Directory.plan schema record registry).1 = schema.plan record from
    (coherent.plan_eq record).1]
  exact Assignment.fields_restored distinct listed each shape targets others' (coherent.plan record)

end

/-- Every portable value is restored from what it is written as. -/
theorem Portable.conveyed (portable : schema.Portable type data) :
    ∃ contents, schema.Conveyed type data contents := by
  have alone {α : Type} {type : Ty} {list : List α} {data : α → Data} (single : type.isSingle = true)
      (each : ∀ a ∈ list, ∃ contents, schema.Conveyed type (data a) contents) :
      ∀ a ∈ list, ∃ content, schema.Conveyed type (data a) [content] := by
    intro a member
    obtain ⟨contents, conveyed⟩ := each a member
    obtain ⟨content, rfl⟩ := conveyed.single single
    exact ⟨content, conveyed⟩
  induction portable with
  | scalar holds => exact conveyed_scalar holds
  | absent => exact conveyed_absent
  | present single inside visible ih =>
    obtain ⟨contents, conveyed⟩ := ih
    exact ⟨contents, conveyed.present single visible⟩
  | box inside ih =>
    obtain ⟨contents, conveyed⟩ := ih
    exact ⟨contents, conveyed.box⟩
  | sequence single each ih =>
    choose! content conveyed using alone single ih
    exact ⟨_, conveyed_sequence conveyed⟩
  | array single size each ih =>
    choose! content conveyed using alone single ih
    exact size ▸ ⟨_, conveyed_array conveyed⟩
  | map single ascending names each ih =>
    choose! content conveyed using alone single ih
    exact ⟨_, conveyed_map _ ascending conveyed⟩
  | record addressable distinct listed literals children ih =>
    choose! contents conveyed using ih
    exact ⟨_, conveyed_record addressable distinct listed conveyed literals⟩

/-- A record beside a blank one in which every field that takes part is as blank as its type. What no field takes part
with is the same in both. -/
structure Derives (schema : Schema) (record : String) (blanks slots : Keyed Data) : Prop where
  blank : schema.blank (.record record) = .record blanks
  shape : blanks.keys = slots.keys
  fields : ∀ planned ∈ (schema.plan record).fields, planned.of blanks = schema.blank planned.field.type
  others : ∀ name, (∀ planned ∈ (schema.plan record).fields, planned.field.name ≠ name) →
    blanks.get? name = slots.get? name

/-- If it is a record, it derives from a blank one. -/
def Derived (schema : Schema) (part : Instance) : Prop :=
  ∀ record, part.type = .record record → ∀ slots : Keyed Data, part.data = .record slots →
    ∃ blanks, schema.Derives record blanks slots

/-- A literal is received by any target. -/
theorem Literal.receives (literal : schema.Literal type data) : schema.Receives type target data := by
  induction literal generalizing target with
  | scalar holds => exact .scalar
  | absent => exact .absent
  | present inside written visible ih => exact .present ih
  | box inside ih => exact .box ih

/-- A field of a portable record of which nothing is written is blank. -/
theorem unwritten_blank {slots : Keyed Data}
    (literals : planned.tag.role ≠ .element → schema.Literal planned.field.type (planned.of slots))
    (children : planned.tag.role = .element → schema.Portable planned.field.type (planned.of slots))
    (unwritten : schema.Unwritten slots planned) : planned.of slots = schema.blank planned.field.type := by
  rw [Unwritten] at unwritten
  split at unwritten
  · rename_i role
    rcases unwritten with leftOut | none
    · rw [PlannedField.leftOut, Bool.and_eq_true] at leftOut
      exact (children role).eq_blank leftOut.2
    · obtain ⟨contents, conveyed⟩ := (children role).conveyed
      have written := conveyed.children planned.tag.name .nil
      rw [none] at written
      refine conveyed.blank (List.map_eq_nil_iff.1 (List.append_eq_nil_iff.1 written.symm).1)
  · rename_i role
    exact (literals role).field.1 unwritten

/-- A blank target receives every portable value whose records derive from blank ones. -/
theorem Portable.receives_blank (portable : schema.Portable type data)
    (derived : schema.Throughout schema.Derived type data) : schema.Receives type (schema.blank type) data := by
  induction portable with
  | scalar holds => exact .scalar
  | absent => exact .absent
  | present single inside visible ih => exact .present (ih (derived.inside .option))
  | box inside ih => exact .box (ih (derived.inside .box))
  | sequence single each ih => exact .sequence fun item held => ih item held (derived.inside (.item held))
  | @array element length items single size each ih =>
    refine .array (by simp [slots, size]) fun index old item here found => ?_
    obtain rfl : old = schema.blank element := List.eq_of_mem_replicate (List.mem_of_getElem? here)
    have held := List.mem_of_getElem? found
    exact ih item held (derived.inside (.slot held))
  | map single ascending names each ih =>
    exact .map (List.nil_sublist _) fun entry held => ih entry held (derived.inside (.entry held))
  | @record record slots addressable distinct listed literals children ih =>
    obtain ⟨blanks, derives⟩ := derived.here record rfl slots rfl
    rw [derives.blank]
    refine .record derives.shape derives.others (fun planned member none => ?_) fun planned member _ => ?_
    · rw [derives.fields planned member, unwritten_blank (literals planned member) (children planned member) none]
    · by_cases role : planned.tag.role = .element
      · rw [derives.fields planned member]
        exact ih planned member role
          (derived.inside (.field member role (PlannedField.get?_of (listed planned member))))
      · exact (literals planned member role).receives

end Schema

end XmlBinding
