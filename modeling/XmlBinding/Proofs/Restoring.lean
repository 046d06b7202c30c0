import XmlBinding.Proofs.Assigning
import XmlBinding.Proofs.Coherent
import XmlBinding.Proofs.Normal
import XmlBinding.Proofs.Portable

/-! Assignments that restore a value. If each part of a value is restored in a target of its own, so is the whole: items
one after another, entries under their keys, fields under the keys of the plan. An assignment says nothing of what has
not been written; so a target has to be like the value there. -/
namespace XmlBinding

namespace Schema

/-- A field of which nothing is written: it is left out, it has no elements, or its text is empty. -/
def Unwritten (schema : Schema) (slots : Keyed Data) (planned : PlannedField) : Prop :=
  if planned.tag.role = .element then
    planned.leftOut slots = true ∨
      schema.sketch (planned.of slots) planned.field.type planned.tag.name .nil = .nil
  else Sketch.text? schema slots planned = none

/-- A target of a type in which a value can be restored: where nothing is written of the value, it is like the value
already. Scalars are replaced. The items of a sequence and the values of a map are made anew, from blank ones; a map
keeps its entries besides. What is in a box, an option or an array and what is written of a record is restored in
place. -/
inductive Receives (schema : Schema) : Ty → Data → Data → Prop where
  | scalar : Receives schema (.scalar type) target data
  | absent : Receives schema (.option type) target .absent
  | present (inside : Receives schema type (schema.held type target) data) :
      Receives schema (.option type) target (.present data)
  | box (inside : Receives schema type (schema.held type target) data) :
      Receives schema (.box type) target (.present data)
  | record {record : String} {found slots : Keyed Data} (shape : found.keys = slots.keys)
      (others : ∀ name, (∀ planned ∈ (schema.plan record).fields, planned.field.name ≠ name) →
        found.get? name = slots.get? name)
      (unwritten : ∀ planned ∈ (schema.plan record).fields, schema.Unwritten slots planned →
        planned.of found = planned.of slots)
      (written : ∀ planned ∈ (schema.plan record).fields, ¬ schema.Unwritten slots planned →
        Receives schema planned.field.type (planned.of found) (planned.of slots)) :
      Receives schema (.record record) (.record found) (.record slots)
  | map {found entries : Keyed Data} (among : found.keys.Sublist entries.keys)
      (each : ∀ entry ∈ entries, Receives schema value (schema.blank value) entry.2) :
      Receives schema (.map family key value) (.map found) (.map entries)
  | sequence {items : List Data} (each : ∀ item ∈ items, Receives schema element (schema.blank element) item) :
      Receives schema (.sequence element) target (.list items)
  | array {items : List Data} (size : (schema.slots element length target).length = items.length)
      (each : ∀ (index : Nat) (old item : Data), (schema.slots element length target)[index]? = some old →
        items[index]? = some item → Receives schema element old item) :
      Receives schema (.array element length) target (.list items)

/-- Once a value has been restored it can be restored again. -/
theorem Receives.settled {schema : Schema} (receives : schema.Receives type target data) :
    schema.Receives type data data := by
  induction receives with
  | scalar => exact .scalar
  | absent => exact .absent
  | present inside ih => exact .present ih
  | box inside ih => exact .box ih
  | record shape others unwritten written ih => exact .record rfl (fun _ _ => rfl) (fun _ _ _ => rfl) ih
  | map among each ih => exact .map (.refl _) each
  | sequence each ih => exact .sequence each
  | @array element length target items size each ih =>
    refine .array rfl fun index old item here found => ?_
    obtain rfl := Option.some.inj (here.symm.trans found)
    obtain ⟨inside, -⟩ := List.getElem?_eq_some_iff.1 found
    exact ih index _ old (List.getElem?_eq_getElem (size ▸ inside)) found

end Schema

/-- Whatever is known about types, an assignment leaves this data in a target that can receive it. -/
def Assignment.Restores (schema : Schema) (assign : Assignment Registry) (type : Ty) (data : Data) : Prop :=
  ∀ name registry target, registry.Coherent schema → schema.Receives type target data →
    ∃ known : Registry, known.Coherent schema ∧ assign type name registry target = { target := data, registry := known }

namespace Assignment
variable {schema : Schema} {registry : Registry}

theorem items_restored {assign : α → Assignment Registry} {data : α → Data} {list : List α}
    (each : ∀ a ∈ list, (assign a).Restores schema type (data a))
    (blanks : ∀ a ∈ list, schema.Receives type (schema.blank type) (data a)) (name : String) (before : List Data)
    (coherent : registry.Coherent schema) :
    ∃ known : Registry, known.Coherent schema ∧ items schema type name (list.map assign) before registry =
      { target := .list (before ++ list.map data), registry := known } := by
  induction list generalizing before registry with
  | nil => exact ⟨registry, coherent, by rw [List.map_nil, List.map_nil, List.append_nil]; rfl⟩
  | cons a rest ih =>
    obtain ⟨here, later⟩ := List.forall_mem_cons.1 each
    obtain ⟨blank, blanks⟩ := List.forall_mem_cons.1 blanks
    obtain ⟨known, coherent, done⟩ := here name registry _ coherent blank
    obtain ⟨known', coherent', rests⟩ := ih later blanks (before ++ [data a]) coherent
    refine ⟨known', coherent', ?_⟩
    rw [List.map_cons, List.map_cons, List.append_cons, items, done]
    exact rests

theorem inPlace_restored {assign : α → Assignment Registry} {data : α → Data} {list : List α} {olds : List Data}
    (each : ∀ a ∈ list, (assign a).Restores schema type (data a))
    (targets : List.Forall₂ (fun a old => schema.Receives type old (data a)) list olds) (name : String)
    (before : List Data) (coherent : registry.Coherent schema) :
    ∃ known : Registry, known.Coherent schema ∧ inPlace type name (list.map assign) before olds registry =
      { target := .list (before ++ list.map data), registry := known } := by
  induction targets generalizing before registry with
  | nil => exact ⟨registry, coherent, rfl⟩
  | @cons a old rest olds target targets ih =>
    obtain ⟨here, later⟩ := List.forall_mem_cons.1 each
    obtain ⟨known, coherent, done⟩ := here name registry old coherent target
    obtain ⟨known', coherent', rests⟩ := ih later (before ++ [data a]) coherent
    refine ⟨known', coherent', ?_⟩
    rw [List.map_cons, List.map_cons, List.append_cons, inPlace, done]
    exact rests

/-- Entries are restored under their keys, if the map holds the others already. -/
theorem entries_restored {assigns : Keyed (Assignment Registry)} {whole : Keyed Data} (ascending : whole.Ascending)
    (each : ∀ entry ∈ assigns, ∃ data, whole.get? entry.1 = some data ∧
      schema.Receives type (schema.blank type) data ∧ entry.2.Restores schema type data)
    {before : Keyed Data} (sorted : before.Ascending)
    (others : ∀ key, key ∉ assigns.keys → before.get? key = whole.get? key) (coherent : registry.Coherent schema) :
    ∃ known : Registry, known.Coherent schema ∧ entries schema .string type assigns registry (.map before) =
      { target := .map whole, registry := known } := by
  induction assigns generalizing before registry with
  | nil =>
    obtain rfl : before = whole := Keyed.eq_of_get? sorted.sorted ascending.sorted sorted.distinct ascending.distinct
      fun key => others key List.not_mem_nil
    exact ⟨registry, coherent, rfl⟩
  | cons entry rest ih =>
    obtain ⟨⟨data, found, blank, here⟩, later⟩ := List.forall_mem_cons.1 each
    obtain ⟨known, coherent, done⟩ := here entry.1 registry _ coherent blank
    have others' (key : String) (absent : key ∉ Keyed.keys rest) :
        (before.place entry.1 data).get? key = whole.get? key := by
      rw [Keyed.get?_place]
      split
      · rename_i same
        rw [same, found]
      · rename_i differs
        exact others key (List.not_mem_cons_of_ne_of_not_mem differs absent)
    obtain ⟨known', coherent', rests⟩ := ih later (sorted.place entry.1 data) others' coherent
    refine ⟨known', coherent', ?_⟩
    rw [entries, ← rests]
    dsimp only [ScalarType.read?]
    rw [done]
    rfl

/-- Fields are restored one after another, each under the keys that it has, if the record holds the others already. A
field that stands under two keys is restored twice. -/
theorem fields_restored {plan : Plan} {assigns : Keyed (Assignment Registry)} {slots : Keyed Data}
    (distinct : slots.Distinct)
    (listed : ∀ planned ∈ plan.fields, planned.field.name ∈ slots.keys)
    (each : ∀ entry ∈ assigns, ∀ planned, plan.find? entry.1 = some planned →
      entry.2.Restores schema planned.field.type (planned.of slots))
    {current : Keyed Data} (shape : current.keys = slots.keys)
    (targets : ∀ entry ∈ assigns, ∀ planned, plan.find? entry.1 = some planned →
      schema.Receives planned.field.type (planned.of current) (planned.of slots))
    (others : ∀ name, (∀ entry ∈ assigns, ∀ planned, plan.find? entry.1 = some planned → planned.field.name ≠ name) →
      current.get? name = slots.get? name)
    (coherent : registry.Coherent schema) :
    ∃ known : Registry, known.Coherent schema ∧ fields schema plan assigns registry (.record current) =
      { target := .record slots, registry := known } := by
  -- `current` is what the record holds before the entry at hand; assigning it updates one slot.
  induction assigns generalizing current registry with
  | nil =>
    obtain rfl : current = slots := Keyed.eq_of_keys distinct shape fun name => others name (List.forall_mem_nil _)
    exact ⟨registry, coherent, rfl⟩
  | cons entry rest ih =>
    obtain ⟨here, later⟩ := List.forall_mem_cons.1 each
    obtain ⟨receives, targets⟩ := List.forall_mem_cons.1 targets
    unfold fields
    cases found : plan.find? entry.1 with
    | none =>
      refine ih later shape targets (fun name absent => others name (List.forall_mem_cons.2 ⟨?_, absent⟩)) coherent
      intro planned some
      rw [found] at some
      cases some
    | some planned =>
      have slot := listed planned (List.mem_of_find?_eq_some found)
      obtain ⟨known, coherent, done⟩ := here planned found planned.tag.name registry _ coherent (receives planned found)
      have put (name : String) : (current.put planned.field.name (planned.of slots)).get? name =
          if name = planned.field.name then slots.get? name else current.get? name := by
        rw [Keyed.get?_put]
        split
        · rename_i same
          rw [same, PlannedField.get?_of slot]
        · rfl
      dsimp only
      rw [PlannedField.get?_of (shape ▸ slot), Option.getD_some, done]
      refine ih later ?_ (fun entry member other some => ?_) (fun name absent => ?_) coherent
      · rw [Keyed.keys_put (shape ▸ slot), shape]
      · have receives := targets entry member other some
        rw [PlannedField.of, put]
        split
        · exact receives.settled
        · exact receives
      · rw [put]
        split
        · rfl
        · rename_i differs
          refine others name (List.forall_mem_cons.2 ⟨fun other some => ?_, absent⟩)
          obtain rfl := Option.some.inj (found.symm.trans some)
          exact Ne.symm differs

end Assignment

namespace Schema
variable {schema : Schema}

/-- A literal that counts as empty is blank. -/
theorem Literal.eq_blank (literal : schema.Literal type data) (empty : type.isEmpty data = true) :
    data = schema.blank type := by
  cases literal with
  | scalar holds => rw [ScalarType.eq_blank holds empty, blank_scalar]
  | absent => exact (blank_option schema _).symm
  | present => cases empty
  | box => cases empty

/-- A portable value that counts as empty is blank. -/
theorem Portable.eq_blank (portable : schema.Portable type data) (empty : type.isEmpty data = true) :
    data = schema.blank type := by
  cases portable with
  | scalar holds => rw [ScalarType.eq_blank holds empty, blank_scalar]
  | absent => exact (blank_option schema _).symm
  | present => cases empty
  | box => cases empty
  | record => cases empty
  | map => rw [List.isEmpty_iff.1 empty, blank_map]
  | sequence => rw [List.isEmpty_iff.1 empty, blank_sequence]
  | array single size =>
    obtain rfl := beq_iff_eq.1 empty
    rw [List.eq_nil_of_length_eq_zero size, blank_array]
    rfl

/-- A scalar is restored from its text. -/
theorem restores_scalar (holds : ScalarType.Holds type scalar) (text : value.text = scalar.format)
    (plain : value.items? = none) : (schema.assign value).Restores schema (.scalar type) (.scalar scalar) := by
  intro name registry target coherent _
  refine ⟨registry, coherent, ?_⟩
  have read : schema.assignScalar value type registry target = { target := .scalar scalar, registry } := by
    rw [assignScalar, text, ScalarType.read?_format holds]
  cases value with
  | string | map => exact read
  | list => cases plain

theorem restores_box (restores : (schema.assign value).Restores schema type data) :
    (schema.assign value).Restores schema (.box type) (.present data) := by
  intro name registry target coherent receives
  cases receives with | box inside =>
  obtain ⟨known, coherent, done⟩ := restores name registry _ coherent inside
  refine ⟨known, coherent, ?_⟩
  rw [assign_box]
  exact congrArg (·.part Data.present id) done

theorem restores_option (restores : (schema.assign value).Restores schema type data) (visible : value ≠ .map []) :
    (schema.assign value).Restores schema (.option type) (.present data) := by
  intro name registry target coherent receives
  cases receives with | present inside =>
  obtain ⟨known, coherent, done⟩ := restores name registry _ coherent inside
  refine ⟨known, coherent, ?_⟩
  rw [assign_option _ _ _ _ _ visible]
  exact congrArg (·.part Data.present id) done

/-- A literal is restored from its text, and is blank without one. -/
theorem Literal.restored (literal : schema.Literal type data) : ∃ text?, schema.textOf type data = .ok text? ∧
    (text?.filter (· ≠ "") = none → data = schema.blank type) ∧
      ∀ text, text?.filter (· ≠ "") = some text → (schema.assign (.string text)).Restores schema type data := by
  induction literal with
  | @scalar type scalar holds =>
    refine ⟨some scalar.format, rfl, fun none => ?_, fun text some => ?_⟩
    · rw [ScalarType.eq_blank_of_format holds (by simpa [Option.filter] using none), blank_scalar]
    · obtain ⟨same, -⟩ := Option.filter_eq_some_iff.1 some
      cases same
      exact restores_scalar holds rfl rfl
  | absent => exact ⟨none, rfl, fun _ => (blank_option schema _).symm, fun text some => by cases some⟩
  | present inside written visible ih =>
    obtain ⟨text?, same, -, restored⟩ := ih
    obtain rfl := Except.ok.inj (written.symm.trans same)
    refine ⟨_, same, fun none => ?_, fun text some => restores_option (restored text some) (by simp)⟩
    rw [Option.filter_eq_none_iff] at none
    exact absurd (by simpa using visible) (none _ rfl)
  | box inside ih =>
    obtain ⟨text?, same, blank, restored⟩ := ih
    refine ⟨text?, same, fun none => ?_, fun text some => restores_box (restored text some)⟩
    rw [blank none, blank_box]

/-- The field of a literal is restored from what is written of it, and is blank where nothing is. -/
theorem Literal.field {planned : PlannedField} {slots : Keyed Data}
    (literal : schema.Literal planned.field.type (planned.of slots)) :
    (Sketch.text? schema slots planned = none → planned.of slots = schema.blank planned.field.type) ∧
      ∀ text, Sketch.text? schema slots planned = some text →
        (schema.assign (.string text)).Restores schema planned.field.type (planned.of slots) := by
  obtain ⟨text?, same, blank, restored⟩ := literal.restored
  rw [Sketch.text?, Schema.fieldText, ← PlannedField.of]
  split
  · rename_i omitted
    rw [Bool.and_eq_true] at omitted
    exact ⟨fun _ => literal.eq_blank omitted.2, fun text some => by cases some⟩
  · rw [same]
    exact ⟨blank, restored⟩

end Schema

end XmlBinding
