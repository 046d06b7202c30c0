import XmlBinding.Proofs.Induction

/-! What an assignment does, type by type, and induction along it: an option and a box hand the value on to what they
hold, a record and a map hand on what stands in it, a sequence and an array its items. -/
namespace XmlBinding

/-- The error at the end of a path. -/
def Error.cause : Error → Error
  | inField _ e => e.cause
  | inKey _ e => e.cause
  | atIndex _ e => e.cause
  | e => e

namespace Value

/-- The items of a list, or any other value as a list of one. -/
def asList : Value → List Value
  | list items => items
  | value => [value]

theorem mem_asList (value : Value) (held : item ∈ value.asList) : item ∈ value.parts ∨ item = value := by
  cases value with
  | list items => exact .inl held
  | _ => exact .inr (List.mem_singleton.1 held)

/-- A value of a form that no target of a type takes. -/
inductive Misfits : Value → Ty → Prop where
  | list : Misfits (.list items) (.scalar type)
  | unsupported : Misfits value (.unsupported name)
  | noRecord (other : ∀ entries, value ≠ .map entries) : Misfits value (.record record)
  | noMap (other : ∀ entries, value ≠ .map entries) : Misfits value (.map family key type)
  | noKey (other : ∀ scalar, key ≠ .scalar scalar) : Misfits (.map entries) (.map family key type)

/-- Induction along an assignment. -/
@[elab_as_elim]
theorem assign_induction {P : Value → Ty → Prop}
    (misfit : ∀ {value type}, value.Misfits type → P value type)
    (scalar : ∀ {value} type, (∀ items, value ≠ .list items) → P value (.scalar type))
    (dynamic : ∀ value, P value .dynamic) (native : ∀ value, P value .native)
    (custom : ∀ value name, P value (.custom name))
    (nothing : ∀ target, P (.map []) (.option target))
    (option : ∀ {value} target, value ≠ .map [] → P value target → P value (.option target))
    (box : ∀ value target, P value target → P value (.box target))
    (record : ∀ entries record, (∀ entry ∈ entries, ∀ type, P entry.2 type) → P (.map entries) (.record record))
    (map : ∀ entries family key type, (∀ entry ∈ entries, P entry.2 type) →
      P (.map entries) (.map family (.scalar key) type))
    (sequence : ∀ value element, (∀ item ∈ value.asList, P item element) → P value (.sequence element))
    (array : ∀ value element length, (∀ item ∈ value.asList, P item element) → P value (.array element length))
    (value : Value) (type : Ty) : P value type := by
  induction value using Value.induction generalizing type with
  | step value inner =>
  have items {element : Ty} (whole : P value element) : ∀ item ∈ value.asList, P item element := by
    intro item member
    rcases mem_asList value member with part | rfl
    · exact inner item part element
    · exact whole
  induction type with
  | scalar type =>
    cases value with
    | list items => exact misfit .list
    | _ => exact scalar type nofun
  | option target ih =>
    by_cases empty : value = .map []
    · exact empty ▸ nothing target
    · exact option target empty ih
  | box target ih => exact box value target ih
  | dynamic => exact dynamic value
  | native => exact native value
  | record name =>
    cases value with
    | map entries => exact record entries name fun entry member => inner entry.2 (List.mem_map_of_mem member)
    | _ => exact misfit (.noRecord nofun)
  | map family key type =>
    cases value with
    | map entries =>
      cases key with
      | scalar key =>
        exact map entries family key type fun entry member => inner entry.2 (List.mem_map_of_mem member) type
      | _ => exact misfit (.noKey nofun)
    | _ => exact misfit (.noMap nofun)
  | sequence element ih => exact sequence value element (items ih)
  | array element length ih => exact array value element length (items ih)
  | custom name => exact custom value name
  | unsupported name => exact misfit .unsupported

end Value

namespace Schema

variable {σ ρ : Type} [Directory σ ρ]

theorem assignEntries_eq_map (schema : Schema) (entries : Entries) :
    schema.assignEntries (σ := σ) entries = entries.map fun entry => (entry.1, schema.assign entry.2) := by
  induction entries with
  | nil => rfl
  | cons entry rest ih => exact congrArg (_ :: ·) ih

theorem assignItems_eq_map (schema : Schema) (items : List Value) :
    schema.assignItems (σ := σ) items = items.map schema.assign := by
  induction items with
  | nil => rfl
  | cons item rest ih => exact congrArg (_ :: ·) ih

variable (schema : Schema) (value : Value) (entries : Entries) (type : Ty) (name : String) (registry : σ)
  (target : Data)

theorem assign_dynamic : schema.assign value .dynamic name registry target =
    { target := .dynamic .native (.native value), registry } := by
  cases value <;> rfl

theorem assign_native : schema.assign value .native name registry target = { target := .native value, registry } := by
  cases value <;> rfl

theorem assign_custom (custom : String) : schema.assign value (.custom custom) name registry target =
    schema.assignCustom value custom name registry target := by
  cases value <;> rfl

/-- A misfit is refused for what it is. -/
theorem assign_misfit {value : Value} {type : Ty} (misfits : value.Misfits type) : ∃ e : Error, e.cause = e ∧
    ∀ name registry target, schema.assign (σ := σ) value type name registry target = .failed target registry e := by
  cases misfits with
  | list => exact ⟨_, rfl, fun _ _ _ => rfl⟩
  | unsupported => exact ⟨.mismatch (.native value.kind) _, rfl, fun _ _ _ => by cases value <;> rfl⟩
  | noRecord other | noMap other =>
    cases value with
    | map entries => exact absurd rfl (other entries)
    | _ => exact ⟨_, rfl, fun _ _ _ => rfl⟩
  | @noKey key entries family type other =>
    cases key with
    | scalar scalar => exact absurd rfl (other scalar)
    | _ => exact ⟨_, rfl, fun _ _ _ => rfl⟩

/-- What is no list is read as a scalar. -/
theorem assign_single {value : Value} (single : ∀ items, value ≠ .list items) (scalar : ScalarType) :
    schema.assign value (.scalar scalar) name registry target = schema.assignScalar value scalar registry target := by
  cases value with
  | list items => exact absurd rfl (single items)
  | _ => rfl

theorem assign_box : schema.assign value (.box type) name registry target =
    (schema.assign value type name registry (schema.held type target)).part .present id := by
  cases value <;> rfl

theorem assign_option {value : Value} (visible : value ≠ .map []) :
    schema.assign value (.option type) name registry target =
      (schema.assign value type name registry (schema.held type target)).part .present id := by
  rcases value with text | (_ | ⟨entry, rest⟩) | items
  · rfl
  · exact absurd rfl visible
  · rfl
  · rfl

theorem assign_sequence : schema.assign value (.sequence type) name registry target =
    Assignment.items schema type name (value.asList.map schema.assign) [] registry := by
  cases value with
  | list items =>
    rw [Value.asList, ← assignItems_eq_map]
    rfl
  | _ => rfl

theorem assign_array (length : Nat) : schema.assign value (.array type length) name registry target =
    Assignment.inPlace type name ((value.asList.take length).map schema.assign) [] (schema.slots type length target)
      registry := by
  cases value with
  | list items =>
    rw [Value.asList, List.map_take, ← assignItems_eq_map]
    rfl
  | _ =>
    unfold assign assignWith
    cases length with
    | zero => rfl
    | succ length =>
      dsimp only [Value.listed, Value.asList]
      rw [List.take_succ_cons, List.take_succ_cons, List.take_nil, List.take_nil]
      cases schema.slots type (length + 1) target <;> rfl

theorem assign_map (family : String) (key : ScalarType) :
    schema.assign (.map entries) (.map family (.scalar key) type) name registry target =
      Assignment.entries schema key type (entries.map fun entry => (entry.1, schema.assign entry.2)) registry
        target := by
  rw [← assignEntries_eq_map]
  rfl

theorem assign_record (record : String) : schema.assign (.map entries) (.record record) name registry target =
    Assignment.fields schema (Directory.plan schema record registry).1
      (entries.map fun entry => (entry.1, schema.assign entry.2)) (Directory.plan schema record registry).2 target := by
  rw [← assignEntries_eq_map]
  rfl

end Schema

/-! How the loops go on. -/

namespace Assigned
variable {σ : Type} {done : Assigned σ} {next : σ → Data → Assigned σ}

theorem andThen_error? :
    (done.andThen next).error? = none ↔ done.error? = none ∧ (next done.registry done.target).error? = none := by
  unfold andThen
  cases failed : done.error? with
  | none => simp
  | some e => simp [failed]

theorem andThen_of_done (ok : done.error? = none) : done.andThen next = next done.registry done.target := by
  rw [andThen, ok]

theorem part_error? {whole : Data → Data} {wrap : Error → Error} :
    (done.part whole wrap).error? = none ↔ done.error? = none := Option.map_eq_none_iff

end Assigned

namespace Assignment
variable {σ : Type} {schema : Schema} {assign : Assignment σ} {rest : Keyed (Assignment σ)} {registry : σ}

theorem fields_pass {plan : Plan} (unknown : plan.find? key = none) (target : Data) :
    fields schema plan ((key, assign) :: rest) registry target = fields schema plan rest registry target := by
  conv_lhs => unfold fields
  rw [unknown]

/-- A field takes the entry under its key, and the other entries come after that. -/
theorem fields_take {plan : Plan} (found : plan.find? key = some planned) (slots : Keyed Data) :
    fields schema plan ((key, assign) :: rest) registry (.record slots) =
      ((assign planned.field.type planned.tag.name registry
        ((slots.get? planned.field.name).getD (schema.blank planned.field.type))).part
        (fun data => .record (slots.put planned.field.name data)) (.inField planned.field.name)).andThen
      (fields schema plan rest) := by
  conv_lhs => unfold fields
  rw [found]

theorem entries_unread {key : ScalarType} {type : Ty} (unread : key.read? name = none) (target : Data) :
    (Assignment.entries schema key type ((name, assign) :: rest) registry target).error? ≠ none := by
  unfold Assignment.entries
  rw [unread]
  nofun

/-- An entry is added, and the others after it. -/
theorem entries_take {key : ScalarType} {type : Ty} (read : key.read? name = some scalar) (target : Data) :
    Assignment.entries schema key type ((name, assign) :: rest) registry target =
      ((assign type name registry (schema.blank type)).part
        (fun data => if (assign type name registry (schema.blank type)).error?.isSome then target
          else .map (Keyed.place (match target with | .map old => old | _ => []) scalar.format data))
        (.inKey name)).andThen (Assignment.entries schema key type rest) := by
  conv_lhs => unfold Assignment.entries
  generalize key.read? name = found at read ⊢
  cases read
  rfl

theorem entries_add {key : ScalarType} {type : Ty} (read : key.read? name = some scalar) (old : Keyed Data) :
    Assignment.entries schema key type ((name, assign) :: rest) registry (.map old) =
      ((assign type name registry (schema.blank type)).part
        (fun data => if (assign type name registry (schema.blank type)).error?.isSome then .map old
          else .map (old.place scalar.format data)) (.inKey name)).andThen
      (Assignment.entries schema key type rest) := entries_take read (.map old)

theorem items_done {rest : List (Assignment σ)} {type : Ty} (before : List Data)
    (ok : (assign type name registry (schema.blank type)).error? = none) :
    Assignment.items schema type name (assign :: rest) before registry =
      Assignment.items schema type name rest (before ++ [(assign type name registry (schema.blank type)).target])
        (assign type name registry (schema.blank type)).registry := by
  rw [Assignment.items, ok]

theorem items_failed {rest : List (Assignment σ)} {type : Ty} (before : List Data)
    (failed : (assign type name registry (schema.blank type)).error? ≠ none) :
    (Assignment.items schema type name (assign :: rest) before registry).error? ≠ none := by
  obtain ⟨e, failed⟩ := Option.ne_none_iff_exists'.1 failed
  rw [Assignment.items, failed]
  nofun

theorem inPlace_done {rest : List (Assignment σ)} {type : Ty} {old : Data} (before after : List Data)
    (ok : (assign type name registry old).error? = none) :
    inPlace type name (assign :: rest) before (old :: after) registry =
      inPlace type name rest (before ++ [(assign type name registry old).target]) after
        (assign type name registry old).registry := by
  rw [inPlace, ok]

theorem inPlace_failed {rest : List (Assignment σ)} {type : Ty} {old : Data} (before after : List Data)
    (failed : (assign type name registry old).error? ≠ none) :
    (inPlace type name (assign :: rest) before (old :: after) registry).error? ≠ none := by
  obtain ⟨e, failed⟩ := Option.ne_none_iff_exists'.1 failed
  rw [inPlace, failed]
  nofun

end Assignment

end XmlBinding
