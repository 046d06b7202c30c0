import XmlBinding.Proofs.Assigning
import XmlBinding.Proofs.InUse

/-! What an assignment leaves alone. Entries that no field takes are passed over, and a field keeps its value if no
entry is its own: if it is left out, if its key does not occur, or if a field listed before has the same key. This is
so at every record that something is assigned to in place, however deep it stands in the target, and also if the
assignment fails half way. -/
namespace XmlBinding

/-- Where a part of a value stands right inside it. -/
inductive Place where
  /-- In an option or a box. -/
  | held
  | field (name : String)
  | item (index : Nat)
deriving DecidableEq, Repr

namespace Data

/-- The part of a value that some places lead to, from outside in. -/
def at? : List Place → Data → Option Data
  | [], data => some data
  | .held :: path, .present data => at? path data
  | .field name :: path, .record slots => (Keyed.get? slots name).bind (at? path)
  | .item index :: path, .list items => items[index]?.bind (at? path)
  | _, _ => none

/-- The record that stands at a path, if one does, stands there after as before, and holds the same under a name. -/
def Keeps (path : List Place) (name : String) (before after : Data) : Prop :=
  ∀ slots, before.at? path = some (.record slots) →
    ∃ slots', after.at? path = some (.record slots') ∧ Keyed.get? slots' name = Keyed.get? slots name

variable {path : List Place} {name : String}

theorem Keeps.refl (data : Data) : data.Keeps path name data := fun slots there => ⟨slots, there, rfl⟩

theorem Keeps.trans {a b c : Data} (first : a.Keeps path name b) (second : b.Keeps path name c) :
    a.Keeps path name c := by
  intro slots there
  obtain ⟨_, there', same⟩ := first slots there
  obtain ⟨slots', there'', same'⟩ := second _ there'
  exact ⟨slots', there'', same'.trans same⟩

theorem Keeps.nothing {before : Data} (absent : before.at? path = none) (after : Data) :
    before.Keeps path name after := fun slots there => by cases absent.symm.trans there

theorem Keeps.field {slots slots' : Keyed Data} {outer : String}
    (each : ∀ a ∈ slots.get? outer, ∃ b ∈ slots'.get? outer, Keeps path name a b) :
    (record slots).Keeps (.field outer :: path) name (record slots') := by
  intro inner there
  obtain ⟨a, held, there⟩ := Option.bind_eq_some_iff.1 there
  obtain ⟨b, held', kept⟩ := each a held
  obtain ⟨inner', there', same⟩ := kept inner there
  exact ⟨inner', Option.bind_eq_some_iff.2 ⟨b, held', there'⟩, same⟩

theorem Keeps.item {items items' : List Data} {index : Nat}
    (each : ∀ a, items[index]? = some a → ∃ b, items'[index]? = some b ∧ Keeps path name a b) :
    (list items).Keeps (.item index :: path) name (list items') := by
  intro inner there
  obtain ⟨a, held, there⟩ := Option.bind_eq_some_iff.1 there
  obtain ⟨b, held', kept⟩ := each a held
  obtain ⟨inner', there', same⟩ := kept inner there
  exact ⟨inner', Option.bind_eq_some_iff.2 ⟨b, held', there'⟩, same⟩

end Data

namespace Schema

/-- A record takes nothing of some keys for the fields of a name. Each of them is left out, or has none of the keys, or
is listed behind one with the same key that is not left out. -/
def Overlooks (schema : Schema) (record : String) (keys : List String) (name : String) : Prop :=
  ∀ before field after, schema.fields record = before ++ field :: after → field.name = name →
    field.parsed.skip = true ∨ field.parsed.key ∉ keys ∨
      ∃ earlier ∈ before, earlier.parsed.skip = false ∧ earlier.parsed.key = field.parsed.key

/-- To assign a value to a record touches no field of a name. -/
def Spares (schema : Schema) (name : String) (value : Value) (type : Ty) : Prop :=
  ∃ record, type = .record record ∧
    ∀ entries : Entries, value = .map entries → schema.Overlooks record entries.keys name

/-- Whatever is assigned in place to what stands at a path, when a value is assigned to the whole, is something of which
a condition holds. What stands in a sequence or a map is never assigned to, for other things take its place. -/
inductive InPlace (schema : Schema) (allowed : Value → Ty → Prop) : Value → Ty → List Place → Prop where
  | here (sound : allowed value type) : InPlace schema allowed value type []
  | option (visible : value ≠ .map []) (inside : InPlace schema allowed value target path) :
      InPlace schema allowed value (.option target) (.held :: path)
  | box (inside : InPlace schema allowed value target path) : InPlace schema allowed value (.box target) (.held :: path)
  | field (inside : ∀ entries : Entries, value = .map entries → ∀ entry ∈ entries, ∀ planned,
      (schema.plan record).find? entry.1 = some planned → planned.field.name = name →
        InPlace schema allowed entry.2 planned.field.type path) :
      InPlace schema allowed value (.record record) (.field name :: path)
  | item {index : Nat} (inside : ∀ item, (value.asList.take length)[index]? = some item →
      InPlace schema allowed item element path) :
      InPlace schema allowed value (.array element length) (.item index :: path)

variable {schema : Schema}

theorem Overlooks.of_absent {record : String} (absent : ∀ field ∈ schema.fields record, field.name = name →
    field.parsed.key ∉ keys) : schema.Overlooks record keys name := fun _ field _ listed named =>
  .inr (.inl (absent field (listed ▸ List.mem_append_right _ List.mem_cons_self) named))

/-- The field that takes a key is the first one that is not left out and has the key. -/
theorem first_of_find? {record : String} (found : (schema.plan record).find? key = some planned) :
    ∃ before after, schema.fields record = before ++ planned.field :: after ∧ planned.tag = planned.field.parsed ∧
      planned.tag.skip = false ∧ planned.tag.key = key ∧
      ∀ earlier ∈ before, earlier.parsed.skip = false → earlier.parsed.key ≠ key := by
  obtain ⟨-, tag, taken⟩ := mem_plan.1 (List.mem_of_find?_eq_some found)
  obtain ⟨named, first, rest, split, earlier⟩ := List.find?_eq_some_iff_append.1 found
  have listed : ((schema.fields record).map fun field => (⟨field, field.parsed⟩ : PlannedField)).filter (!·.tag.skip) =
      first ++ planned :: rest := split
  obtain ⟨front, back, whole, rfl, behind⟩ := List.filter_eq_append_iff.1 listed
  obtain ⟨between, after, rfl, skipped, -, -⟩ := List.filter_eq_cons_iff.1 behind
  rw [← List.append_assoc] at whole
  obtain ⟨before, others, same, front', others'⟩ := List.map_eq_append_iff.1 whole
  obtain ⟨field, after', rfl, rfl, -⟩ := List.map_eq_cons_iff.1 others'
  refine ⟨before, after', same, rfl, taken, by simpa using named, fun other member kept => ?_⟩
  have there : (⟨other, other.parsed⟩ : PlannedField) ∈ front ++ between := front' ▸ List.mem_map_of_mem member
  rcases List.mem_append.1 there with inFront | inBetween
  · simpa using earlier _ (List.mem_filter.2 ⟨inFront, by simpa using kept⟩)
  · exact absurd (by simpa using kept) (skipped _ inBetween)

/-- What a record overlooks is no field that takes one of the keys. -/
theorem Overlooks.apart {record : String} (overlooks : schema.Overlooks record keys name) (member : key ∈ keys)
    (found : (schema.plan record).find? key = some planned) : planned.field.name ≠ name := by
  obtain ⟨before, after, listed, tag, taken, named, first⟩ := first_of_find? found
  rw [tag] at taken named
  intro same
  rcases overlooks before planned.field after listed same with skipped | absent | ⟨earlier, there, kept, equal⟩
  · rw [taken] at skipped
    cases skipped
  · exact absent (named ▸ member)
  · exact first earlier there kept (equal.trans named)

end Schema

/-- A part and what comes after it, whether it comes to that or not. -/
theorem Assigned.andThen_target {P : Data → Prop} {done : Assigned σ} {next : σ → Data → Assigned σ}
    (here : P done.target) (there : P (next done.registry done.target).target) : P (done.andThen next).target := by
  unfold andThen
  split
  · exact here
  · exact there

namespace Assignment
variable {schema : Schema} (assign : Value → Assignment Demand)

/-- Slots of one name are related before and after, if each assignment to them relates what it finds and what it
leaves. -/
theorem fields_slot {related : Option Data → Option Data → Prop} (refl : ∀ slot, related slot slot)
    (trans : ∀ a b c, related a b → related b c → related a c) {plan : Plan} {entries : Entries} (name : String)
    (each : ∀ entry ∈ entries, ∀ planned, plan.find? entry.1 = some planned → planned.field.name = name →
      ∀ demand slot, related slot (some (assign entry.2 planned.field.type planned.tag.name demand
        (slot.getD (schema.blank planned.field.type))).target))
    (demand : Demand) (slots : Keyed Data) :
    ∃ slots' : Keyed Data,
      (fields schema plan (entries.map fun entry => (entry.1, assign entry.2)) demand (.record slots)).target =
        .record slots' ∧ related (slots.get? name) (slots'.get? name) := by
  induction entries generalizing demand slots with
  | nil => exact ⟨slots, rfl, refl _⟩
  | cons entry rest ih =>
    obtain ⟨key, value⟩ := entry
    obtain ⟨here, later⟩ := List.forall_mem_cons.1 each
    rw [List.map_cons]
    cases found : plan.find? key with
    | none =>
      rw [fields_pass found]
      exact ih later demand slots
    | some planned =>
      rw [fields_take found]
      have first : related (slots.get? name) ((slots.put planned.field.name (assign value planned.field.type
          planned.tag.name demand ((slots.get? planned.field.name).getD (schema.blank planned.field.type))).target).get?
            name) := by
        rw [Keyed.get?_put]
        by_cases same : name = planned.field.name
        · subst same
          rw [if_pos rfl]
          exact here planned found rfl demand _
        · rw [if_neg same]
          exact refl _
      refine Assigned.andThen_target (P := fun data => ∃ slots' : Keyed Data, data = .record slots' ∧
        related (slots.get? name) (slots'.get? name)) ⟨_, rfl, first⟩ ?_
      obtain ⟨slots', left, further⟩ := ih later _ _
      exact ⟨slots', left, trans _ _ _ first further⟩

/-- An item of an array is as it was, or as the assignment of the value of the same index leaves it. -/
theorem inPlace_item (type : Ty) (name : String) (values : List Value) (before after : List Data) (demand : Demand) :
    ∃ items : List Data,
      (inPlace type name (values.map assign) before after demand).target = .list (before ++ items) ∧
      ∀ (index : Nat) old, after[index]? = some old → ∃ new, items[index]? = some new ∧
        (new = old ∨ ∃ value demand, values[index]? = some value ∧
          new = (assign value type name demand old).target) := by
  induction values generalizing before after demand with
  | nil =>
    refine ⟨after, ?_, fun index old there => ⟨old, there, .inl rfl⟩⟩
    cases after <;> rfl
  | cons value rest ih =>
    cases after with
    | nil => exact ⟨[], rfl, fun index old there => ⟨old, there, .inl rfl⟩⟩
    | cons old after =>
      rw [List.map_cons, inPlace]
      split
      · refine ⟨_ :: after, rfl, fun index other there => ?_⟩
        cases index with
        | zero =>
          cases there
          exact ⟨_, rfl, .inr ⟨value, demand, rfl, rfl⟩⟩
        | succ index => exact ⟨other, there, .inl rfl⟩
      · obtain ⟨items, left, each⟩ := ih (before ++ [(assign value type name demand old).target]) after
          (assign value type name demand old).registry
        refine ⟨(assign value type name demand old).target :: items, ?_, fun index other there => ?_⟩
        · rw [left, List.append_assoc]
          rfl
        · cases index with
          | zero =>
            cases there
            exact ⟨_, rfl, .inr ⟨value, demand, rfl, rfl⟩⟩
          | succ index => exact each index other there

end Assignment

namespace Schema
variable {schema : Schema}

/-- A record of which nothing is taken for the fields of a name. -/
theorem keeps_here {value : Value} {record name : String}
    (overlooks : ∀ entries : Entries, value = .map entries → schema.Overlooks record entries.keys name) (element : String)
    (demand : Demand) (target : Data) :
    target.Keeps [] name (schema.assign value (.record record) element demand target).target := by
  cases value with
  | string | list => exact .refl target
  | map entries =>
    intro slots there
    cases there
    rw [assign_record]
    obtain ⟨slots', left, same⟩ := Assignment.fields_slot schema.assign (fun slot => Eq.refl slot)
      (fun _ _ _ => Eq.trans) name (fun entry (member : entry ∈ entries) planned found this =>
        absurd this ((overlooks entries rfl).apart (List.mem_map_of_mem member) found))
      (Directory.plan schema record demand).2 slots
    exact ⟨slots', congrArg some left, same.symm⟩

/-- What stands in a field is kept, if every entry that goes to the field keeps it. Several entries may go there one after
another, so it is kept step by step. -/
theorem keeps_field {entries : Entries} {record field name : String} {path : List Place}
    (each : ∀ entry ∈ entries, ∀ planned, (schema.plan record).find? entry.1 = some planned →
      planned.field.name = field → ∀ element (demand : Demand) (target : Data),
        target.Keeps path name (schema.assign entry.2 planned.field.type element demand target).target)
    (element : String) (demand : Demand) (slots : Keyed Data) :
    (Data.record slots).Keeps (.field field :: path) name
      (schema.assign (.map entries) (.record record) element demand (.record slots)).target := by
  let related (before after : Option Data) : Prop := ∀ a ∈ before, ∃ b ∈ after, a.Keeps path name b
  have refl (slot : Option Data) : related slot slot := fun a held => ⟨a, held, .refl a⟩
  have trans (before between after : Option Data) (first : related before between) (second : related between after) :
      related before after := by
    intro a held
    obtain ⟨b, held', kept⟩ := first a held
    obtain ⟨c, held'', kept'⟩ := second b held'
    exact ⟨c, held'', kept.trans kept'⟩
  obtain ⟨slots', left, kept⟩ := Assignment.fields_slot schema.assign refl trans field
    (fun entry (member : entry ∈ entries) planned found same demand slot a held => by
      rw [Option.mem_def.1 held]
      exact ⟨_, rfl, each entry member planned found same _ demand a⟩)
    (Directory.plan schema record demand).2 slots
  rw [assign_record, show (Directory.plan schema record demand).1 = schema.plan record from rfl, left]
  exact .field kept

/-- What stands in an item of an array is kept, if the value that goes to the item keeps it. -/
theorem keeps_item {value : Value} {type : Ty} {length index : Nat} {name : String} {path : List Place}
    (each : ∀ item, (value.asList.take length)[index]? = some item → ∀ element (demand : Demand) (target : Data),
      target.Keeps path name (schema.assign item type element demand target).target)
    (element : String) (demand : Demand) (items : List Data) :
    (Data.list items).Keeps (.item index :: path) name
      (schema.assign value (.array type length) element demand (.list items)).target := by
  rw [assign_array]
  obtain ⟨items', left, kept⟩ := Assignment.inPlace_item schema.assign type element (value.asList.take length) []
    items demand
  refine left ▸ .item fun old held => ?_
  obtain ⟨new, held', rfl | ⟨item, demand', taken, rfl⟩⟩ := kept index old held
  · exact ⟨new, held', .refl new⟩
  · exact ⟨_, held', each item taken element demand' old⟩

/-- A record in which nothing of a name is touched keeps what it holds under the name, wherever it stands. -/
theorem assign_keeps {value : Value} {type : Ty} {path : List Place} {name : String}
    (inPlace : schema.InPlace (schema.Spares name) value type path) (element : String) (demand : Demand)
    (target : Data) : target.Keeps path name (schema.assign value type element demand target).target := by
  induction inPlace generalizing element demand target with
  | here spares =>
    obtain ⟨record, rfl, overlooks⟩ := spares
    exact keeps_here overlooks element demand target
  | option visible inside ih =>
    cases target with
    | present data =>
      rw [assign_option _ _ _ _ _ visible]
      exact ih element demand data
    | _ => exact .nothing rfl _
  | box inside ih =>
    cases target with
    | present data =>
      rw [assign_box]
      exact ih element demand data
    | _ => exact .nothing rfl _
  | @field value record field path inside ih =>
    cases value with
    | string | list => exact .refl target
    | map entries =>
      cases target with
      | record slots => exact keeps_field (ih entries rfl) element demand slots
      | _ => exact .nothing rfl _
  | item inside ih =>
    cases target with
    | list items => exact keeps_item ih element demand items
    | _ => exact .nothing rfl _

end Schema

/-- Of the entries of a map, a record looks only at those that a field takes. -/
theorem Assignment.fields_filter {σ : Type} {schema : Schema} {plan : Plan} (assigns : Keyed (Assignment σ)) :
    fields schema plan assigns = fields schema plan (assigns.filter fun entry => (plan.find? entry.1).isSome) := by
  induction assigns with
  | nil => rfl
  | cons entry rest ih =>
    obtain ⟨key, assign⟩ := entry
    funext registry target
    cases found : plan.find? key with
    | none =>
      rw [fields_pass found, List.filter_cons_of_neg (by simp [found]), ih]
    | some planned =>
      rw [List.filter_cons_of_pos (by simp [found])]
      unfold fields
      rw [ih]

namespace Registry
variable {schema : Schema} {registry : Registry}

/-- Whether it succeeds or fails, unmarshaling touches no field that the document says nothing of, neither at the root
nor at any record that something is assigned to in place. And entries that no field of a record takes change nothing. -/
theorem unmarshal_spares (coherent : registry.Coherent schema) :
    (∀ value type path name, schema.InPlace (schema.Spares name) value type path → ∀ element (target : Data),
      target.Keeps path name (schema.assign value type element registry target).target) ∧
    (∀ xml record path name, (∀ value, Value.ofStream (.ofBytes xml) = .ok value →
        schema.InPlace (schema.Spares name) value (.record record) path) → ∀ target : Data,
      target.Keeps path name (registry.unmarshal schema (.record record) xml target).target) ∧
    ∀ record (entries entries' : Entries),
      entries.filter (fun entry => ((schema.plan record).find? entry.1).isSome) =
        entries'.filter (fun entry => ((schema.plan record).find? entry.1).isSome) → ∀ element target,
      schema.assign (.map entries) (.record record) element registry target =
        schema.assign (.map entries') (.record record) element registry target := by
  have kept (value : Value) (type : Ty) (path : List Place) (name : String)
      (inPlace : schema.InPlace (schema.Spares name) value type path) (element : String) (target : Data) :
      target.Keeps path name (schema.assign value type element registry target).target := by
    rw [(schema.assign_mirrors value type element registry {} target coherent.answers).target]
    exact schema.assign_keeps inPlace element {} target
  refine ⟨kept, fun xml record path name inPlace target => ?_, fun record entries entries' same element target => ?_⟩
  · unfold Registry.unmarshal Schema.unmarshal
    dsimp only
    cases read : Value.ofStream (.ofBytes xml) with
    | ok value => exact kept value _ path name (inPlace value read) _ target
    | error e => exact .refl target
  · have plan : (Directory.plan schema record registry).1 = schema.plan record := (coherent.plan_eq record).1
    have assigns (entries : Entries) :
        (entries.map fun entry => (entry.1, schema.assign (σ := Registry) entry.2)).filter
          (fun entry => ((schema.plan record).find? entry.1).isSome) =
        (entries.filter fun entry => ((schema.plan record).find? entry.1).isSome).map
          fun entry => (entry.1, schema.assign (σ := Registry) entry.2) := List.filter_map
    rw [Schema.assign_record, Schema.assign_record, plan, Assignment.fields_filter, assigns, same, ← assigns,
      ← Assignment.fields_filter]

/-- A key that two fields have, a record inside a record, and an assignment that fails behind it. -/
theorem unmarshal_spares_behind :
    let schema : Schema := {
      records := [
        ("Outer", ⟨"Outer", [⟨"inner", .record "Inner", "x"⟩, ⟨"other", .string, "x"⟩, ⟨"done", .scalar .bool, ""⟩],
          .record []⟩),
        ("Inner", ⟨"Inner", [⟨"a", .string, ""⟩, ⟨"b", .string, ""⟩], .record []⟩)],
      customs := [], typeName := fun _ => "" }
    let value : Value := .map [("x", .map [("a", .string "1")]), ("done", .string "perhaps")]
    let target : Data := .record [("inner", .record [("a", .scalar (.text "")), ("b", .scalar (.text "kept"))]),
      ("other", .scalar (.text "kept")), ("done", .scalar (.bool false))]
    let done := schema.assign value (.record "Outer") "" ({} : Registry) target
    done.error?.isSome = true ∧ target.Keeps [] "other" done.target ∧
      target.Keeps [.field "inner"] "b" done.target := by
  intro schema value target done
  have outer : schema.fields "Outer" =
      [⟨"inner", .record "Inner", "x"⟩, ⟨"other", .string, "x"⟩, ⟨"done", .scalar .bool, ""⟩] := rfl
  have inner : schema.fields "Inner" = [⟨"a", .string, ""⟩, ⟨"b", .string, ""⟩] := rfl
  have hidden : schema.Overlooks "Outer" ["x", "done"] "other" := by
    intro before field after listed named
    rw [outer] at listed
    rcases before with _ | ⟨first, _ | ⟨second, rest⟩⟩
    · cases listed
      exact absurd named (by decide)
    · cases listed
      exact .inr (.inr ⟨_, List.mem_cons_self, rfl, rfl⟩)
    · have last : field = ⟨"done", .scalar .bool, ""⟩ := by
        have rests : [⟨"done", .scalar .bool, ""⟩] = rest ++ field :: after :=
          (List.cons.inj (List.cons.inj listed).2).2
        exact List.mem_singleton.1 (rests ▸ List.mem_append_right _ List.mem_cons_self)
      subst last
      exact absurd named (by decide)
  have absent : schema.Overlooks "Inner" ["a"] "b" := by
    refine .of_absent ?_
    rw [inner]
    decide
  have spares := (unmarshal_spares (empty_coherent schema)).1 value (.record "Outer")
  refine ⟨rfl, spares [] "other" (.here ⟨_, rfl, fun entries same => ?_⟩) "" target,
    spares [.field "inner"] "b" (.field fun entries same entry member planned found named => ?_) "" target⟩
  · obtain rfl := Value.map.inj same
    exact hidden
  · obtain rfl := Value.map.inj same
    rcases List.mem_cons.1 member with rfl | member
    · obtain rfl : ⟨⟨"inner", .record "Inner", "x"⟩, { name := "x" }⟩ = planned := Option.some.inj found
      refine .here ⟨_, rfl, fun entries same => ?_⟩
      obtain rfl := Value.map.inj same
      exact absent
    · obtain rfl := List.mem_singleton.1 member
      obtain rfl : ⟨⟨"done", .scalar .bool, ""⟩, { name := "done" }⟩ = planned := Option.some.inj found
      exact absurd named (by decide)

end Registry

end XmlBinding
