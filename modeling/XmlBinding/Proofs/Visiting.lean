import XmlBinding.Proofs.Ordering
import XmlBinding.Proofs.Taking

/-! The order in which entries are visited. The entries of a map are assigned one after another to one target. Each
changes one place of it, the slot of a field or an entry of a map, and no other; so where no two entries go to the same
place, what is left does not depend on the order. Where two do, it may be what the later one says. -/
namespace XmlBinding

namespace Schema

/-- Two entries of one map, somewhere in a value, go to the same place. -/
inductive Clashes (schema : Schema) : Value → Ty → Prop where
  /-- Two names are read as one key. -/
  | keys {entries : Entries} (first : (name, value) ∈ entries) (second : (name', value') ∈ entries)
      (apart : name ≠ name') (read : key.read? name = some scalar) (read' : key.read? name' = some scalar')
      (same : scalar.format = scalar'.format) : Clashes schema (.map entries) (.map family (.scalar key) type)
  /-- Two listings of one field take one entry each. -/
  | listings {entries : Entries} (first : (key, value) ∈ entries) (second : (key', value') ∈ entries)
      (apart : key ≠ key') (found : (schema.plan record).find? key = some planned)
      (found' : (schema.plan record).find? key' = some planned')
      (same : planned.field.name = planned'.field.name) : Clashes schema (.map entries) (.record record)
  | field {entries : Entries} (held : (key, value) ∈ entries) (found : (schema.plan record).find? key = some planned)
      (inside : Clashes schema value planned.field.type) : Clashes schema (.map entries) (.record record)
  | entry {entries : Entries} (held : (name, value) ∈ entries) (inside : Clashes schema value type) :
      Clashes schema (.map entries) (.map family key type)
  | option (inside : Clashes schema value target) : Clashes schema value (.option target)
  | box (inside : Clashes schema value target) : Clashes schema value (.box target)
  | item (held : item ∈ value.asList) (inside : Clashes schema item element) : Clashes schema value (.sequence element)
  | slot (held : item ∈ value.asList) (inside : Clashes schema item element) :
      Clashes schema value (.array element length)

end Schema

/-- Entries of which no two go to the same place. -/
def Apart (place : String → Option String) (entries : Entries) : Prop :=
  entries.Pairwise fun entry other => ∀ name, place entry.1 = some name → place other.1 ≠ some name

/-- What has become of some places: each that an entry goes to holds what was made of this entry there, and each other
one what it held before. -/
structure Spread (place : String → Option String) (made : String × Value → Data → Prop) (entries : Entries)
    (before after : Keyed Data) : Prop where
  taken : ∀ entry ∈ entries, ∀ name, place entry.1 = some name → ∃ data, after.get? name = some data ∧ made entry data
  kept : ∀ name, (∀ entry ∈ entries, place entry.1 ≠ some name) → after.get? name = before.get? name

namespace Spread
variable {place : String → Option String} {made made' : String × Value → Data → Prop} {entries entries' : Entries}
  {before before' after after' : Keyed Data}

theorem nil : Spread place made [] before before := ⟨List.forall_mem_nil _, fun _ _ => rfl⟩

theorem skip (none : place entry.1 = none) (spread : Spread place made entries before after) :
    Spread place made (entry :: entries) before after where
  taken := List.forall_mem_cons.2 ⟨fun _ goes => absurd (none.symm.trans goes) nofun, spread.taken⟩
  kept name other := spread.kept name (List.forall_mem_cons.1 other).2

/-- An entry changes the place that it goes to, and those that come later find all other places as they were. -/
theorem cons (goes : place entry.1 = some name) (apart : Apart place (entry :: entries)) {middle : Keyed Data}
    (changed : ∀ other, middle.get? other = if other = name then some data else before.get? other)
    (here : made entry data) (spread : Spread place made' entries middle after)
    (same : ∀ later ∈ entries, ∀ other, other ≠ name → place later.1 = some other → ∀ data, made' later data →
      made later data) :
    Spread place made (entry :: entries) before after := by
  obtain ⟨alone, -⟩ := List.pairwise_cons.1 apart
  constructor
  · refine List.forall_mem_cons.2 ⟨fun other there => ?_, fun later member other there => ?_⟩
    · cases goes.symm.trans there
      refine ⟨data, ?_, here⟩
      rw [spread.kept name fun later member => alone later member name goes, changed, if_pos rfl]
    · obtain ⟨data, found, made⟩ := spread.taken later member other there
      have different : other ≠ name := fun equal => alone later member name goes (equal ▸ there)
      exact ⟨data, found, same later member other different there data made⟩
  · intro other untouched
    obtain ⟨first, rest⟩ := List.forall_mem_cons.1 untouched
    have different : other ≠ name := fun equal => first (equal ▸ goes)
    rw [spread.kept other rest, changed, if_neg different]

section Pair
variable (spread : Spread place made entries before after) (spread' : Spread place made' entries' before' after')
  (same : (Value.map entries).content = (Value.map entries').content) (keys : Keyed.Distinct entries)
  (keys' : Keyed.Distinct entries')
include spread spread' same keys keys'

/-- Maps of the same content go to the same places: each is either left alone by both, or holds what was made of the
same content. -/
theorem pair (name : String) :
    (after.get? name = before.get? name ∧ after'.get? name = before'.get? name) ∨
    ∃ key value value', (key, value) ∈ entries ∧ (key, value') ∈ entries' ∧ value.content = value'.content ∧
      place key = some name ∧ (∃ data, after.get? name = some data ∧ made (key, value) data) ∧
        ∃ data, after'.get? name = some data ∧ made' (key, value') data := by
  by_cases touched : ∃ entry ∈ entries, place entry.1 = some name
  · obtain ⟨⟨key, value⟩, member, goes⟩ := touched
    obtain ⟨value', found, equal⟩ := Value.found_of_content same (Keyed.get?_of_mem keys member)
    have member' := Keyed.mem_of_get? found
    exact .inr ⟨key, value, value', member, member', equal, goes, spread.taken _ member name goes,
      spread'.taken _ member' name goes⟩
  · refine .inl ⟨spread.kept name fun entry member goes => touched ⟨entry, member, goes⟩,
      spread'.kept name fun entry member goes => ?_⟩
    obtain ⟨other, found, -⟩ := Value.found_of_content same.symm (Keyed.get?_of_mem keys' member)
    exact touched ⟨(entry.1, other), Keyed.mem_of_get? found, goes⟩

theorem keys_iff (alike : ∀ name, name ∈ before.keys ↔ name ∈ before'.keys) (name : String) :
    name ∈ after.keys ↔ name ∈ after'.keys := by
  have alike := alike name
  rw [← Keyed.get?_isSome_iff, ← Keyed.get?_isSome_iff] at alike ⊢
  rcases spread.pair spread' same keys keys' name with
    ⟨kept, kept'⟩ | ⟨_, _, _, _, _, _, _, ⟨_, held, _⟩, _, held', _⟩
  · rw [kept, kept', alike]
  · rw [held, held']
    rfl

/-- What holds of what both found in a place, and of what both made of the same content for it, holds of what both leave
there. -/
theorem relate {related : Data → Data → Prop} {name : String}
    (kept : ∀ x y, before.get? name = some x → before'.get? name = some y → related x y)
    (made : ∀ key value value' x y, (key, value) ∈ entries → (key, value') ∈ entries' → value.content = value'.content →
      place key = some name → made (key, value) x → made' (key, value') y → related x y)
    (x y : Data) (found : after.get? name = some x) (found' : after'.get? name = some y) : related x y := by
  rcases spread.pair spread' same keys keys' name with
    ⟨left, left'⟩ | ⟨key, value, value', held, held', equal, goes, ⟨_, holds, here⟩, _, holds', here'⟩
  · exact kept x y (left ▸ found) (left' ▸ found')
  · cases found.symm.trans holds
    cases found'.symm.trans holds'
    exact made key value value' x y held held' equal goes here here'

end Pair

end Spread

namespace Assignment
variable {schema : Schema} {assign : Value → Assignment Demand}

/-- The slot that an entry of a record goes to. -/
def slotOf (plan : Plan) (key : String) : Option String := (plan.find? key).map (·.field.name)

/-- What a field makes of an entry. -/
def FieldMade (schema : Schema) (assign : Value → Assignment Demand) (plan : Plan) (slots : Keyed Data)
    (entry : String × Value) (data : Data) : Prop :=
  ∃ planned demand, plan.find? entry.1 = some planned ∧
    let done := assign entry.2 planned.field.type planned.tag.name demand
      ((slots.get? planned.field.name).getD (schema.blank planned.field.type))
    done.error? = none ∧ done.target = data

/-- The fields of a record after all entries have been assigned. -/
theorem fields_spread {plan : Plan} {entries : Entries} (apart : Apart (slotOf plan) entries) (demand : Demand)
    (slots : Keyed Data) (ok : (fields schema plan (entries.map fun entry => (entry.1, assign entry.2)) demand
      (.record slots)).error? = none) :
    ∃ slots', (fields schema plan (entries.map fun entry => (entry.1, assign entry.2)) demand (.record slots)).target =
      .record slots' ∧ Spread (slotOf plan) (FieldMade schema assign plan slots) entries slots slots' := by
  induction entries generalizing demand slots with
  | nil => exact ⟨slots, rfl, .nil⟩
  | cons entry rest ih =>
    obtain ⟨key, value⟩ := entry
    have apart' := (List.pairwise_cons.1 apart).2
    rw [List.map_cons] at ok ⊢
    cases found : plan.find? key with
    | none =>
      rw [fields_pass found] at ok ⊢
      obtain ⟨slots', left, spread⟩ := ih apart' demand slots ok
      exact ⟨slots', left, spread.skip (by rw [slotOf, found]; rfl)⟩
    | some planned =>
      rw [fields_take found] at ok ⊢
      obtain ⟨here, later⟩ := Assigned.andThen_error?.1 ok
      rw [Assigned.andThen_of_done here]
      obtain ⟨slots', left, spread⟩ := ih apart' _ _ later
      have goes {key : String} {planned : PlannedField} (found : plan.find? key = some planned) :
          slotOf plan key = some planned.field.name := by
        rw [slotOf, found]
        rfl
      refine ⟨slots', left, .cons (goes found) apart (Keyed.get?_put _ _ · _)
        ⟨planned, demand, found, Assigned.part_error?.1 here, rfl⟩ spread ?_⟩
      rintro later member other different there data ⟨planned', demand', found', ok, made⟩
      cases (goes found').symm.trans there
      have untouched := Keyed.get?_put slots planned.field.name planned'.field.name
        (assign value planned.field.type planned.tag.name demand
          ((slots.get? planned.field.name).getD (schema.blank planned.field.type))).target
      rw [if_neg different] at untouched
      refine ⟨planned', demand', found', ?_⟩
      rw [← untouched]
      exact ⟨ok, made⟩

/-- The entry of a map that an entry of a value becomes. -/
def keyOf (key : ScalarType) (name : String) : Option String := (key.read? name).map Scalar.format

/-- What is made of an entry that is assigned to a new value. -/
def EntryMade (schema : Schema) (assign : Value → Assignment Demand) (type : Ty) (entry : String × Value)
    (data : Data) : Prop :=
  ∃ demand, let done := assign entry.2 type entry.1 demand (schema.blank type); done.error? = none ∧ done.target = data

/-- The entries of a map after all entries have been assigned. -/
theorem entries_spread {key : ScalarType} {type : Ty} {entries : Entries} (apart : Apart (keyOf key) entries)
    (demand : Demand) (old : Keyed Data) (ok : (Assignment.entries schema key type
      (entries.map fun entry => (entry.1, assign entry.2)) demand (.map old)).error? = none) :
    ∃ new, (Assignment.entries schema key type (entries.map fun entry => (entry.1, assign entry.2)) demand
      (.map old)).target = .map new ∧ Spread (keyOf key) (EntryMade schema assign type) entries old new := by
  induction entries generalizing demand old with
  | nil => exact ⟨old, rfl, .nil⟩
  | cons entry rest ih =>
    obtain ⟨name, value⟩ := entry
    have apart' := (List.pairwise_cons.1 apart).2
    rw [List.map_cons] at ok ⊢
    cases read : key.read? name with
    | none => exact absurd ok (entries_unread read _)
    | some scalar =>
      rw [entries_add read] at ok ⊢
      obtain ⟨here, later⟩ := Assigned.andThen_error?.1 ok
      have done := Assigned.part_error?.1 here
      rw [Assigned.andThen_of_done here]
      dsimp only [Assigned.part] at later ⊢
      rw [done] at later ⊢
      obtain ⟨new, left, spread⟩ := ih apart' _ _ later
      have goes : keyOf key name = some scalar.format := by
        rw [keyOf, read]
        rfl
      exact ⟨new, left, .cons goes apart (Keyed.get?_place _ _ · _) ⟨demand, done, rfl⟩ spread
        fun _ _ _ _ _ _ made => made⟩

/-- What is made of a value in a place that holds something. -/
def ItemMade (assign : Value → Assignment Demand) (type : Ty) (name : String) (value : Value) (old new : Data) : Prop :=
  ∃ demand, let done := assign value type name demand old; done.error? = none ∧ done.target = new

/-- The items of a sequence after all values have been assigned. -/
theorem items_made {type : Ty} {values : List Value} (before : List Data) (demand : Demand)
    (ok : (Assignment.items schema type name (values.map assign) before demand).error? = none) :
    ∃ items, (Assignment.items schema type name (values.map assign) before demand).target = .list (before ++ items) ∧
      List.Forall₂ (fun value => ItemMade assign type name value (schema.blank type)) values items := by
  induction values generalizing before demand with
  | nil => exact ⟨[], congrArg Data.list (List.append_nil _).symm, .nil⟩
  | cons value rest ih =>
    rw [List.map_cons] at ok ⊢
    by_cases here : (assign value type name demand (schema.blank type)).error? = none
    · rw [items_done before here] at ok ⊢
      obtain ⟨items, left, made⟩ := ih _ _ ok
      rw [List.append_assoc] at left
      exact ⟨_, left, .cons ⟨demand, here, rfl⟩ made⟩
    · exact absurd ok (items_failed before here)

/-- The items of an array after all values have been assigned: as many as there are values have been changed. -/
theorem inPlace_made {type : Ty} {values : List Value} (before after : List Data) (demand : Demand)
    (room : values.length ≤ after.length)
    (ok : (inPlace type name (values.map assign) before after demand).error? = none) :
    ∃ items, (inPlace type name (values.map assign) before after demand).target =
        .list (before ++ (items ++ after.drop values.length)) ∧
      List.Forall₂ (fun pair => ItemMade assign type name pair.1 pair.2) (values.zip after) items := by
  induction values generalizing before after demand with
  | nil => exact ⟨[], rfl, .nil⟩
  | cons value rest ih =>
    cases after with
    | nil => cases room
    | cons old after =>
      rw [List.map_cons] at ok ⊢
      by_cases here : (assign value type name demand old).error? = none
      · rw [inPlace_done before after here] at ok ⊢
        obtain ⟨items, left, made⟩ := ih _ _ _ (Nat.le_of_succ_le_succ room) ok
        rw [List.append_assoc] at left
        exact ⟨_, left, .cons ⟨demand, here, rfl⟩ made⟩
      · exact absurd ok (inPlace_failed before after here)

end Assignment

/-- Entries are apart if no two keys of a map of the same content have one place. -/
theorem Apart.of_content {place : String → Option String} {entries entries' : Entries}
    (keys : Keyed.Distinct entries') (same : (Value.map entries).content = (Value.map entries').content)
    (alone : ∀ key key' value value' name, (key, value) ∈ entries → (key', value') ∈ entries → key ≠ key' →
      place key = some name → place key' ≠ some name) : Apart place entries' := by
  have different : entries'.Pairwise fun entry other => entry.1 ≠ other.1 := List.pairwise_map.1 keys
  refine different.imp_of_mem fun {entry other} member member' apart name goes goes' => ?_
  obtain ⟨value, found, -⟩ := Value.found_of_content same.symm (Keyed.get?_of_mem keys member)
  obtain ⟨value', found', -⟩ := Value.found_of_content same.symm (Keyed.get?_of_mem keys member')
  exact alone _ _ _ _ name (Keyed.mem_of_get? found) (Keyed.mem_of_get? found') apart goes goes'

namespace Schema
variable {schema : Schema}

/-- Whatever has the same content leaves the same in a target that is the same. -/
def Steady (schema : Schema) (value : Value) (type : Ty) : Prop :=
  ∀ (other : Value) (name : String) (demand demand' : Demand) (target target' : Data), other.Distinct →
    value.content = other.content → schema.Regular type target → schema.Regular type target' →
    schema.Reordered type target target' → (schema.assign value type name demand target).error? = none →
    (schema.assign other type name demand' target').error? = none →
      schema.Reordered type (schema.assign value type name demand target).target
        (schema.assign other type name demand' target').target

theorem steady_of_refused {value : Value} {type : Ty}
    (refused : ∀ name demand target, (schema.assign (σ := Demand) value type name demand target).error? ≠ none) :
    schema.Steady value type := fun _ _ _ _ _ _ _ _ _ _ _ ok _ => absurd ok (refused _ _ _)

theorem apart_slots {record : String} {entries entries' : Entries}
    (clear : ¬ schema.Clashes (.map entries) (.record record)) (keys : Keyed.Distinct entries')
    (same : (Value.map entries).content = (Value.map entries').content) :
    Apart (Assignment.slotOf (schema.plan record)) entries' := by
  refine .of_content keys same fun key key' value value' name member member' apart goes goes' => ?_
  obtain ⟨planned, found, rfl⟩ := Option.map_eq_some_iff.1 goes
  obtain ⟨planned', found', equal⟩ := Option.map_eq_some_iff.1 goes'
  exact clear (.listings member member' apart found found' equal.symm)

theorem apart_keys {key : ScalarType} {type : Ty} {entries entries' : Entries}
    (clear : ¬ schema.Clashes (.map entries) (.map family (.scalar key) type)) (keys : Keyed.Distinct entries')
    (same : (Value.map entries).content = (Value.map entries').content) : Apart (Assignment.keyOf key) entries' := by
  refine .of_content keys same fun one other value value' name member member' apart goes goes' => ?_
  obtain ⟨scalar, read, rfl⟩ := Option.map_eq_some_iff.1 goes
  obtain ⟨scalar', read', equal⟩ := Option.map_eq_some_iff.1 goes'
  exact clear (.keys member member' apart read read' equal.symm)

theorem steady_record (consistent : schema.Consistent) {record : String} {entries : Entries}
    (distinct : (Value.map entries).Distinct) (clear : ¬ schema.Clashes (.map entries) (.record record))
    (each : ∀ entry ∈ entries, ∀ planned, (schema.plan record).find? entry.1 = some planned →
      schema.Steady entry.2 planned.field.type) : schema.Steady (.map entries) (.record record) := by
  intro other name demand demand' target target' distinct' same regular regular' reordered ok ok'
  obtain ⟨entries', rfl⟩ := Value.eq_map_of_content same
  cases distinct with | map keys _ =>
  cases distinct' with | map keys' each' =>
  obtain ⟨slots, rfl⟩ := regular.eq_record
  obtain ⟨slots', rfl⟩ := regular'.eq_record
  have plan (demand : Demand) : (Directory.plan schema record demand).1 = schema.plan record := rfl
  rw [assign_record, plan] at ok ok' ⊢
  rw [assign_record, plan]
  obtain ⟨after, left, spread⟩ := Assignment.fields_spread (apart_slots clear keys rfl) _ slots ok
  obtain ⟨after', left', spread'⟩ := Assignment.fields_spread (apart_slots clear keys' same) _ slots' ok'
  rw [left, left']
  refine .record (spread.keys_iff spread' same keys keys' reordered.keys_record) fun field member =>
    spread.relate spread' same keys keys' (fun x y found found' => ?_) ?_
  · have slot := reordered.slot member .absent
    rwa [found, found'] at slot
  · rintro key value value' _ _ held held' equal goes ⟨planned, d, takes, ok, rfl⟩ ⟨_, d', takes', ok', rfl⟩
    cases takes.symm.trans takes'
    obtain ⟨_, takes', names⟩ := Option.map_eq_some_iff.1 goes
    cases takes.symm.trans takes'
    have member' := (mem_plan.1 (List.mem_of_find?_eq_some takes)).1
    rw [consistent.fields record field member planned.field member' names.symm]
    exact each _ held planned takes value' _ d d' _ _ (each' _ held') equal (regular.slot consistent member')
      (regular'.slot consistent member') (reordered.slot member' _) ok ok'

theorem steady_map (consistent : schema.Consistent) {key : ScalarType} {type : Ty} {entries : Entries}
    (distinct : (Value.map entries).Distinct) (customless : schema.Customless (.map family (.scalar key) type))
    (clear : ¬ schema.Clashes (.map entries) (.map family (.scalar key) type))
    (each : ∀ entry ∈ entries, schema.Steady entry.2 type) :
    schema.Steady (.map entries) (.map family (.scalar key) type) := by
  intro other name demand demand' target target' distinct' same regular regular' reordered ok ok'
  have sorted := ((assign_settles consistent _ customless) name demand target regular).regular ok
  have sorted' := ((assign_settles consistent _ customless) name demand' target' regular').regular ok'
  obtain ⟨entries', rfl⟩ := Value.eq_map_of_content same
  cases distinct with | map keys _ =>
  cases distinct' with | map keys' each' =>
  obtain ⟨old, rfl⟩ := regular.eq_map
  obtain ⟨old', rfl⟩ := regular'.eq_map
  rw [assign_map] at ok ok' sorted sorted' ⊢
  rw [assign_map]
  obtain ⟨new, left, spread⟩ := Assignment.entries_spread (apart_keys clear keys rfl) demand old ok
  obtain ⟨new', left', spread'⟩ := Assignment.entries_spread (apart_keys clear keys' same) demand' old' ok'
  rw [left] at sorted
  rw [left'] at sorted'
  rw [left, left']
  cases sorted with | map ascending =>
  cases sorted' with | map ascending' =>
  obtain ⟨alike, under⟩ := reordered.under
  have names := spread.keys_iff spread' same keys keys' alike
  have keyed := (List.perm_ext_iff_of_nodup ascending.distinct ascending'.distinct).2 names
  refine .map ascending.distinct keyed fun name => spread.relate spread' same keys keys' (under name) ?_
  rintro key value value' _ _ held held' equal - ⟨d, ok, rfl⟩ ⟨d', ok', rfl⟩
  have blank := regular_blank consistent type
  exact each _ held value' _ d d' _ _ (each' _ held') equal blank blank (.same _ _) ok ok'

theorem getElem?_of_forall₂ {R : α → β → Prop} {as : List α} {bs : List β} (all : List.Forall₂ R as bs) {i : Nat}
    (found : bs[i]? = some b) : ∃ a, as[i]? = some a ∧ R a b := by
  induction all generalizing i with
  | nil => cases found
  | cons here later ih =>
    cases i with
    | zero =>
      cases found
      exact ⟨_, rfl, here⟩
    | succ i => exact ih found

theorem content_of_getElem? {values values' : List Value} (same : values.map Value.content = values'.map Value.content)
    {i : Nat} {value value' : Value} (found : values[i]? = some value) (found' : values'[i]? = some value') :
    value.content = value'.content := by
  have there := congrArg (·[i]?) same
  simpa [found, found'] using there

theorem Steady.made {type : Ty} {value value' : Value} {old old' new new' : Data} (steady : schema.Steady value type)
    (distinct' : value'.Distinct) (same : value.content = value'.content) (regular : schema.Regular type old)
    (regular' : schema.Regular type old') (reordered : schema.Reordered type old old')
    (made : Assignment.ItemMade schema.assign type name value old new)
    (made' : Assignment.ItemMade schema.assign type name value' old' new') : schema.Reordered type new new' := by
  obtain ⟨demand, ok, rfl⟩ := made
  obtain ⟨demand', ok', rfl⟩ := made'
  exact steady value' name demand demand' old old' distinct' same regular regular' reordered ok ok'

theorem steady_sequence (consistent : schema.Consistent) {element : Ty} {value : Value}
    (each : ∀ item ∈ value.asList, schema.Steady item element) : schema.Steady value (.sequence element) := by
  intro other name demand demand' target target' distinct' same regular regular' reordered ok ok'
  have contents := Value.asList_of_content same
  have blank := regular_blank consistent element
  rw [assign_sequence] at ok ok' ⊢
  rw [assign_sequence]
  obtain ⟨items, left, made⟩ := Assignment.items_made [] demand ok
  obtain ⟨items', left', made'⟩ := Assignment.items_made [] demand' ok'
  rw [left, left']
  have lengths : items.length = items'.length := by
    have counted := congrArg List.length contents
    rwa [List.length_map, List.length_map, made.length_eq, made'.length_eq] at counted
  refine .sequence lengths fun i x y found found' => ?_
  obtain ⟨item, held, made⟩ := getElem?_of_forall₂ made found
  obtain ⟨item', held', made'⟩ := getElem?_of_forall₂ made' found'
  exact (each item (List.mem_of_getElem? held)).made (distinct'.asList item' (List.mem_of_getElem? held'))
    (content_of_getElem? contents held held') blank blank (.same _ _) made made'

theorem steady_array {element : Ty} {length : Nat} {value : Value}
    (each : ∀ item ∈ value.asList, schema.Steady item element) : schema.Steady value (.array element length) := by
  intro other name demand demand' target target' distinct' same regular regular' reordered ok ok'
  have contents := congrArg (List.take length) (Value.asList_of_content same)
  rw [← List.map_take, ← List.map_take] at contents
  cases regular with | array room each' =>
  cases regular' with | array room' each'' =>
  rename_i slots slots'
  obtain ⟨slotted, places⟩ := reordered.places
  have counted : (value.asList.take length).length = (other.asList.take length).length := by
    simpa using congrArg List.length contents
  have fits : (value.asList.take length).length ≤ slots.length := room ▸ List.length_take_le ..
  have fits' : (other.asList.take length).length ≤ slots'.length := room' ▸ List.length_take_le ..
  have held (items : List Data) : schema.slots element length (.list items) = items := rfl
  rw [assign_array, held] at ok ok' ⊢
  rw [assign_array, held]
  obtain ⟨items, left, made⟩ := Assignment.inPlace_made [] slots demand fits ok
  obtain ⟨items', left', made'⟩ := Assignment.inPlace_made [] slots' demand' fits' ok'
  rw [left, left']
  have filled : items.length = (value.asList.take length).length := by
    rw [← made.length_eq, List.length_zip, Nat.min_eq_left fits]
  have filled' : items'.length = (value.asList.take length).length := by
    rw [← made'.length_eq, List.length_zip, Nat.min_eq_left fits', counted]
  simp only [List.nil_append, ← counted]
  have lengths : (items ++ slots.drop (value.asList.take length).length).length =
      (items' ++ slots'.drop (value.asList.take length).length).length := by
    simp only [List.length_append, List.length_drop, filled, filled', slotted]
  refine .array lengths fun i x y found found' => ?_
  -- The first items have been assigned, the others are as they were.
  by_cases assigned : i < (value.asList.take length).length
  · rw [List.getElem?_append_left (filled ▸ assigned)] at found
    rw [List.getElem?_append_left (filled' ▸ assigned)] at found'
    obtain ⟨⟨item, old⟩, held, made⟩ := getElem?_of_forall₂ made found
    obtain ⟨⟨item', old'⟩, held', made'⟩ := getElem?_of_forall₂ made' found'
    obtain ⟨held, was⟩ := List.getElem?_zip_eq_some.1 held
    obtain ⟨held', was'⟩ := List.getElem?_zip_eq_some.1 held'
    exact (each item (List.mem_of_mem_take (List.mem_of_getElem? held))).made
      (distinct'.asList item' (List.mem_of_mem_take (List.mem_of_getElem? held')))
      (content_of_getElem? contents held held') (each' old (List.mem_of_getElem? was))
      (each'' old' (List.mem_of_getElem? was')) (places i old old' was was') made made'
  · have beyond := Nat.not_lt.1 assigned
    rw [List.getElem?_append_right (filled ▸ beyond), List.getElem?_drop, filled, Nat.add_sub_cancel' beyond] at found
    rw [List.getElem?_append_right (filled' ▸ beyond), List.getElem?_drop, filled',
      Nat.add_sub_cancel' beyond] at found'
    exact places i x y found found'

theorem assign_scalar {value : Value} {type : ScalarType} {demand : Demand} {target : Data}
    (ok : (schema.assign value (.scalar type) name demand target).error? = none) :
    ∃ scalar, type.read? value.text = some scalar ∧
      (schema.assign value (.scalar type) name demand target).target = .scalar scalar := by
  cases value with
  | list => cases ok
  | string | map =>
    change (schema.assignScalar _ type demand target).error? = none at ok
    show ∃ scalar, _ ∧ (schema.assignScalar _ type demand target).target = _
    unfold assignScalar at ok ⊢
    split at ok
    · rename_i scalar read
      rw [read]
      exact ⟨scalar, rfl, rfl⟩
    · cases ok

/-- What two options hold, or two boxes, is the same too. -/
theorem Reordered.held {target : Ty} {a b : Data} (reordered : schema.Reordered type a b)
    (around : type = .option target ∨ type = .box target) :
    schema.Reordered target (schema.held target a) (schema.held target b) := by
  cases reordered with
  | same => exact .same _ _
  | option inside =>
    rcases around with around | around <;> cases around
    exact inside
  | box inside =>
    rcases around with around | around <;> cases around
    exact inside
  | _ => rcases around with around | around <;> cases around

theorem steady_scalar {value : Value} (type : ScalarType) : schema.Steady value (.scalar type) := by
  intro other name demand demand' target target' distinct' same regular regular' reordered ok ok'
  obtain ⟨scalar, read, left⟩ := assign_scalar ok
  obtain ⟨scalar', read', left'⟩ := assign_scalar ok'
  rw [← Value.text_of_content same] at read'
  cases read.symm.trans read'
  rw [left, left']
  exact .same _ _

theorem steady_box (consistent : schema.Consistent) {value : Value} {target : Ty}
    (steady : schema.Steady value target) : schema.Steady value (.box target) := by
  intro other name demand demand' data data' distinct' same regular regular' reordered ok ok'
  cases regular with | box inside =>
  cases regular' with | box inside' =>
  rw [assign_box] at ok ok' ⊢
  rw [assign_box]
  exact .box (steady other name demand demand' _ _ distinct' same (regular_held consistent inside)
    (regular_held consistent inside') (reordered.held (.inr rfl)) (Assigned.part_error?.1 ok)
    (Assigned.part_error?.1 ok'))

theorem steady_option (consistent : schema.Consistent) {value : Value} {target : Ty} (visible : value ≠ .map [])
    (steady : schema.Steady value target) : schema.Steady value (.option target) := by
  intro other name demand demand' data data' distinct' same regular regular' reordered ok ok'
  have visible' : other ≠ .map [] := by
    rintro rfl
    exact visible (Value.eq_nothing_of_content same.symm)
  cases regular with | option inside =>
  cases regular' with | option inside' =>
  rw [assign_option _ _ _ _ _ visible] at ok ⊢
  rw [assign_option _ _ _ _ _ visible'] at ok' ⊢
  exact .option (steady other name demand demand' _ _ distinct' same (regular_held consistent inside)
    (regular_held consistent inside') (reordered.held (.inl rfl)) (Assigned.part_error?.1 ok)
    (Assigned.part_error?.1 ok'))

/-- What is left of a target does not depend on the order of entries, if no two of them go to the same place. -/
theorem assign_steady (consistent : schema.Consistent) (value : Value) (distinct : value.Distinct) {type : Ty}
    (customless : schema.Customless type) (clear : ¬ schema.Clashes value type) : schema.Steady value type := by
  induction value, type using Value.assign_induction with
  | misfit misfits =>
    obtain ⟨e, -, refused⟩ := schema.assign_misfit (σ := Demand) misfits
    refine steady_of_refused fun name demand target => ?_
    rw [refused]
    exact nofun
  | scalar type => exact steady_scalar type
  | dynamic value =>
    intro other name demand demand' target target' distinct' same regular regular' reordered ok ok'
    rw [assign_dynamic, assign_dynamic]
    exact .dynamic (.native distinct distinct' ((Value.same_iff_content distinct distinct').2 same))
  | native value =>
    intro other name demand demand' target target' distinct' same regular regular' reordered ok ok'
    rw [assign_native, assign_native]
    exact .native distinct distinct' ((Value.same_iff_content distinct distinct').2 same)
  | custom value name => exact absurd .refl (customless name)
  | nothing target =>
    intro other name demand demand' data data' distinct' same regular regular' reordered ok ok'
    obtain rfl := Value.eq_nothing_of_content same
    exact .same _ _
  | option target visible ih =>
    exact steady_option consistent visible (ih distinct (customless.inside .option) fun inside => clear (.option inside))
  | box value target ih =>
    exact steady_box consistent (ih distinct (customless.inside .box) fun inside => clear (.box inside))
  | record entries record ih =>
    refine steady_record consistent distinct clear fun entry member planned found => ?_
    cases distinct with | map keys each =>
    exact ih entry member _ (each entry member) (customless.find? found) fun inside => clear (.field member found inside)
  | map entries family key type ih =>
    refine steady_map consistent distinct customless clear fun entry member => ?_
    cases distinct with | map keys each =>
    exact ih entry member (each entry member) (customless.inside .entry) fun inside => clear (.entry member inside)
  | sequence value element ih =>
    exact steady_sequence consistent fun item member => ih item member (distinct.asList item member)
      (customless.inside .sequence) fun inside => clear (.item member inside)
  | array value element length ih =>
    exact steady_array fun item member => ih item member (distinct.asList item member) (customless.inside .array)
      fun inside => clear (.slot member inside)

/-- A name that is read as a character is this character. -/
theorem format_char (read : ScalarType.char.read? name = some scalar) : scalar.format = name := by
  dsimp only [ScalarType.read?] at read
  split at read
  · rename_i c single
    cases read
    rw [← String.toList_inj, single, Scalar.format, Char.toString_eq_singleton, String.toList_singleton]
  · cases read

/-- Where keys are texts or characters and no field is listed twice, no two entries go to the same place. -/
theorem not_clashes (once : ∀ record ∈ schema.records, (record.2.fields.map Field.name).Nodup) {type : Ty}
    (texts : ∀ family key content, Relation.ReflTransGen schema.Assigns type (.map family (.scalar key) content) →
      key = .string ∨ key = .char) (value : Value) : ¬ schema.Clashes value type := by
  intro clashes
  induction clashes with
  | keys first second apart read read' same =>
    refine apart ?_
    rcases texts _ _ _ .refl with rfl | rfl
    · cases read
      cases read'
      exact same
    · rw [← format_char read, ← format_char read', same]
  | @listings _ _ _ _ record _ _ _ first second apart found found' same =>
    have listed := List.mem_of_find?_eq_some found
    have listed' := List.mem_of_find?_eq_some found'
    have planned := planned_eq listed listed' (field_eq once (mem_plan.1 listed).1 (mem_plan.1 listed').1 same)
    have named {key : String} {planned : PlannedField} (found : (schema.plan record).find? key = some planned) :
        planned.tag.key = key := by simpa using List.find?_some found
    exact apart (by rw [← named found, ← named found', planned])
  | field held found inside ih =>
    exact ih fun family key content reaches => texts family key content
      (.head (.field (List.mem_of_find?_eq_some found)) reaches)
  | entry held inside ih => exact ih fun family key content reaches => texts family key content (.head .entry reaches)
  | option inside ih => exact ih fun family key content reaches => texts family key content (.head .option reaches)
  | box inside ih => exact ih fun family key content reaches => texts family key content (.head .box reaches)
  | item held inside ih => exact ih fun family key content reaches => texts family key content (.head .sequence reaches)
  | slot held inside ih => exact ih fun family key content reaches => texts family key content (.head .array reaches)

end Schema

namespace Registry
variable {schema : Schema} {registry registry' : Registry}

/-- A value is assigned whatever the order of its entries, or in no order; it is assigned exactly if the type takes it.
And if no two entries of it go to the same place, then in all orders the same is left of a target. -/
theorem assign_ignores_order (consistent : schema.Consistent) (coherent : registry.Coherent schema)
    (coherent' : registry'.Coherent schema) {type : Ty} (customless : schema.Customless type) {target : Data}
    (regular : schema.Regular type target) {value other : Value} (distinct : value.Distinct)
    (distinct' : other.Distinct) (equal : (value == other) = true) (name : String) :
    ((schema.assign value type name registry target).error? = none ↔ schema.Takes value type) ∧
    ((schema.assign value type name registry target).error? = none ↔
      (schema.assign other type name registry' target).error? = none) ∧
    ((schema.assign value type name registry target).error? = none → ¬ schema.Clashes value type →
      schema.Reordered type (schema.assign value type name registry target).target
        (schema.assign other type name registry' target).target) := by
  have content := (Value.same_iff_content distinct distinct').1 equal
  have one := schema.assign_mirrors value type name registry {} target coherent.answers
  have two := schema.assign_mirrors other type name registry' {} target coherent'.answers
  have ok := (schema.assign_settles consistent value customless name {} target regular).ok
  have ok' := (schema.assign_settles consistent other customless name {} target regular).ok
  have taken : schema.Takes value type ↔ schema.Takes other type :=
    ⟨fun takes => takes.of_content distinct' content, fun takes => takes.of_content distinct content.symm⟩
  rw [one.error?, two.error?, one.target, two.target]
  refine ⟨ok, ok.trans (taken.trans ok'.symm), fun done clear => ?_⟩
  exact schema.assign_steady consistent value distinct customless clear other name {} {} target target distinct' content
    regular regular (.same _ _) done (ok'.2 (taken.1 (ok.1 done)))

/-- Entries that go to different places, in a record and in a map, in both orders. -/
theorem assign_ignores_order_reversed :
    let schema : Schema := {
      records := [("Item", {
        name := "Item"
        fields := [⟨"id", .string, "id,attr"⟩, ⟨"notes", .map "HashMap" .string .string, ""⟩]
        blank := .record [("id", .scalar (.text "")), ("notes", .map [])] })]
      customs := [], typeName := fun _ => "" }
    let value : Value := .map [("@id", .string "7"), ("notes", .map [("x", .string "1"), ("y", .string "2")])]
    let other : Value := .map [("notes", .map [("y", .string "2"), ("x", .string "1")]), ("@id", .string "7")]
    let target : Data := .record [("id", .scalar (.text "old")), ("notes", .map [("w", .scalar (.text "0"))])]
    let done := schema.assign value (.record "Item") "" ({} : Registry) target
    let done' := schema.assign other (.record "Item") "" ({} : Registry) target
    schema.Takes value (.record "Item") ∧ done'.error? = none ∧
      schema.Reordered (.record "Item") done.target done'.target := by
  intro schema value other target done done'
  have once : ∀ record ∈ schema.records, (record.2.fields.map Field.name).Nodup := by decide
  have fields : ∀ field ∈ schema.fields "Item", field.type = .string ∨ field.type = .map "HashMap" .string .string :=
    List.forall_mem_cons.2 ⟨.inl rfl, List.forall_mem_singleton.2 (.inr rfl)⟩
  have parts : ∀ part, Relation.ReflTransGen schema.Assigns (.record "Item") part →
      part = .record "Item" ∨ part = .string ∨ part = .map "HashMap" .string .string := by
    intro part reaches
    induction reaches with
    | refl => exact .inl rfl
    | tail _ assigns ih =>
      rcases ih with rfl | rfl | rfl
      · cases assigns with | field member => exact .inr (fields _ (Schema.mem_plan.1 member).1)
      · cases assigns
      · cases assigns with | entry => exact .inr (.inl rfl)
  have customless : schema.Customless (.record "Item") := fun name reaches => by
    rcases parts _ reaches with same | same | same <;> cases same
  have texts (family : String) (key : ScalarType) (content : Ty)
      (reaches : Relation.ReflTransGen schema.Assigns (.record "Item") (.map family (.scalar key) content)) :
      key = .string ∨ key = .char := by
    rcases parts _ reaches with same | same | same <;> cases same
    exact .inl rfl
  have item {id : Data} {notes : Keyed Data} (ascending : notes.Ascending) :
      schema.Regular (.record "Item") (.record [("id", id), ("notes", .map notes)]) := by
    refine .record (List.forall_mem_cons.2 ⟨fun _ _ => .scalar, List.forall_mem_singleton.2 fun slot found => ?_⟩)
    cases found
    exact .map ascending
  have regular : schema.Regular (.record "Item") target := item (List.pairwise_singleton _ _)
  have consistent : schema.Consistent := Schema.consistent_of_nodup once (List.forall_mem_singleton.2 (item .nil))
  have distinct : value.Distinct := .pair (by decide) (.string _) (.pair (by decide) (.string _) (.string _))
  have distinct' : other.Distinct := .pair (by decide) (.pair (by decide) (.string _) (.string _)) (.string _)
  obtain ⟨takes, alike, left⟩ := assign_ignores_order consistent (empty_coherent schema)
    (empty_coherent schema) customless regular distinct distinct' (by decide) ""
  have ended : done.error? = none := rfl
  exact ⟨takes.1 ended, alike.1 ended, left ended (Schema.not_clashes once texts value)⟩

end Registry

namespace Schema

/-- Two orders of one value can be assigned to the same target, and leave different things there. -/
structure SeesOrder (schema : Schema) (type : Ty) (target : Data) (value other : Value) : Prop where
  customless : schema.Customless type
  regular : schema.Regular type target
  distinct : value.Distinct
  distinct' : other.Distinct
  equal : (value == other) = true
  done : (schema.assign value type "" ({} : Registry) target).error? = none
  done' : (schema.assign other type "" ({} : Registry) target).error? = none
  different : ¬ schema.Reordered type (schema.assign value type "" ({} : Registry) target).target
    (schema.assign other type "" ({} : Registry) target).target

end Schema

namespace Registry

/-- Two names that are read as one key, and two listings of one field. -/
theorem assign_sees_order :
    let schema : Schema := {
      records := [("Twice", {
        name := "Twice"
        fields := [⟨"field", .string, "a"⟩, ⟨"field", .string, "b"⟩]
        blank := .record [("field", .scalar (.text ""))] })]
      customs := [], typeName := fun _ => "" }
    schema.SeesOrder (.map "BTreeMap" (.scalar .bool) .string) (.map [])
      (.map [("true", .string "1"), ("t", .string "2")]) (.map [("t", .string "2"), ("true", .string "1")]) ∧
    schema.SeesOrder (.record "Twice") (.record [("field", .scalar (.text ""))])
      (.map [("a", .string "1"), ("b", .string "2")]) (.map [("b", .string "2"), ("a", .string "1")]) := by
  intro schema
  have strings : ∀ field ∈ schema.fields "Twice", field.type = .string :=
    List.forall_mem_cons.2 ⟨rfl, List.forall_mem_singleton.2 rfl⟩
  have text : schema.Customless .string :=
    Schema.customless_of (fun _ same => by cases same) fun _ assigns => by cases assigns
  have flags : schema.Customless (.map "BTreeMap" (.scalar .bool) .string) := by
    refine Schema.customless_of (fun _ same => by cases same) fun part assigns => ?_
    cases assigns
    exact text
  have twice : schema.Customless (.record "Twice") := by
    refine Schema.customless_of (fun _ same => by cases same) fun part assigns => ?_
    cases assigns with | field member =>
    rw [strings _ (Schema.mem_plan.1 member).1]
    exact text
  have blank : schema.Regular (.record "Twice") (.record [("field", .scalar (.text ""))]) := by
    refine .record fun field member slot found => ?_
    rw [strings field member]
    exact .scalar
  -- What the entry that comes second says is what is left.
  have different : ¬ schema.Reordered .string (.scalar (.text "2")) (.scalar (.text "1")) := by
    intro reordered
    have same := reordered.textOf
    simp [Schema.textOf, Scalar.format] at same
  constructor
  · refine ⟨flags, .map .nil, .pair (by decide) (.string _) (.string _), .pair (by decide) (.string _) (.string _),
      by decide, rfl, rfl, fun reordered => ?_⟩
    exact different (reordered.under.2 "true" _ _ rfl rfl)
  · refine ⟨twice, blank, .pair (by decide) (.string _) (.string _), .pair (by decide) (.string _) (.string _),
      by decide, rfl, rfl, fun reordered => ?_⟩
    have listed : (⟨"field", .string, "a"⟩ : Field) ∈ schema.fields "Twice" := List.mem_cons_self
    exact different (reordered.slot listed .absent)

end Registry

end XmlBinding
