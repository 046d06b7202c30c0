import XmlBinding.Proofs.InUse
import XmlBinding.Proofs.Naming

/-! What writing asks for. A dynamic value asks for the type of its content when it is come by. The parts of a value are
written in order, and what stands behind a part that cannot be written is not come by; so which types are asked for is
seen of the value, its type and the parts that can be written. -/
namespace XmlBinding
open Text

/-- What a record holds of a field that takes part. -/
def PlannedField.of (planned : PlannedField) (slots : Keyed Data) : Data :=
  (slots.get? planned.field.name).getD .absent

/-- Whether a field is empty and is left out for that. -/
def PlannedField.leftOut (planned : PlannedField) (slots : Keyed Data) : Bool :=
  planned.tag.omitEmpty && planned.field.type.isEmpty (planned.of slots)

/-- The fields of a record that become text: attributes, character data and CDATA. -/
def RecordForm.texts (form : RecordForm ρ) : List PlannedField :=
  form.attributes ++ form.characters?.toList ++ form.cdata?.toList

/-- Such a field does not become an element. -/
theorem Plan.mem_texts {plan : Plan} {planned : PlannedField} (member : planned ∈ plan.form.texts) :
    planned ∈ plan.fields ∧ planned.tag.role ≠ .element := by
  rw [RecordForm.texts, List.mem_append, List.mem_append, Option.mem_toList, Option.mem_toList] at member
  rcases member with (tagged | characters) | cdata
  · obtain ⟨held, role⟩ := mem_attributes.1 tagged
    exact ⟨held, role ▸ nofun⟩
  · obtain ⟨held, role⟩ := mem_characters characters
    exact ⟨held, role ▸ nofun⟩
  · obtain ⟨held, role⟩ := mem_cdata cdata
    exact ⟨held, role ▸ nofun⟩

namespace Schema

/-- A value of a type can be written as an element of a name. -/
def Writes (schema : Schema) (type : Ty) (data : Data) (name : String) : Prop :=
  ∃ after, schema.writeRoot type data name (⟨{}, {}⟩ : Marshalling Registry) = .ok () after

/-- A field of a record can be written as an element, or is left out. -/
def ChildWrites (schema : Schema) (slots : Keyed Data) (planned : PlannedField) : Prop :=
  planned.leftOut slots = true ∨
    ∀ data, slots.get? planned.field.name = some data → schema.Writes planned.field.type data planned.tag.name

/-- Writing a value of a type as an element of a name comes by a dynamic value whose content is of a type, before it
fails if it does. -/
inductive Meets (schema : Schema) (met : Ty) : Ty → Data → String → Prop where
  | here : Meets schema met .dynamic (.dynamic met content) name
  | dynamic (inside : Meets schema met type content name) : Meets schema met .dynamic (.dynamic type content) name
  | option (inside : Meets schema met target data name) : Meets schema met (.option target) (.present data) name
  | box (inside : Meets schema met target data name) : Meets schema met (.box target) (.present data) name
  /-- The fields that become text are written before all others, and these in the order of their declaration. -/
  | field {record : String} {slots : Keyed Data} {planned : PlannedField} {before after : List PlannedField}
      (texts : ∀ planned ∈ (schema.plan record).form.texts, ∃ text?, schema.fieldText planned slots = .ok text?)
      (order : (schema.plan record).withRole .element = before ++ planned :: after)
      (earlier : ∀ other ∈ before, schema.ChildWrites slots other) (written : planned.leftOut slots = false)
      (held : slots.get? planned.field.name = some data)
      (inside : Meets schema met planned.field.type data planned.tag.name) :
      Meets schema met (.record record) (.record slots) name
  /-- A map is written in the order of its keys, all of which have to be names. -/
  | entry {entries before after : Keyed Data} {value : Ty} (order : entries.sort = before ++ (key, data) :: after)
      (earlier : ∀ entry ∈ before, isName entry.1 = true ∧ schema.Writes value entry.2 entry.1)
      (named : isName key = true) (inside : Meets schema met value data key) :
      Meets schema met (.map family .string value) (.map entries) name
  | item {element : Ty} (order : items = before ++ data :: after)
      (earlier : ∀ item ∈ before, schema.Writes element item name) (inside : Meets schema met element data name) :
      Meets schema met (.sequence element) (.list items) name
  | slot {element : Ty} {length : Nat} (order : items = before ++ data :: after)
      (earlier : ∀ item ∈ before, schema.Writes element item name) (inside : Meets schema met element data name) :
      Meets schema met (.array element length) (.list items) name

end Schema

/-- A list with an element at its front is split there or further behind. -/
theorem exists_split_cons {P : List α → α → Prop} :
    (∃ before b after, a :: list = before ++ b :: after ∧ P before b) ↔
      P [] a ∨ ∃ before b after, list = before ++ b :: after ∧ P (a :: before) b := by
  constructor
  · rintro ⟨_ | ⟨first, before⟩, b, after, split, holds⟩
    · cases split
      exact .inl holds
    · cases split
      exact .inr ⟨before, b, after, rfl, holds⟩
  · rintro (holds | ⟨before, b, after, rfl, holds⟩)
    · exact ⟨[], a, list, rfl, holds⟩
    · exact ⟨a :: before, b, after, rfl, holds⟩

/-- Of a list with an element at its front, something holds of this element or further behind, and something else of all
in front of that. -/
theorem exists_reached_cons {P Q : α → Prop} :
    (∃ before b after, a :: list = before ++ b :: after ∧ (∀ c ∈ before, P c) ∧ Q b) ↔
      Q a ∨ P a ∧ ∃ before b after, list = before ++ b :: after ∧ (∀ c ∈ before, P c) ∧ Q b := by
  rw [exists_split_cons]
  simp only [List.forall_mem_cons, List.not_mem_nil, false_imp_iff, implies_true, true_and]
  refine or_congr_right ⟨?_, ?_⟩
  · rintro ⟨before, b, after, split, ⟨first, others⟩, found⟩
    exact ⟨first, before, b, after, split, others, found⟩
  · rintro ⟨first, before, b, after, split, others, found⟩
    exact ⟨before, b, after, split, ⟨first, others⟩, found⟩

theorem not_split_nil {P : List α → α → Prop} : ¬ ∃ before b after, [] = before ++ b :: after ∧ P before b := by
  rintro ⟨before, b, after, split, -⟩
  cases before <;> cases split

namespace Writing
variable {schema : Schema}

/-- A part of writing that does not fail. -/
def Succeeds (x : Writing Demand Unit) : Prop := ∀ state, ∃ after, x state = .ok () after

theorem succeeds_pure : Succeeds (pure ()) := fun state => ⟨state, rfl⟩

theorem succeeds_put (f : Writer → Writer) : Succeeds (put f) := fun _ => ⟨_, rfl⟩

theorem not_succeeds_throw (e : Error) : ¬ Succeeds (throw e) := by
  intro succeeds
  obtain ⟨after, ran⟩ := succeeds ⟨{}, {}⟩
  cases ran

theorem Succeeds.seq {x y : Writing Demand Unit} (first : Succeeds x) (second : Succeeds y) :
    Succeeds (x >>= fun _ => y) := by
  intro state
  obtain ⟨middle, ran⟩ := first state
  obtain ⟨after, ran'⟩ := second middle
  refine ⟨after, ?_⟩
  show EStateM.bind x _ _ = _
  rw [EStateM.bind, ran]
  exact ran'

theorem Succeeds.adapt {x : Writing Demand Unit} (succeeds : Succeeds x) (wrap : Error → Error) :
    Succeeds (x.adaptExcept wrap) := by
  intro state
  obtain ⟨after, ran⟩ := succeeds state
  refine ⟨after, ?_⟩
  show EStateM.adaptExcept wrap x _ = _
  rw [EStateM.adaptExcept, ran]

theorem Succeeds.of_adapt {x : Writing Demand Unit} {wrap : Error → Error} (succeeds : Succeeds (x.adaptExcept wrap)) :
    Succeeds x := by
  intro state
  obtain ⟨after, ran⟩ := succeeds state
  exact ⟨after, Writing.of_adapt ran⟩

theorem succeeds_adapt {x : Writing Demand Unit} {wrap : Error → Error} :
    Succeeds (x.adaptExcept wrap) ↔ Succeeds x := ⟨.of_adapt, (·.adapt wrap)⟩

theorem succeeds_fieldText {planned : PlannedField} {fields : Keyed Data} {write : String → Writer → Writer} :
    Succeeds (fieldText schema fields planned write) ↔ ∃ text?, schema.fieldText planned fields = .ok text? := by
  rw [fieldText]
  cases text : schema.fieldText planned fields with
  | error e => exact ⟨fun succeeds => absurd succeeds (not_succeeds_throw e), nofun⟩
  | ok text? =>
    refine ⟨fun _ => ⟨text?, rfl⟩, fun _ => ?_⟩
    cases text? with
    | none => exact succeeds_pure
    | some text => exact succeeds_put _

/-- What is left of what has been asked for when a part of writing is done or has failed. -/
def left (x : Writing Demand Unit) (state : Marshalling Demand) : Demand :=
  match x state with
  | .ok _ after => after.registry
  | .error _ after => after.registry

/-- A part of writing that asks for certain types and never fails if it does not fail once. -/
structure Asks (x : Writing Demand Unit) (asked : Ty → Prop) : Prop where
  steady {state after : Marshalling Demand} (ran : x state = .ok () after) : Succeeds x
  exact (state : Marshalling Demand) (met : Ty) :
    met ∈ (left x state).requested ↔ met ∈ state.registry.requested ∨ asked met
  decodes (state : Marshalling Demand) : (left x state).decoded = state.registry.decoded

/-- A part of writing that asks for nothing. -/
abbrev Silent (x : Writing Demand Unit) : Prop := Asks x fun _ => False

section
variable {x y : Writing Demand Unit} {asked more : Ty → Prop}

theorem Asks.of_iff (asks : Asks x asked) (same : ∀ met, asked met ↔ more met) : Asks x more where
  steady := asks.steady
  exact state met := (asks.exact state met).trans (or_congr_right (same met))
  decodes := asks.decodes

theorem silent_put (f : Writer → Writer) : Silent (put f) where
  steady _ := succeeds_put f
  exact _ _ := (or_iff_left id).symm
  decodes _ := rfl

theorem silent_pure : Silent (pure ()) := silent_put id

theorem silent_throw (e : Error) : Silent (throw e) where
  steady ran := by cases ran
  exact _ _ := (or_iff_left id).symm
  decodes _ := rfl

/-- What comes second asks for something only if what comes first does not fail. -/
theorem Asks.seq (first : Asks x asked) (second : Asks y more) :
    Asks (x >>= fun _ => y) fun met => asked met ∨ Succeeds x ∧ more met where
  steady ran := by
    obtain ⟨_, middle, here, there⟩ := of_bind ran
    exact (first.steady here).seq (second.steady there)
  exact state met := by
    have before := first.exact state met
    rw [left] at before
    have run : (x >>= fun _ => y) state = EStateM.bind x (fun _ => y) state := rfl
    rw [left, run, EStateM.bind]
    cases here : x state with
    | error e middle =>
      rw [here] at before
      have fails : ¬ Succeeds x := fun succeeds => by
        obtain ⟨after, ran⟩ := succeeds state
        cases here.symm.trans ran
      simpa [fails] using before
    | ok _ middle =>
      rw [here] at before
      have after := second.exact middle met
      rw [left] at after
      simpa [first.steady here, or_assoc] using after.trans (or_congr_left before)
  decodes state := by
    have before := first.decodes state
    rw [left] at before
    have run : (x >>= fun _ => y) state = EStateM.bind x (fun _ => y) state := rfl
    rw [left, run, EStateM.bind]
    cases here : x state with
    | error e middle => rwa [here] at before
    | ok _ middle =>
      rw [here] at before
      exact (second.decodes middle).trans before

theorem Asks.succeeds_seq (first : Asks x asked) (second : Asks y more) :
    Succeeds (x >>= fun _ => y) ↔ Succeeds x ∧ Succeeds y := by
  refine ⟨fun both => ?_, fun each => each.1.seq each.2⟩
  obtain ⟨after, ran⟩ := both ⟨{}, {}⟩
  obtain ⟨_, middle, here, there⟩ := of_bind ran
  exact ⟨first.steady here, second.steady there⟩

/-- Nothing is asked for before. -/
theorem Asks.behind (asks : Asks y more) (silent : Silent x) :
    Asks (x >>= fun _ => y) fun met => Succeeds x ∧ more met :=
  (silent.seq asks).of_iff fun _ => by simp

/-- Nothing is asked for behind. -/
theorem Asks.before (asks : Asks x asked) (silent : Silent y) : Asks (x >>= fun _ => y) asked :=
  (asks.seq silent).of_iff fun _ => by simp

theorem Asks.adapt (asks : Asks x asked) (wrap : Error → Error) : Asks (x.adaptExcept wrap) asked where
  steady ran := (asks.steady (of_adapt ran)).adapt wrap
  exact state met := by
    have before := asks.exact state met
    have run : x.adaptExcept wrap state = EStateM.adaptExcept wrap x state := rfl
    rw [left] at before
    rw [left, run, EStateM.adaptExcept]
    cases here : x state <;> rwa [here] at before
  decodes state := by
    have before := asks.decodes state
    have run : x.adaptExcept wrap state = EStateM.adaptExcept wrap x state := rfl
    rw [left] at before
    rw [left, run, EStateM.adaptExcept]
    cases here : x state <;> rwa [here] at before

theorem silent_ofExcept {result : Except Error α} {y : α → Writing Demand Unit} (silent : ∀ a, Silent (y a)) :
    Silent (ofExcept result >>= y) := by
  cases result with
  | ok a => exact silent a
  | error e => exact silent_throw e

end

/-- A type that is written by itself is asked for. -/
theorem Asks.request {write : ElementWriting Demand Ty} (schema : Schema) (asks : Asks (write type name) asked) :
    Asks (Writing.request schema type >>= fun link => write link name) fun met => met = type ∨ asked met where
  steady ran _ := asks.steady ran _
  exact state met := by
    have after := asks.exact ⟨{ state.registry with requested := state.registry.requested ++ [type] }, state.writer⟩ met
    have run : left (Writing.request schema type >>= fun link => write link name) state = left (write type name) _ := rfl
    rw [run, after, List.mem_append, List.mem_singleton, or_assoc]
  decodes state := asks.decodes _

/-- One part after another: those up to the first that fails ask for something. -/
theorem Asks.forM {x : α → Writing Demand Unit} {asked : α → Ty → Prop} {list : List α}
    (each : ∀ a ∈ list, Asks (x a) (asked a)) :
    Asks (list.forM x) fun met =>
      ∃ before a after, list = before ++ a :: after ∧ (∀ b ∈ before, Succeeds (x b)) ∧ asked a met := by
  induction list with
  | nil => exact silent_pure.of_iff fun met => (iff_false_intro not_split_nil).symm
  | cons a rest ih =>
    obtain ⟨here, later⟩ := List.forall_mem_cons.1 each
    exact (here.seq (ih later)).of_iff fun met => by rw [exists_reached_cons]

theorem Asks.succeeds_forM {x : α → Writing Demand Unit} {asked : α → Ty → Prop} {list : List α}
    (each : ∀ a ∈ list, Asks (x a) (asked a)) : Succeeds (list.forM x) ↔ ∀ a ∈ list, Succeeds (x a) := by
  induction list with
  | nil => exact ⟨fun _ => List.forall_mem_nil _, fun _ => succeeds_pure⟩
  | cons a rest ih =>
    obtain ⟨here, later⟩ := List.forall_mem_cons.1 each
    rw [List.forall_mem_cons, ← ih later]
    exact here.succeeds_seq (.forM later)

theorem Silent.forM {x : α → Writing Demand Unit} {list : List α} (each : ∀ a ∈ list, Silent (x a)) :
    Silent (list.forM x) := (Asks.forM each).of_iff fun met => by simp

theorem silent_fieldText (schema : Schema) (fields : Keyed Data) (planned : PlannedField)
    (write : String → Writer → Writer) : Silent (fieldText schema fields planned write) := by
  refine silent_ofExcept fun text? => ?_
  cases text? with
  | none => exact silent_pure
  | some text => exact silent_put _

theorem silent_texts (schema : Schema) (fields : Keyed Data) (planned? : Option PlannedField)
    (write : String → Writer → Writer) :
    Silent (planned?.forM fun planned => fieldText schema fields planned write) := by
  cases planned? with
  | none => exact silent_pure
  | some planned => exact silent_fieldText schema fields planned write

theorem succeeds_texts {fields : Keyed Data} {planned? : Option PlannedField} {write : String → Writer → Writer} :
    Succeeds (planned?.forM fun planned => fieldText schema fields planned write) ↔
      ∀ planned ∈ planned?.toList, ∃ text?, schema.fieldText planned fields = .ok text? := by
  cases planned? with
  | none => exact ⟨fun _ => List.forall_mem_nil _, fun _ => succeeds_pure⟩
  | some planned =>
    rw [Option.toList_some, List.forall_mem_singleton]
    exact succeeds_fieldText

/-- A record asks for what its elements ask for, if its texts can be told. -/
theorem asks_record {plan : Plan} {fields : Keyed Data} {writings : Keyed (ElementWriting Demand Ty)}
    {asked : PlannedField → Ty → Prop} (name : String) (children : ∀ planned ∈ plan.withRole .element,
      Asks (child fields writings ⟨planned, planned.field.type⟩) (asked planned)) :
    Asks (record schema plan.form fields writings name) fun met =>
      (∀ planned ∈ plan.form.texts, ∃ text?, schema.fieldText planned fields = .ok text?) ∧
        ∃ before planned after, plan.withRole .element = before ++ planned :: after ∧
          (∀ other ∈ before, Succeeds (child fields writings ⟨other, other.field.type⟩)) ∧ asked planned met := by
  have silent (planned : PlannedField) (_ : planned ∈ plan.form.attributes) :=
    silent_fieldText schema fields planned fun text w => w.putAttribute planned.tag.name text
  have inside := (Asks.forM children).before (silent_put (·.close name))
  have sections := inside.behind (silent_texts schema fields plan.form.cdata? fun text w => w.cdata text)
  have texts := sections.behind (silent_texts schema fields plan.form.characters? fun text w => w.text text)
  have tag := texts.behind (.forM silent)
  have linked : plan.form.children.forM (child fields writings) = (plan.withRole .element).forM fun planned =>
      child fields writings ⟨planned, planned.field.type⟩ := by
    rw [Plan.form, List.forM_eq_forM, List.forM_map]
    rfl
  rw [record, linked]
  refine (tag.behind (silent_put (·.start name))).of_iff fun met => ?_
  rw [Asks.succeeds_forM silent, succeeds_texts, succeeds_texts, RecordForm.texts]
  simp only [succeeds_put, succeeds_fieldText, List.forall_mem_append, true_and, and_assoc]

/-- Items are asked for as parts one after another are. -/
theorem asks_items {write : α → ElementWriting Demand Ty} {asked : α → Ty → Prop} {list : List α}
    (each : ∀ a ∈ list, Asks (write a type name) (asked a)) (index : Nat) :
    Asks (items type name index (list.map write)) fun met => ∃ before a after, list = before ++ a :: after ∧
      (∀ b ∈ before, Succeeds (write b type name)) ∧ asked a met := by
  induction list generalizing index with
  | nil => exact silent_pure.of_iff fun met => (iff_false_intro not_split_nil).symm
  | cons a rest ih =>
    obtain ⟨here, later⟩ := List.forall_mem_cons.1 each
    refine ((here.adapt _).seq (ih later (index + 1))).of_iff fun met => ?_
    rw [exists_reached_cons, succeeds_adapt]

theorem asks_entry {write : ElementWriting Demand Ty} (asks : Asks (write type key) asked) :
    Asks (entry type key write) fun met => isName key = true ∧ asked met := by
  rw [entry]
  split
  · rename_i named
    exact (asks.adapt _).of_iff fun met => by simp [named]
  · rename_i unnamed
    exact (silent_throw _).of_iff fun met => by simp [unnamed]

theorem succeeds_entry {write : ElementWriting Demand Ty} :
    Succeeds (entry type key write) ↔ isName key = true ∧ Succeeds (write type key) := by
  rw [entry]
  split
  · rename_i named
    simp [named, succeeds_adapt]
  · rename_i unnamed
    simp [unnamed, not_succeeds_throw]

/-- The values of a map are asked for in the order of their keys, up to a key that is no name. -/
theorem asks_map {write : α → ElementWriting Demand Ty} (asked : α → String → Ty → Prop) {entries : Keyed α}
    (each : ∀ entry ∈ entries, Asks (write entry.2 type entry.1) (asked entry.2 entry.1)) (name : String) :
    Asks (map type (entries.map fun entry => (entry.1, write entry.2)) name) fun met =>
      ∃ before entry after, entries.sort = before ++ entry :: after ∧
        (∀ other ∈ before, isName other.1 = true ∧ Succeeds (write other.2 type other.1)) ∧
          isName entry.1 = true ∧ asked entry.2 entry.1 met := by
  have inside := Asks.forM fun entry (member : entry ∈ entries.sort) =>
    asks_entry (each entry ((Keyed.sort_perm entries).mem_iff.1 member))
  have all := (inside.before (silent_put (·.close name))).behind (silent_put (·.start name))
  rw [map, Keyed.sort_map, List.forM_eq_forM, List.forM_map, ← List.forM_eq_forM]
  refine all.of_iff fun met => ?_
  simp only [succeeds_put, true_and, succeeds_entry]

/-- A field asks for what its value asks for, unless it is left out. -/
theorem asks_child {fields : Keyed Data} {write : Data → ElementWriting Demand Ty} {asked : Data → Ty → Prop}
    {planned : ChildField Ty} (asks : ∀ data, fields.get? planned.field.name = some data →
      Asks (write data planned.link planned.tag.name) (asked data)) :
    Asks (child fields (fields.map fun entry => (entry.1, write entry.2)) planned) fun met =>
      planned.leftOut fields = false ∧ ∃ data, fields.get? planned.field.name = some data ∧ asked data met := by
  unfold child
  rw [Keyed.get?_map]
  show Asks (if planned.leftOut fields then _ else _) _
  split
  · rename_i empty
    exact silent_pure.of_iff fun met => by simp [empty]
  · rename_i written
    cases found : fields.get? planned.field.name with
    | none => exact silent_pure.of_iff fun met => by simp
    | some data => exact ((asks data found).adapt _).of_iff fun met => by simp [written]

theorem succeeds_child {fields : Keyed Data} {write : Data → ElementWriting Demand Ty} {planned : ChildField Ty} :
    Succeeds (child fields (fields.map fun entry => (entry.1, write entry.2)) planned) ↔
      planned.leftOut fields = true ∨
        ∀ data, fields.get? planned.field.name = some data → Succeeds (write data planned.link planned.tag.name) := by
  unfold child
  rw [Keyed.get?_map]
  show Succeeds (if planned.leftOut fields then _ else _) ↔ _
  split
  · rename_i empty
    exact ⟨fun _ => .inl empty, fun _ => succeeds_pure⟩
  · rename_i written
    cases fields.get? planned.field.name with
    | none => exact ⟨fun _ => .inr nofun, fun _ => succeeds_pure⟩
    | some write => simp [written, succeeds_adapt]

end Writing

namespace Schema
open Writing
variable {schema : Schema}

/-- A value can be written, whatever has been written before and whatever is known of types, if this has been possible
once. -/
theorem writes_iff (asks : Asks (schema.write data type name) asked) :
    schema.Writes type data name ↔ Succeeds (schema.write data type name) := by
  have alike : Alike schema {} {} (schema.writeRoot type data name (⟨{}, {}⟩ : Marshalling Registry))
      (schema.writeRoot type data name (⟨{}, {}⟩ : Marshalling Demand)) :=
    mirrors_request (fun _ _ leads => schema.write_mirrors data _ _ _ _ leads) {} {}
      (Registry.empty_coherent schema).answers
  change Alike schema {} {} _ (schema.write data type name ⟨{ requested := [type] }, {}⟩) at alike
  rw [Writes]
  generalize schema.writeRoot type data name (⟨{}, {}⟩ : Marshalling Registry) = one at alike ⊢
  generalize ended : schema.write data type name (⟨{ requested := [type] }, {}⟩ : Marshalling Demand) = two at alike
  cases alike with
  | ok => exact ⟨fun _ => asks.steady ended, fun _ => ⟨_, rfl⟩⟩
  | error =>
    refine ⟨fun done => ?_, fun succeeds => ?_⟩
    · obtain ⟨after, done⟩ := done
      cases done
    · obtain ⟨after, ran⟩ := succeeds ⟨{ requested := [type] }, {}⟩
      cases ended.symm.trans ran

section
variable {element value : Ty} {record : String} {items : List Data} {entries slots : Keyed Data}

theorem asks_list (each : ∀ item ∈ items, Asks (schema.write item element name) fun met =>
    schema.Meets met element item name) :
    Asks (Writing.items element name 0 (schema.writeItems items)) fun met =>
      ∃ before data after, items = before ++ data :: after ∧ (∀ item ∈ before, schema.Writes element item name) ∧
        schema.Meets met element data name := by
  rw [writeItems_eq_map]
  refine (asks_items each 0).of_iff fun met => exists_congr fun before => exists_congr fun data =>
    exists_congr fun after => and_congr_right fun order => and_congr_left fun _ => forall₂_congr fun item member => ?_
  exact (writes_iff (each item (order ▸ List.mem_append_left _ member))).symm

theorem asks_values (each : ∀ entry ∈ entries, Asks (schema.write entry.2 value entry.1) fun met =>
    schema.Meets met value entry.2 entry.1) (name : String) :
    Asks (Writing.map value (schema.writeEntries entries) name) fun met =>
      ∃ before entry after, entries.sort = before ++ entry :: after ∧
        (∀ other ∈ before, isName other.1 = true ∧ schema.Writes value other.2 other.1) ∧ isName entry.1 = true ∧
          schema.Meets met value entry.2 entry.1 := by
  rw [writeEntries_eq_map]
  refine (asks_map (fun data key met => schema.Meets met value data key) each name).of_iff fun met =>
    exists_congr fun before => exists_congr fun entry => exists_congr fun after =>
    and_congr_right fun order => and_congr_left fun _ => forall₂_congr fun other member => and_congr_right fun _ => ?_
  have held : other ∈ entries.sort := order ▸ List.mem_append_left _ member
  exact (writes_iff (each other ((Keyed.sort_perm entries).mem_iff.1 held))).symm

theorem asks_fields (each : ∀ data ∈ slots.map Prod.snd, ∀ type name, Asks (schema.write data type name) fun met =>
    schema.Meets met type data name) (name : String) :
    Asks (Writing.record schema (schema.plan record).form slots (schema.writeEntries slots) name) fun met =>
      (∀ planned ∈ (schema.plan record).form.texts, ∃ text?, schema.fieldText planned slots = .ok text?) ∧
        ∃ before planned after, (schema.plan record).withRole .element = before ++ planned :: after ∧
          (∀ other ∈ before, schema.ChildWrites slots other) ∧ planned.leftOut slots = false ∧
            ∃ data, slots.get? planned.field.name = some data ∧
              schema.Meets met planned.field.type data planned.tag.name := by
  have found {planned : PlannedField} {data : Data} (held : slots.get? planned.field.name = some data) :=
    each data (List.mem_map_of_mem (Keyed.mem_of_get? held)) planned.field.type planned.tag.name
  rw [writeEntries_eq_map]
  refine (asks_record name fun planned _ => asks_child fun data held => found held).of_iff fun met =>
    and_congr_right fun _ => exists_congr fun before => exists_congr fun planned => exists_congr fun after =>
    and_congr_right fun _ => and_congr_left fun _ => forall₂_congr fun other _ => ?_
  rw [succeeds_child]
  exact or_congr_right (forall₂_congr fun data held => (writes_iff (found held)).symm)

end

/-- Nothing is asked for in place of a map, or of a map whose keys are not text. -/
theorem asks_noMap {parts : PartWritings Demand Ty} {key value : Ty}
    (none : ∀ entries, data = .map entries → key ≠ .string) :
    Asks (schema.writeWith data parts (.map family key value) name) fun met =>
      schema.Meets met (.map family key value) data name := by
  obtain ⟨e, failed⟩ := writeWith_noMap none
  rw [failed]
  refine (silent_throw e).of_iff fun met => (iff_false_intro fun meets => ?_).symm
  cases meets with | entry => exact none _ rfl rfl

/-- Writing a value asks for the types of the dynamic values that it comes by. -/
theorem write_asks (schema : Schema) (data : Data) (type : Ty) (name : String) :
    Asks (schema.write data type name) fun met => schema.Meets met type data name := by
  induction data using Data.induction generalizing type name with
  | step data ih =>
  have nothing {x : Writing Demand Unit} (silent : Silent x) (none : ∀ met, ¬ schema.Meets met type data name) :
      Asks x fun met => schema.Meets met type data name := silent.of_iff fun met => (iff_false_intro (none met)).symm
  cases type with
  | scalar =>
    cases data with
    | scalar value => exact nothing (silent_put (·.textElement name value.format)) nofun
    | _ => exact nothing (silent_throw _) nofun
  | option target =>
    cases data with
    | present data =>
      refine (ih data (List.mem_singleton_self _) target name).of_iff fun met => ⟨.option, fun meets => ?_⟩
      cases meets with | option inside => exact inside
    | absent => exact nothing (silent_put fun w => (w.start name).close name) nofun
    | _ => exact nothing (silent_throw _) nofun
  | box target =>
    cases data with
    | present data =>
      refine (ih data (List.mem_singleton_self _) target name).of_iff fun met => ⟨.box, fun meets => ?_⟩
      cases meets with | box inside => exact inside
    | absent => exact nothing (silent_put fun w => (w.start name).close name) nofun
    | _ => exact nothing (silent_throw _) nofun
  | dynamic =>
    cases data with
    | dynamic type data =>
      refine (Asks.request schema (ih data (List.mem_singleton_self _) type name)).of_iff fun met => ⟨?_, fun meets => ?_⟩
      · rintro (rfl | inside)
        · exact .here
        · exact .dynamic inside
      · cases meets with
        | here => exact .inl rfl
        | dynamic inside => exact .inr inside
    | absent => exact nothing (silent_put fun w => (w.start name).close name) nofun
    | _ => exact nothing (silent_throw _) nofun
  | native =>
    cases data with
    | native value => exact nothing (silent_put (·.value name value)) nofun
    | _ => exact nothing (silent_throw _) nofun
  | custom =>
    cases data <;> exact nothing (silent_ofExcept fun custom => silent_ofExcept fun xml => silent_put (·.raw xml)) nofun
  | unsupported => cases data <;> exact nothing (silent_throw _) nofun
  | sequence element =>
    cases data with
    | list items =>
      refine (asks_list fun item held => ih item held element name).of_iff fun met => ⟨?_, fun meets => ?_⟩
      · rintro ⟨before, data, after, order, earlier, inside⟩
        exact .item order earlier inside
      · cases meets with | item order earlier inside => exact ⟨_, _, _, order, earlier, inside⟩
    | _ => exact nothing (silent_throw _) nofun
  | array element length =>
    cases data with
    | list items =>
      refine (asks_list fun item held => ih item held element name).of_iff fun met => ⟨?_, fun meets => ?_⟩
      · rintro ⟨before, data, after, order, earlier, inside⟩
        exact .slot order earlier inside
      · cases meets with | slot order earlier inside => exact ⟨_, _, _, order, earlier, inside⟩
    | _ => exact nothing (silent_throw _) nofun
  | record record =>
    cases data with
    | record slots =>
      refine (asks_fields ih name).of_iff fun met => ⟨?_, fun meets => ?_⟩
      · rintro ⟨texts, before, planned, after, order, earlier, written, data, held, inside⟩
        exact .field texts order earlier written held inside
      · cases meets with
        | field texts order earlier written held inside =>
          exact ⟨texts, _, _, _, order, earlier, written, _, held, inside⟩
    | _ => exact nothing (silent_throw _) nofun
  | map family key value =>
    by_cases text : key = .string
    · subst text
      cases data with
      | map entries =>
        rw [write_map]
        refine (asks_values (fun entry held => ih entry.2 (List.mem_map_of_mem held) value entry.1) name).of_iff
          fun met => ⟨?_, fun meets => ?_⟩
        · rintro ⟨before, entry, after, order, earlier, named, inside⟩
          exact .entry order earlier named inside
        · cases meets with | entry order earlier named inside => exact ⟨_, _, _, order, earlier, named, inside⟩
      | _ => exact asks_noMap fun _ same => by cases same
    · cases data <;> exact asks_noMap fun _ _ => text

/-- Marshaling asks for the type of the value, and then for those of the dynamic values that it comes by. -/
theorem marshal_asks (schema : Schema) (type : Ty) (data : Data) (settings : Settings) :
    (∀ met, met ∈ (schema.marshal type data settings ({} : Demand)).2.requested ↔
      met = type ∨ schema.Meets met type data (schema.rootName settings.rootTag type data)) ∧
      (schema.marshal type data settings ({} : Demand)).2.decoded = [] := by
  let start : Marshalling Demand := ⟨{}, { layout? := settings.layout? }⟩
  have asks := Asks.request schema (write_asks schema data type (schema.rootName settings.rootTag type data))
  have same : (schema.marshal type data settings ({} : Demand)).2 =
      left (schema.writeRoot type data (schema.rootName settings.rootTag type data)) start := by
    have run : schema.marshalWith type data settings #[] ({} : Demand) =
        schema.writeRoot type data (schema.rootName settings.rootTag type data) start := rfl
    rw [marshal, left, run]
    cases schema.writeRoot type data (schema.rootName settings.rootTag type data) start <;> rfl
  rw [same]
  exact ⟨fun met => (asks.exact start met).trans (or_iff_right List.not_mem_nil), asks.decodes start⟩

end Schema

end XmlBinding
