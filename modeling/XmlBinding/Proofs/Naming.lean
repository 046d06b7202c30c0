import XmlBinding.Proofs.Sketch

/-! The names in what is written. A key of a map that is no name is refused; so whatever is written without an error has
names only, if those of its records and their fields are names. And it is one element, if it is not a list. -/
namespace XmlBinding
open Text

namespace Plan
variable {plan : Plan} {planned : PlannedField}

theorem mem_withRole : planned ∈ plan.withRole role ↔ planned ∈ plan.fields ∧ planned.tag.role = role := by
  rw [withRole, List.mem_filter, beq_iff_eq]

theorem mem_attributes : planned ∈ plan.form.attributes ↔ planned ∈ plan.fields ∧ planned.tag.role = .attribute := by
  rw [form, List.mem_map, ← mem_withRole]
  constructor
  · rintro ⟨entry, member, rfl⟩
    obtain ⟨planned, held, rfl⟩ := List.mem_map.1 ((Keyed.sort_perm _).mem_iff.1 member)
    exact held
  · exact fun held => ⟨_, (Keyed.sort_perm _).mem_iff.2 (List.mem_map_of_mem held), rfl⟩

theorem mem_characters (member : planned ∈ plan.form.characters?) :
    planned ∈ plan.fields ∧ planned.tag.role = .characters :=
  mem_withRole.1 (List.mem_of_getLast? member)

theorem mem_cdata (member : planned ∈ plan.form.cdata?) : planned ∈ plan.fields ∧ planned.tag.role = .cdata :=
  mem_withRole.1 (List.mem_of_getLast? member)

/-- A child is a field that becomes child elements, linked to its type. -/
theorem mem_children {child : ChildField Ty} : child ∈ plan.form.children ↔
    ∃ planned ∈ plan.fields, planned.tag.role = .element ∧ child = ⟨planned, planned.field.type⟩ := by
  simp only [form, List.mem_map, mem_withRole, and_assoc, eq_comm]

end Plan

/-- Whether a value is a list of items, behind any options, boxes and dynamic values around it. -/
def Ty.isList : Ty → Data → Bool
  | sequence _, _ => true
  | array _ _, _ => true
  | option target, .present data => target.isList data
  | box target, .present data => target.isList data
  | dynamic, .dynamic type data => type.isList data
  | _, _ => false

/-- A value that is not a record, or a record whose fields become elements and attributes under names. -/
def Schema.FieldsNamed (schema : Schema) (it : Instance) : Prop :=
  ∀ name, it.type = .record name → ∀ planned ∈ (schema.plan name).fields,
    planned.tag.role = .element ∨ planned.tag.role = .attribute → isName planned.tag.name = true

namespace Writing
variable {schema : Schema}

theorem of_bind {x : Writing σ α} {y : α → Writing σ β} {state after : Marshalling σ} {b : β}
    (done : (x >>= y) state = .ok b after) : ∃ a middle, x state = .ok a middle ∧ y a middle = .ok b after := by
  change EStateM.bind x y state = _ at done
  rw [EStateM.bind] at done
  cases here : x state with
  | error e middle => rw [here] at done; cases done
  | ok a middle =>
    rw [here] at done
    exact ⟨a, middle, rfl, done⟩

theorem of_adapt {x : Writing σ α} {wrap : Error → Error} {state after : Marshalling σ} {a : α}
    (done : x.adaptExcept wrap state = .ok a after) : x state = .ok a after := by
  change EStateM.adaptExcept wrap x state = _ at done
  rw [EStateM.adaptExcept] at done
  cases here : x state with
  | error e middle => rw [here] at done; cases done
  | ok a middle => rw [here] at done; exact done

/-- When a part of writing does not fail, its elements and their attributes have names. -/
def Names (x : Writing Demand Unit) (elements : Forest → Forest) : Prop :=
  ∀ state after, x state = .ok () after → ∀ {more : Forest}, more.Named → (elements more).Named

theorem names_throw (e : Error) (elements : Forest → Forest) : Names (throw e) elements :=
  fun _ _ done => by cases done

theorem Names.seq {x y : Writing Demand Unit} (first : Names x elements) (second : Names y others) :
    Names (x >>= fun _ => y) (fun more => elements (others more)) := by
  intro state after done more named
  obtain ⟨_, middle, here, there⟩ := of_bind done
  exact first _ _ here (second _ _ there named)

theorem names_nothing (x : Writing Demand Unit) : Names x id := fun _ _ _ _ named => named

theorem Names.behind {y : Writing Demand Unit} (names : Names y elements) (x : Writing Demand Unit) :
    Names (x >>= fun _ => y) elements := (names_nothing x).seq names

theorem Names.before {x : Writing Demand Unit} (names : Names x elements) (y : Writing Demand Unit) :
    Names (x >>= fun _ => y) elements := names.seq (names_nothing y)

theorem Names.adapt {x : Writing Demand Unit} (names : Names x elements) (wrap : Error → Error) :
    Names (x.adaptExcept wrap) elements := fun _ _ done => names _ _ (of_adapt done)

/-- Elements that are written inside another. -/
theorem Names.wrap {x : Writing Demand Unit} (names : Names x elements) {attributes : Keyed String}
    (root : IsName name.toList) (each : ∀ entry ∈ attributes, IsName entry.1.toList) (text : String)
    (cdata? : Option String) : Names x (.element name attributes text cdata? (elements .nil)) :=
  fun _ _ done _ named => .element root each (names _ _ done .nil) named

theorem names_element (x : Writing Demand Unit) (root : IsName name.toList) (text : String) :
    Names x (.element name [] text none .nil) := (names_nothing x).wrap root (List.forall_mem_nil _) text none

theorem names_forM_map {f : α → β} {g : α → γ} {x : β → Writing Demand Unit} {elements : γ → Forest → Forest}
    {list : List α} (each : ∀ a ∈ list, Names (x (f a)) (elements (g a))) :
    Names ((list.map f).forM x) (fun more => (list.map g).foldr elements more) := by
  induction list with
  | nil => exact names_nothing _
  | cons a rest ih =>
    obtain ⟨here, later⟩ := List.forall_mem_cons.1 each
    exact here.seq (ih later)

theorem names_forM {x : α → Writing Demand Unit} {elements : α → Forest → Forest} {list : List α}
    (each : ∀ a ∈ list, Names (x a) (elements a)) : Names (list.forM x) (fun more => list.foldr elements more) := by
  have mapped : Names ((list.map id).forM x) (fun more => (list.map id).foldr elements more) := names_forM_map each
  rwa [List.map_id] at mapped

theorem names_items {write : α → ElementWriting Demand Ty} {sketch : α → Sketch} {list : List α}
    (each : ∀ a ∈ list, Names (write a type name) (sketch a type name)) (index : Nat) :
    Names (items type name index (list.map write)) (Sketch.items type name (list.map sketch)) := by
  induction list generalizing index with
  | nil => exact names_nothing _
  | cons a rest ih =>
    obtain ⟨here, later⟩ := List.forall_mem_cons.1 each
    exact (here.adapt _).seq (ih later (index + 1))

/-- In a map each value stands under its key, which is refused if it is no name. -/
theorem names_map {write : α → ElementWriting Demand Ty} {sketch : α → Sketch} {entries : Keyed α}
    (each : ∀ entry ∈ entries, IsName entry.1.toList → Names (write entry.2 type entry.1) (sketch entry.2 type entry.1))
    (root : IsName name.toList) : Names (map type (entries.map fun entry => (entry.1, write entry.2)) name)
      (.element name [] "" none
        (Sketch.entries type (Keyed.sort (entries.map fun entry => (entry.1, sketch entry.2))) .nil)) := by
  have inside : Names ((Keyed.sort (entries.map fun entry => (entry.1, write entry.2))).forM
      fun writing => entry type writing.1 writing.2)
      (Sketch.entries type (Keyed.sort (entries.map fun entry => (entry.1, sketch entry.2)))) := by
    rw [Keyed.sort_map, Keyed.sort_map]
    refine names_forM_map fun entry member => ?_
    have names := each entry ((Keyed.sort_perm entries).mem_iff.1 member)
    rw [Writing.entry]
    split
    · rename_i key
      exact (names (isName_iff.1 key)).adapt _
    · exact names_throw _ _
  exact ((inside.before (put (·.close name))).behind (put (·.start name))).wrap root (List.forall_mem_nil _) _ _

theorem names_child {fields : Keyed Data} {write : Data → ElementWriting Demand Ty} {sketch : Data → Sketch}
    {planned : ChildField Ty} (names : ∀ data, fields.get? planned.field.name = some data →
      Names (write data planned.link planned.tag.name) (sketch data planned.link planned.tag.name)) :
    Names (child fields (fields.map fun entry => (entry.1, write entry.2)) planned)
      (Sketch.child fields (fields.map fun entry => (entry.1, sketch entry.2)) planned) := by
  unfold child Sketch.child
  rw [Keyed.get?_map, Keyed.get?_map]
  dsimp only
  split
  · exact names_nothing _
  · cases found : fields.get? planned.field.name with
    | none => exact names_nothing _
    | some data => exact (names data found).adapt _

theorem attributes_named {fields : Keyed Data} {list : List PlannedField}
    (named : ∀ planned ∈ list, isName planned.tag.name = true) :
    ∀ entry ∈ Sketch.attributes schema fields list, IsName entry.1.toList := by
  intro entry member
  obtain ⟨planned, held, made⟩ := List.mem_flatMap.1 member
  obtain ⟨text, -, rfl⟩ := List.mem_map.1 made
  exact isName_iff.1 (named planned held)

theorem names_record {form : RecordForm Ty} {fields : Keyed Data} {writings : Keyed (ElementWriting Demand Ty)}
    {sketches : Keyed Sketch} (attributes : ∀ planned ∈ form.attributes, isName planned.tag.name = true)
    (children : ∀ planned ∈ form.children, Names (child fields writings planned) (Sketch.child fields sketches planned))
    (root : IsName name.toList) :
    Names (record schema form fields writings name) (Sketch.record schema form fields sketches name) := by
  have inside := (names_forM children).before (put (·.close name))
  have texts := (inside.behind (form.cdata?.forM fun planned =>
    fieldText schema fields planned fun text w => w.cdata text)).behind (form.characters?.forM fun planned =>
      fieldText schema fields planned fun text w => w.text text)
  have tag := (texts.behind (form.attributes.forM fun planned =>
    fieldText schema fields planned fun text w => w.putAttribute planned.tag.name text)).behind (put (·.start name))
  exact tag.wrap root (attributes_named attributes) _ _

end Writing

namespace Schema
open Writing
variable {schema : Schema}

theorem names_noMap {sketches : PartSketches} {key value : Ty} (x : Writing Demand Unit)
    (none : ∀ entries, data = .map entries → key ≠ .string) :
    Names x (schema.sketchWith data sketches (.map family key value) name) :=
  sketchWith_noMap none ▸ names_nothing x

/-- Whatever is written without an error under a name has names only, if fields have. -/
theorem write_names (data : Data) {type : Ty} (plain : schema.Throughout Instance.Plain type data)
    (fields : schema.Throughout schema.FieldsNamed type data) (root : IsName name.toList) :
    Names (schema.write data type name) (schema.sketch data type name) := by
  induction data using Data.induction generalizing type name with
  | step data ih =>
  cases type with
  | scalar =>
    cases data with
    | scalar value => exact names_element _ root _
    | _ => exact names_nothing _
  | option target =>
    cases data with
    | present data => exact ih data (List.mem_singleton_self _) (plain.inside .option) (fields.inside .option) root
    | absent => exact names_element _ root _
    | _ => exact names_nothing _
  | box target =>
    cases data with
    | present data => exact ih data (List.mem_singleton_self _) (plain.inside .box) (fields.inside .box) root
    | absent => exact names_element _ root _
    | _ => exact names_nothing _
  | dynamic =>
    cases data with
    | dynamic type data =>
      have inside := ih data (List.mem_singleton_self _) (plain.inside .dynamic) (fields.inside .dynamic) root
      exact fun state after done => inside _ after done
    | absent => exact names_element _ root _
    | _ => exact names_nothing _
  | native => exact absurd rfl plain.here.1
  | custom custom => exact absurd rfl (plain.here.2 custom)
  | unsupported => cases data <;> exact names_nothing _
  | sequence element =>
    cases data with
    | list items =>
      show Names (Writing.items element name 0 (schema.writeItems items))
        (Sketch.items element name (schema.sketchItems items))
      rw [writeItems_eq_map, sketchItems_eq_map]
      exact names_items (fun item held => ih item held (plain.inside (.item held)) (fields.inside (.item held)) root) 0
    | _ => exact names_nothing _
  | array element length =>
    cases data with
    | list items =>
      show Names (Writing.items element name 0 (schema.writeItems items))
        (Sketch.items element name (schema.sketchItems items))
      rw [writeItems_eq_map, sketchItems_eq_map]
      exact names_items (fun item held => ih item held (plain.inside (.slot held)) (fields.inside (.slot held)) root) 0
    | _ => exact names_nothing _
  | record record =>
    cases data with
    | record contents =>
      have named := fields.here record rfl
      refine names_record (fun planned member => ?_) (fun child held => ?_) root
      · obtain ⟨member, role⟩ := Plan.mem_attributes.1 member
        exact named planned member (.inr role)
      · obtain ⟨planned, member, role, rfl⟩ := Plan.mem_children.1 held
        dsimp only
        rw [writeEntries_eq_map, sketchEntries_eq_map]
        refine names_child fun data found => ?_
        have piece : schema.Piece ⟨.record record, .record contents⟩ ⟨planned.field.type, data⟩ :=
          .field member role found
        exact ih data (List.mem_map_of_mem (Keyed.mem_of_get? found)) (plain.inside piece) (fields.inside piece)
          (isName_iff.1 (named planned member (.inl role)))
    | _ => exact names_nothing _
  | map family key value =>
    by_cases text : key = .string
    · subst text
      cases data with
      | map entries =>
        rw [write_map, sketch_map, writeEntries_eq_map, sketchEntries_eq_map]
        exact names_map (fun entry held => ih entry.2 (List.mem_map_of_mem held) (plain.inside (.entry held))
          (fields.inside (.entry held))) root
      | _ => exact names_noMap _ fun _ same => by cases same
    · cases data <;> exact names_noMap _ fun _ _ => text

theorem not_noMap {parts : PartWritings Demand Ty} {key value : Ty} {state after : Marshalling Demand}
    (none : ∀ entries, data = .map entries → key ≠ .string) :
    schema.writeWith data parts (.map family key value) name state ≠ .ok () after := by
  obtain ⟨e, failed⟩ := writeWith_noMap none
  rw [failed]
  exact fun done => by cases done

/-- What is written without an error in place of anything but a list is one element. -/
theorem write_single (data : Data) {type : Ty} (plain : schema.Throughout Instance.Plain type data)
    (single : type.isList data = false) {state after : Marshalling Demand}
    (done : schema.write data type name state = .ok () after) :
    ∃ attributes text cdata? inside, schema.sketch data type name = .element name attributes text cdata? inside := by
  induction data using Data.induction generalizing type name state with
  | step data ih =>
  cases type with
  | scalar =>
    cases data with
    | scalar value => exact ⟨_, _, _, _, rfl⟩
    | _ => cases done
  | option target =>
    cases data with
    | present data => exact ih data (List.mem_singleton_self _) (plain.inside .option) single done
    | absent => exact ⟨_, _, _, _, rfl⟩
    | _ => cases done
  | box target =>
    cases data with
    | present data => exact ih data (List.mem_singleton_self _) (plain.inside .box) single done
    | absent => exact ⟨_, _, _, _, rfl⟩
    | _ => cases done
  | dynamic =>
    cases data with
    | dynamic type data => exact ih data (List.mem_singleton_self _) (plain.inside .dynamic) single done
    | absent => exact ⟨_, _, _, _, rfl⟩
    | _ => cases done
  | native => exact absurd rfl plain.here.1
  | custom custom => exact absurd rfl (plain.here.2 custom)
  | unsupported => cases data <;> cases done
  | sequence | array => rw [Ty.isList] at single; cases single
  | record =>
    cases data with
    | record => exact ⟨_, _, _, _, rfl⟩
    | _ => cases done
  | map family key value =>
    by_cases text : key = .string
    · subst text
      cases data with
      | map entries => exact ⟨_, _, _, _, sketch_map schema entries family value name⟩
      | _ => exact absurd done (not_noMap fun _ same => by cases same)
    · cases data <;> exact absurd done (not_noMap fun _ _ => text)

end Schema

end XmlBinding
