import XmlBinding.Proofs.Forest
import XmlBinding.Proofs.Induction
import XmlBinding.Proofs.Requirements
import XmlBinding.Typed.Access
import XmlBinding.Typed.Marshal

/-! Typed values as elements. What a value is written as is a sketch of elements, if it has no part that is written in a
way of its own. Whether writing fails does not depend on the output so far; where it does not fail, it puts down the
elements of the sketch one after another. -/
namespace XmlBinding
open Text

/-- The elements that a value of a type is written as under a name, with others behind them. -/
abbrev Sketch := Ty → String → Forest → Forest

/-- The elements that the parts of a value are written as. -/
structure PartSketches where
  content : Sketch := fun _ _ more => more
  entries : Keyed Sketch := []
  items : List Sketch := []

namespace Sketch

/-- An element without content. -/
def emptyElement (name : String) (more : Forest) : Forest := .element name [] "" none .nil more

/-- The field of a record as elements, unless it is left out. -/
def child (fields : Keyed Data) (sketches : Keyed Sketch) (child : ChildField Ty) (more : Forest) : Forest :=
  if child.tag.omitEmpty && child.field.type.isEmpty ((fields.get? child.field.name).getD .absent) then more
  else
    match sketches.get? child.field.name with
    | some sketch => sketch child.link child.tag.name more
    | none => more

/-- The text of a field, if there is any. -/
def text? (schema : Schema) (fields : Keyed Data) (planned : PlannedField) : Option String :=
  (schema.fieldText planned fields).toOption.join

/-- The attributes of a record. -/
def attributes (schema : Schema) (fields : Keyed Data) (planned : List PlannedField) : Keyed String :=
  planned.flatMap fun planned => (text? schema fields planned).toList.map (planned.tag.name, ·)

/-- A record as an element. -/
def record (schema : Schema) (form : RecordForm Ty) (fields : Keyed Data) (sketches : Keyed Sketch) (name : String)
    (more : Forest) : Forest :=
  .element name (attributes schema fields form.attributes)
    ((form.characters?.bind (text? schema fields)).getD "") (form.cdata?.bind (text? schema fields))
    (form.children.foldr (child fields sketches) .nil) more

/-- The values of a map as elements, each under its key. -/
def entries (type : Ty) (sketches : Keyed Sketch) (more : Forest) : Forest :=
  sketches.foldr (fun entry more => entry.2 type entry.1 more) more

/-- Items as elements of one name. -/
def items (type : Ty) (name : String) (sketches : List Sketch) (more : Forest) : Forest :=
  sketches.foldr (fun sketch more => sketch type name more) more

end Sketch

namespace Schema

/-- The elements that a value is written as, given those of its parts. -/
def sketchWith (schema : Schema) (data : Data) (parts : PartSketches) : Sketch := fun type name more =>
  match schema.routine type, data with
  | .scalar, .scalar value => .element name [] value.format none .nil more
  | .pointer target, .present _ => parts.content target name more
  | .pointer _, .absent => Sketch.emptyElement name more
  | .dynamic, .dynamic content _ => parts.content content name more
  | .dynamic, .absent => Sketch.emptyElement name more
  | .record form, .record fields => Sketch.record schema form fields parts.entries name more
  | .map value, .map _ => .element name [] "" none (Sketch.entries value parts.entries.sort .nil) more
  | .items element, .list _ => Sketch.items element name parts.items more
  | _, _ => more

mutual

/-- The elements that a value of a type is written as. -/
def sketch (schema : Schema) : Data → Sketch
  | .scalar value => schema.sketchWith (.scalar value) {}
  | .absent => schema.sketchWith .absent {}
  | .present data => schema.sketchWith (.present data) { content := sketch schema data }
  | .record fields => schema.sketchWith (.record fields) { entries := sketchEntries schema fields }
  | .map entries => schema.sketchWith (.map entries) { entries := sketchEntries schema entries }
  | .list items => schema.sketchWith (.list items) { items := sketchItems schema items }
  | .dynamic type data => schema.sketchWith (.dynamic type data) { content := sketch schema data }
  | .native value => schema.sketchWith (.native value) {}
  | .sealed => schema.sketchWith .sealed {}

def sketchEntries (schema : Schema) : List (String × Data) → Keyed Sketch
  | [] => []
  | (key, data) :: rest => (key, sketch schema data) :: sketchEntries schema rest

def sketchItems (schema : Schema) : List Data → List Sketch
  | [] => []
  | data :: rest => sketch schema data :: sketchItems schema rest

end

theorem sketchEntries_eq_map (schema : Schema) (entries : Keyed Data) :
    schema.sketchEntries entries = entries.map fun entry => (entry.1, schema.sketch entry.2) := by
  induction entries with
  | nil => rfl
  | cons entry rest ih => exact congrArg (_ :: ·) ih

theorem sketchItems_eq_map (schema : Schema) (items : List Data) :
    schema.sketchItems items = items.map schema.sketch := by
  induction items with
  | nil => rfl
  | cons item rest ih => exact congrArg (_ :: ·) ih

theorem writeEntries_eq_map [Directory σ ρ] (schema : Schema) (entries : Keyed Data) :
    schema.writeEntries (σ := σ) entries = entries.map fun entry => (entry.1, schema.write entry.2) := by
  induction entries with
  | nil => rfl
  | cons entry rest ih => exact congrArg (_ :: ·) ih

theorem writeItems_eq_map [Directory σ ρ] (schema : Schema) (items : List Data) :
    schema.writeItems (σ := σ) items = items.map schema.write := by
  induction items with
  | nil => rfl
  | cons item rest ih => exact congrArg (_ :: ·) ih

end Schema

namespace Schema

/-- A value becomes elements inside those of another, or in their place. -/
inductive Piece (schema : Schema) : Instance → Instance → Prop where
  | option : Piece schema ⟨.option target, .present data⟩ ⟨target, data⟩
  | box : Piece schema ⟨.box target, .present data⟩ ⟨target, data⟩
  | dynamic : Piece schema ⟨.dynamic, .dynamic type data⟩ ⟨type, data⟩
  | field {planned : PlannedField} {fields : Keyed Data} (member : planned ∈ (schema.plan name).fields)
      (role : planned.tag.role = .element) (held : fields.get? planned.field.name = some data) :
      Piece schema ⟨.record name, .record fields⟩ ⟨planned.field.type, data⟩
  | entry {entries : Keyed Data} (held : (key, data) ∈ entries) :
      Piece schema ⟨.map family keyType value, .map entries⟩ ⟨value, data⟩
  | item (held : data ∈ items) : Piece schema ⟨.sequence element, .list items⟩ ⟨element, data⟩
  | slot (held : data ∈ items) : Piece schema ⟨.array element length, .list items⟩ ⟨element, data⟩

/-- So are a value and all pieces of it. -/
def Throughout (schema : Schema) (P : Instance → Prop) (type : Ty) (data : Data) : Prop :=
  ∀ part, Relation.ReflTransGen schema.Piece ⟨type, data⟩ part → P part

variable {schema : Schema} {P : Instance → Prop}

theorem Throughout.here (all : schema.Throughout P type data) : P ⟨type, data⟩ := all _ .refl

theorem Throughout.inside (all : schema.Throughout P type data) (piece : schema.Piece ⟨type, data⟩ ⟨part, content⟩) :
    schema.Throughout P part content := fun _ within => all _ (.head piece within)

theorem throughout (here : P ⟨type, data⟩)
    (inside : ∀ {part content}, schema.Piece ⟨type, data⟩ ⟨part, content⟩ → schema.Throughout P part content) :
    schema.Throughout P type data := by
  intro part within
  rcases Relation.ReflTransGen.cases_head within with rfl | ⟨next, piece, rest⟩
  · exact here
  · exact inside piece _ rest

theorem Throughout.imp (all : schema.Throughout P type data) (weaker : ∀ it, P it → Q it) :
    schema.Throughout Q type data := fun part within => weaker part (all part within)

end Schema

/-- A value that is not written in a way of its own. -/
def Instance.Plain (it : Instance) : Prop := it.type ≠ .native ∧ ∀ name, it.type ≠ .custom name

namespace Writing
variable {schema : Schema}

/-- A part of writing does this to the output, or it fails whatever the output is. -/
inductive ActsFrom (demand : Demand) (x : Writing Demand Unit) (f : Writer → Writer) : Prop where
  | done (after : Demand) (ran : ∀ w, x ⟨demand, w⟩ = .ok () ⟨after, f w⟩)
  | failed (e : Error) (after : Demand) (ran : ∀ w, ∃ w', x ⟨demand, w⟩ = .error e ⟨after, w'⟩)

def Acts (x : Writing Demand Unit) (f : Writer → Writer) : Prop := ∀ demand, ActsFrom demand x f

theorem acts_pure : Acts (pure ()) id := fun demand => .done demand fun _ => rfl

theorem acts_throw (e : Error) (f : Writer → Writer) : Acts (throw e) f := fun demand =>
  .failed e demand fun w => ⟨w, rfl⟩

theorem acts_put (f : Writer → Writer) : Acts (put f) f := fun demand => .done demand fun _ => rfl

theorem Acts.seq {x y : Writing Demand Unit} (first : Acts x f) (second : Acts y g) :
    Acts (x >>= fun _ => y) (g ∘ f) := by
  intro demand
  cases first demand with
  | failed e after ran =>
    refine .failed e after fun w => (ran w).imp fun w' ran => ?_
    show EStateM.bind x _ _ = _
    rw [EStateM.bind, ran]
  | done after ran =>
    have run (w : Writer) : (x >>= fun _ => y) ⟨demand, w⟩ = y ⟨after, f w⟩ := by
      show EStateM.bind x _ _ = _
      rw [EStateM.bind, ran]
    cases second after with
    | done last ran' => exact .done last fun w => (run w).trans (ran' (f w))
    | failed e last ran' => exact .failed e last fun w => (ran' (f w)).imp fun _ ran' => (run w).trans ran'

theorem Acts.adapt {x : Writing Demand Unit} (acts : Acts x f) (wrap : Error → Error) :
    Acts (x.adaptExcept wrap) f := by
  intro demand
  cases acts demand with
  | done after ran =>
    refine .done after fun w => ?_
    show EStateM.adaptExcept wrap x _ = _
    rw [EStateM.adaptExcept, ran]
  | failed e after ran =>
    refine .failed (wrap e) after fun w => (ran w).imp fun w' ran => ?_
    show EStateM.adaptExcept wrap x _ = _
    rw [EStateM.adaptExcept, ran]

/-- What is worked out before does not depend on the output. -/
theorem Acts.ofExcept {result : Except Error α} {y : α → Writing Demand Unit}
    (acts : ∀ a, result = .ok a → Acts (y a) f) : Acts (ofExcept result >>= y) f := by
  cases result with
  | ok a => exact fun demand => acts a rfl demand
  | error e => exact acts_throw e f

theorem acts_fieldText (schema : Schema) (fields : Keyed Data) (planned : PlannedField)
    (write : String → Writer → Writer) :
    Acts (fieldText schema fields planned write) fun w => (Sketch.text? schema fields planned).elim w (write · w) := by
  refine .ofExcept fun text? text => ?_
  rw [Sketch.text?, text]
  cases text? with
  | none => exact acts_pure
  | some text => exact acts_put _

theorem acts_attributes (schema : Schema) (fields : Keyed Data) (list : List PlannedField) :
    Acts (list.forM fun planned =>
      fieldText schema fields planned fun text w => w.putAttribute planned.tag.name text)
      fun w => (Sketch.attributes schema fields list).foldl (fun w entry => w.putAttribute entry.1 entry.2) w := by
  induction list with
  | nil => exact acts_pure
  | cons first rest ih =>
    rw [Sketch.attributes, List.flatMap_cons, ← Sketch.attributes]
    have here := acts_fieldText schema fields first fun text w => w.putAttribute first.tag.name text
    have both := here.seq ih
    cases text : Sketch.text? schema fields first <;> rw [text] at both <;> exact both

theorem acts_texts (schema : Schema) (fields : Keyed Data) (planned? : Option PlannedField)
    (write : String → Writer → Writer) :
    Acts (planned?.forM fun planned => fieldText schema fields planned write)
      fun w => (planned?.bind (Sketch.text? schema fields)).elim w (write · w) := by
  cases planned? with
  | none => exact acts_pure
  | some planned => exact acts_fieldText schema fields planned write

/-- An empty text is no text. -/
theorem acts_text (schema : Schema) (fields : Keyed Data) (planned? : Option PlannedField) :
    Acts (planned?.forM fun planned => fieldText schema fields planned fun text w => w.text text)
      (·.text ((planned?.bind (Sketch.text? schema fields)).getD "")) := by
  have acts := acts_texts schema fields planned? fun text w => w.text text
  generalize planned?.bind (Sketch.text? schema fields) = found at acts ⊢
  cases found <;> exact acts

/-- A part of writing puts down some elements, unless it fails. -/
structure Lays (x : Writing Demand Unit) (elements : Forest → Forest) : Prop where
  acts : Acts x (elements .nil).write
  /-- What stands behind the elements is written behind them. -/
  behind (more : Forest) (w : Writer) : (elements more).write w = more.write ((elements .nil).write w)

theorem lays_nothing : Lays (pure ()) id := ⟨acts_pure, fun _ _ => rfl⟩

theorem lays_throw (e : Error) : Lays (throw e) id := ⟨acts_throw e _, fun _ _ => rfl⟩

theorem Lays.adapt {x : Writing Demand Unit} (lays : Lays x elements) (wrap : Error → Error) :
    Lays (x.adaptExcept wrap) elements := ⟨lays.acts.adapt wrap, lays.behind⟩

theorem Lays.seq {x y : Writing Demand Unit} (first : Lays x elements) (second : Lays y others) :
    Lays (x >>= fun _ => y) (fun more => elements (others more)) where
  acts := by
    convert first.acts.seq second.acts using 1
    exact funext fun w => first.behind _ w
  behind more w := by rw [first.behind, second.behind, first.behind (others .nil)]

theorem Lays.forM_map {f : α → β} {g : α → γ} {x : β → Writing Demand Unit} {elements : γ → Forest → Forest}
    {list : List α} (each : ∀ a ∈ list, Lays (x (f a)) (elements (g a))) :
    Lays ((list.map f).forM x) (fun more => (list.map g).foldr elements more) := by
  induction list with
  | nil => exact lays_nothing
  | cons a rest ih =>
    obtain ⟨here, later⟩ := List.forall_mem_cons.1 each
    exact here.seq (ih later)

theorem Lays.forM {x : α → Writing Demand Unit} {elements : α → Forest → Forest} {list : List α}
    (each : ∀ a ∈ list, Lays (x a) (elements a)) : Lays (list.forM x) (fun more => list.foldr elements more) := by
  have mapped : Lays ((list.map id).forM x) (fun more => (list.map id).foldr elements more) := .forM_map each
  rwa [List.map_id] at mapped

/-- That a type is asked for makes no difference to the output. -/
theorem Lays.request {write : ElementWriting Demand Ty} (schema : Schema) (lays : Lays (write type name) elements) :
    Lays (request schema type >>= fun link => write link name) elements := by
  refine ⟨fun demand => ?_, lays.behind⟩
  cases lays.acts { demand with requested := demand.requested ++ [type] } with
  | done after ran => exact .done after ran
  | failed e after ran => exact .failed e after ran

theorem lays_textElement (name text : String) :
    Lays (put (·.textElement name text)) (.element name [] text none .nil) :=
  ⟨acts_put _, fun _ _ => rfl⟩

theorem lays_emptyElement (name : String) : Lays (emptyElement name) (Sketch.emptyElement name) :=
  ⟨acts_put _, fun _ _ => rfl⟩

/-- A record is written as its element, if its children are written as theirs. -/
theorem lays_record {form : RecordForm Ty} {fields : Keyed Data} {writings : Keyed (ElementWriting Demand Ty)}
    {sketches : Keyed Sketch} (name : String)
    (children : ∀ planned ∈ form.children, Lays (child fields writings planned) (Sketch.child fields sketches planned)) :
    Lays (record schema form fields writings name) (Sketch.record schema form fields sketches name) where
  acts := by
    have inside := (Lays.forM children).acts.seq (acts_put (·.close name))
    have texts := (acts_text schema fields form.characters?).seq <|
      (acts_texts schema fields form.cdata? fun text w => w.cdata text).seq inside
    exact (acts_put (·.start name)).seq ((acts_attributes schema fields form.attributes).seq texts)
  behind _ _ := rfl

theorem lays_items {write : α → ElementWriting Demand Ty} {sketch : α → Sketch} {list : List α}
    (each : ∀ a ∈ list, Lays (write a type name) (sketch a type name)) (index : Nat) :
    Lays (items type name index (list.map write)) (Sketch.items type name (list.map sketch)) := by
  induction list generalizing index with
  | nil => exact lays_nothing
  | cons a rest ih =>
    obtain ⟨here, later⟩ := List.forall_mem_cons.1 each
    exact (here.adapt _).seq (ih later (index + 1))

theorem lays_map {write : α → ElementWriting Demand Ty} {sketch : α → Sketch} {entries : Keyed α}
    (each : ∀ entry ∈ entries, Lays (write entry.2 type entry.1) (sketch entry.2 type entry.1)) (name : String) :
    Lays (map type (entries.map fun entry => (entry.1, write entry.2)) name)
      (.element name [] "" none
        (Sketch.entries type (Keyed.sort (entries.map fun entry => (entry.1, sketch entry.2))) .nil)) := by
  have inside : Lays ((Keyed.sort (entries.map fun entry => (entry.1, write entry.2))).forM
      fun writing => entry type writing.1 writing.2)
      (Sketch.entries type (Keyed.sort (entries.map fun entry => (entry.1, sketch entry.2)))) := by
    rw [Keyed.sort_map, Keyed.sort_map]
    refine .forM_map fun entry member => ?_
    have lays := each entry ((Keyed.sort_perm entries).mem_iff.1 member)
    rw [Writing.entry]
    split
    · exact lays.adapt _
    · exact ⟨acts_throw _ _, lays.behind⟩
  have acts := (acts_put (·.start name)).seq (inside.acts.seq (acts_put (·.close name)))
  exact ⟨acts, fun _ _ => rfl⟩

/-- A field is written as its elements, if its data is. -/
theorem lays_child {fields : Keyed Data} {write : Data → ElementWriting Demand Ty} {sketch : Data → Sketch}
    {planned : ChildField Ty} (lays : ∀ data, fields.get? planned.field.name = some data →
      Lays (write data planned.link planned.tag.name) (sketch data planned.link planned.tag.name)) :
    Lays (child fields (fields.map fun entry => (entry.1, write entry.2)) planned)
      (Sketch.child fields (fields.map fun entry => (entry.1, sketch entry.2)) planned) := by
  unfold child Sketch.child
  rw [Keyed.get?_map, Keyed.get?_map]
  dsimp only
  split
  · exact lays_nothing
  · cases found : fields.get? planned.field.name with
    | none => exact lays_nothing
    | some data => exact (lays data found).adapt _

end Writing

namespace Schema
open Writing
variable {schema : Schema}

theorem routine_map (schema : Schema) (family : String) (value : Ty) :
    schema.routine (.map family .string value) = .map value := by
  rw [routine, if_pos rfl]

theorem routine_keyedMap (schema : Schema) (family : String) (value : Ty) (other : key ≠ .string) :
    schema.routine (.map family key value) = .keyedMap key := by
  rw [routine, if_neg other]

theorem sketch_map (schema : Schema) (entries : Keyed Data) (family : String) (value : Ty) (name : String) :
    schema.sketch (.map entries) (.map family .string value) name =
      .element name [] "" none (Sketch.entries value (schema.sketchEntries entries).sort .nil) := by
  funext more
  unfold sketch sketchWith
  rw [routine_map]

/-- A map is written with an element for each value, in the order of the keys. -/
theorem write_map (schema : Schema) (entries : Keyed Data) (family : String) (value : Ty) (name : String) :
    (schema.write (.map entries) (.map family .string value) name : Writing Demand Unit) =
      Writing.map value (schema.writeEntries entries) name := by
  let type : Ty := .map family .string value
  show (schema.writeBy ⟨type, schema.routine type⟩ (.map entries) _ name : Writing Demand Unit) = _
  rw [routine_map]
  rfl

/-- A map whose keys are not text has no elements, nor has another value in place of a map. -/
theorem sketchWith_noMap {parts : PartSketches} {key value : Ty}
    (none : ∀ entries, data = .map entries → key ≠ .string) :
    schema.sketchWith data parts (.map family key value) name = id := by
  unfold sketchWith
  by_cases text : key = .string
  · rw [text, routine_map]
    cases data with
    | map entries => exact absurd text (none entries rfl)
    | _ => rfl
  · rw [routine_keyedMap schema family value text]
    rfl

/-- Such a value is not written. -/
theorem writeWith_noMap {parts : PartWritings Demand Ty} {key value : Ty}
    (none : ∀ entries, data = .map entries → key ≠ .string) :
    ∃ e, schema.writeWith data parts (.map family key value) name = throw e := by
  show ∃ e, schema.writeBy ⟨.map family key value, schema.routine (.map family key value)⟩ data parts name = throw e
  by_cases text : key = .string
  · rw [text, routine_map]
    cases data with
    | map entries => exact absurd text (none entries rfl)
    | _ => exact ⟨_, rfl⟩
  · rw [routine_keyedMap schema family value text]
    exact ⟨_, rfl⟩

theorem lays_noMap {parts : PartWritings Demand Ty} {sketches : PartSketches} {key value : Ty}
    (none : ∀ entries, data = .map entries → key ≠ .string) :
    Lays (schema.writeWith data parts (.map family key value) name)
      (schema.sketchWith data sketches (.map family key value) name) := by
  obtain ⟨e, failed⟩ := writeWith_noMap none
  rw [sketchWith_noMap none, failed]
  exact lays_throw e

/-- A value in which nothing is written in a way of its own is written as the elements of its sketch. -/
theorem write_lays (data : Data) {type : Ty} (plain : schema.Throughout Instance.Plain type data)
    (name : String) :
    Lays (schema.write data type name) (schema.sketch data type name) := by
  induction data using Data.induction generalizing type name with
  | step data ih =>
  cases type with
  | scalar =>
    cases data with
    | scalar value => exact lays_textElement name _
    | _ => exact lays_throw _
  | option target =>
    cases data with
    | present data => exact ih data (List.mem_singleton_self _) (plain.inside .option) name
    | absent => exact lays_emptyElement name
    | _ => exact lays_throw _
  | box target =>
    cases data with
    | present data => exact ih data (List.mem_singleton_self _) (plain.inside .box) name
    | absent => exact lays_emptyElement name
    | _ => exact lays_throw _
  | dynamic =>
    cases data with
    | dynamic type data =>
      exact .request schema (ih data (List.mem_singleton_self _) (plain.inside .dynamic) name)
    | absent => exact lays_emptyElement name
    | _ => exact lays_throw _
  | native => exact absurd rfl plain.here.1
  | custom custom => exact absurd rfl (plain.here.2 custom)
  | unsupported => cases data <;> exact lays_throw _
  | sequence element =>
    cases data with
    | list items =>
      show Lays (Writing.items element name 0 (schema.writeItems items))
        (Sketch.items element name (schema.sketchItems items))
      rw [writeItems_eq_map, sketchItems_eq_map]
      exact lays_items (fun item held => ih item held (plain.inside (.item held)) name) 0
    | _ => exact lays_throw _
  | array element length =>
    cases data with
    | list items =>
      show Lays (Writing.items element name 0 (schema.writeItems items))
        (Sketch.items element name (schema.sketchItems items))
      rw [writeItems_eq_map, sketchItems_eq_map]
      exact lays_items (fun item held => ih item held (plain.inside (.slot held)) name) 0
    | _ => exact lays_throw _
  | record record =>
    cases data with
    | record fields =>
      refine lays_record name fun child held => ?_
      obtain ⟨planned, member, rfl⟩ := List.mem_map.1 held
      obtain ⟨member, role⟩ := List.mem_filter.1 member
      dsimp only
      rw [writeEntries_eq_map, sketchEntries_eq_map]
      exact lays_child fun data found => ih data (List.mem_map_of_mem (Keyed.mem_of_get? found))
        (plain.inside (.field member (beq_iff_eq.1 role) found)) _
    | _ => exact lays_throw _
  | map family key value =>
    by_cases text : key = .string
    · subst text
      cases data with
      | map entries =>
        rw [write_map, sketch_map, writeEntries_eq_map, sketchEntries_eq_map]
        exact lays_map (fun entry held => ih entry.2 (List.mem_map_of_mem held)
          (plain.inside (.entry held)) entry.1) name
      | _ => exact lays_noMap fun _ same => by cases same
    · cases data <;> exact lays_noMap fun _ _ => text

/-- The same value is marshaled in every layout, as the elements of its sketch, or in none. -/
theorem marshal_lays {data : Data} {type : Ty} (plain : schema.Throughout Instance.Plain type data) (tag : String) :
    (∃ after : Demand, ∀ layout?, schema.marshal type data ⟨tag, layout?⟩ {} =
      (.ok ((schema.sketch data type (schema.rootName tag type data) .nil).write { layout? }).finish, after)) ∨
    ∃ e, ∃ after : Demand, ∀ layout?, schema.marshal type data ⟨tag, layout?⟩ {} = (.error e, after) := by
  have lays := (write_lays data plain (schema.rootName tag type data)).request schema
  have run (layout? : Option Layout) : schema.marshalWith type data ⟨tag, layout?⟩ #[] ({} : Demand) =
      schema.writeRoot type data (schema.rootName tag type data) ⟨{}, { layout? }⟩ := rfl
  cases lays.acts {} with
  | done after ran =>
    refine .inl ⟨after, fun layout? => ?_⟩
    rw [marshal, run, show schema.writeRoot type data _ _ = _ from ran { layout? }]
  | failed e after ran =>
    refine .inr ⟨e, after, fun layout? => ?_⟩
    obtain ⟨w', ran⟩ := ran { layout? }
    rw [marshal, run, show schema.writeRoot type data _ _ = _ from ran]

end Schema

end XmlBinding
