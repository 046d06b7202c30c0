import XmlBinding.Proofs.Assigning
import XmlBinding.Proofs.InUse
import XmlBinding.Proofs.Rendering

/-! What custom types are given to read. Each is given some content of the document, written as an element; and what it
would make of anything else makes no difference to what is read. -/
namespace XmlBinding
open Text

namespace Value

/-- The element of a name with some content, as a document. -/
def asElement (content : Value) (name : String) : List UInt8 := content.render { rootTag := name }

end Value

namespace Schema

/-- A custom type may be given some content, as an element of a name, when a value that stands in an element is assigned
to a target of a type. -/
inductive Hands (schema : Schema) (custom : String) (content : Value) (element : String) :
    Value → Ty → String → Prop where
  | here : Hands schema custom content element content (.custom custom) element
  | option (some : value ≠ .map []) (inside : Hands schema custom content element value target name) :
      Hands schema custom content element value (.option target) name
  | box (inside : Hands schema custom content element value target name) :
      Hands schema custom content element value (.box target) name
  /-- A field is given what stands under its key, in an element with the name in its tag. -/
  | field {entries : Keyed Value} (held : (key, value) ∈ entries)
      (found : (schema.plan record).find? key = some planned)
      (inside : Hands schema custom content element value planned.field.type planned.tag.name) :
      Hands schema custom content element (.map entries) (.record record) name
  /-- What stands under a key of a map is given in an element with the key for a name. -/
  | entry {entries : Keyed Value} (held : (key, value) ∈ entries)
      (inside : Hands schema custom content element value type key) :
      Hands schema custom content element (.map entries) (.map family (.scalar keyType) type) name
  /-- The items of a list are given one by one, or any other value as a list of one. -/
  | item (held : item ∈ value.asList) (inside : Hands schema custom content element item type name) :
      Hands schema custom content element value (.sequence type) name
  | slot (held : item ∈ value.asList.take length)
      (inside : Hands schema custom content element item type name) :
      Hands schema custom content element value (.array type length) name

/-- The schema with custom types that read in another way. -/
def reading (schema : Schema) (read : String → List UInt8 → Data → Data × Option Error) : Schema :=
  { schema with customs := schema.customs.map fun entry => (entry.1, { entry.2 with unmarshal := read entry.1 }) }

/-- Whether custom types read what they are given as in the schema. -/
def AgreesOn (schema : Schema) (read : String → List UInt8 → Data → Data × Option Error) (value : Value) (type : Ty)
    (name : String) : Prop :=
  ∀ custom content element behaviour, schema.Hands custom content element value type name →
    schema.custom custom = .ok behaviour →
      read custom (content.asElement element) = behaviour.unmarshal (content.asElement element)

variable {schema : Schema} {read : String → List UInt8 → Data → Data × Option Error}

theorem customs_reading (name : String) : (schema.reading read).customs.get? name =
    (schema.customs.get? name).map fun custom => { custom with unmarshal := read name } :=
  Keyed.get?_mapKeys (fun name (custom : Custom) => ({ custom with unmarshal := read name } : Custom))
    schema.customs name

theorem custom_reading (name : String) : (schema.reading read).custom name =
    (schema.custom name).map fun custom => { custom with unmarshal := read name } := by
  rw [custom, custom, customs_reading]
  cases schema.customs.get? name <;> rfl

/-- Blank values are the same. -/
theorem blank_reading : (schema.reading read).blank = schema.blank := by
  funext type
  induction type with
  | box target ih => rw [blank_box, blank_box, ih]
  | array element length ih => rw [blank_array, blank_array, ih]
  | custom name =>
    rw [blank, blank, customs_reading]
    cases schema.customs.get? name <;> rfl
  | _ => rfl

end Schema

namespace Assignment
variable {schema other : Schema} {x y : Value → Assignment σ}

theorem fields_congr {entries : Keyed Value} (blank : other.blank = schema.blank) (plan : Plan)
    (each : ∀ entry ∈ entries, ∀ planned, plan.find? entry.1 = some planned →
      x entry.2 planned.field.type planned.tag.name = y entry.2 planned.field.type planned.tag.name) :
    fields other plan (entries.map fun entry => (entry.1, x entry.2)) =
      fields schema plan (entries.map fun entry => (entry.1, y entry.2)) := by
  induction entries with
  | nil => rfl
  | cons entry rest ih =>
    obtain ⟨here, later⟩ := List.forall_mem_cons.1 each
    funext registry target
    rw [List.map_cons, List.map_cons]
    unfold fields
    rw [ih later, blank]
    dsimp only
    cases found : plan.find? entry.1 with
    | none => rfl
    | some planned =>
      cases target with
      | record slots =>
        dsimp only
        rw [here planned found]
      | _ => rfl

theorem entries_congr {entries : Keyed Value} (blank : other.blank = schema.blank)
    (names : other.typeName = schema.typeName) (key : ScalarType) (type : Ty)
    (each : ∀ entry ∈ entries, x entry.2 type entry.1 = y entry.2 type entry.1) :
    Assignment.entries other key type (entries.map fun entry => (entry.1, x entry.2)) =
      Assignment.entries schema key type (entries.map fun entry => (entry.1, y entry.2)) := by
  induction entries with
  | nil => rfl
  | cons entry rest ih =>
    obtain ⟨here, later⟩ := List.forall_mem_cons.1 each
    funext registry target
    rw [List.map_cons, List.map_cons]
    unfold Assignment.entries
    rw [ih later, blank, names, here]

theorem items_congr {items : List Value} (blank : other.blank = schema.blank)
    (each : ∀ item ∈ items, x item type name = y item type name) :
    Assignment.items other type name (items.map x) = Assignment.items schema type name (items.map y) := by
  induction items with
  | nil => rfl
  | cons item rest ih =>
    obtain ⟨here, later⟩ := List.forall_mem_cons.1 each
    funext before registry
    rw [List.map_cons, List.map_cons]
    unfold Assignment.items
    rw [ih later, blank, here]

theorem inPlace_congr {items : List Value} (each : ∀ item ∈ items, x item type name = y item type name) :
    inPlace type name (items.map x) = inPlace type name (items.map y) := by
  induction items with
  | nil => rfl
  | cons item rest ih =>
    obtain ⟨here, later⟩ := List.forall_mem_cons.1 each
    funext before after registry
    rw [List.map_cons, List.map_cons]
    cases after with
    | nil => rfl
    | cons old after =>
      unfold inPlace
      rw [ih later, here]

end Assignment

namespace Schema
variable {schema : Schema} {read : String → List UInt8 → Data → Data × Option Error}

theorem AgreesOn.inside (agrees : schema.AgreesOn read value type name)
    (inside : ∀ {custom content element}, schema.Hands custom content element part target tag →
      schema.Hands custom content element value type name) : schema.AgreesOn read part target tag :=
  fun _ _ _ _ hands => agrees _ _ _ _ (inside hands)

theorem slots_reading (type : Ty) (length : Nat) (target : Data) :
    (schema.reading read).slots type length target = schema.slots type length target := by
  cases target with
  | list => rfl
  | _ => exact congrArg (List.replicate length) (congrFun blank_reading type)

theorem held_reading (type : Ty) (target : Data) :
    (schema.reading read).held type target = schema.held type target := by
  cases target with
  | present => rfl
  | _ => exact congrFun blank_reading type

theorem misfit_reading (misfits : value.Misfits type) (name : String) :
    (schema.reading read).assign (σ := Demand) value type name = schema.assign value type name := by
  funext demand target
  cases misfits with
  | list => rfl
  | unsupported => cases value <;> rfl
  | noRecord other | noMap other =>
    cases value with
    | map entries => exact absurd rfl (other entries)
    | _ => rfl
  | @noKey key _ _ _ other =>
    cases key with
    | scalar scalar => exact absurd rfl (other scalar)
    | _ => rfl

theorem custom_reading_assign {custom : String} (agrees : schema.AgreesOn read value (.custom custom) name) :
    (schema.reading read).assign (σ := Demand) value (.custom custom) name =
      schema.assign value (.custom custom) name := by
  funext demand target
  rw [assign_custom, assign_custom]
  unfold assignCustom
  rw [custom_reading]
  cases known : schema.custom custom with
  | error e => rfl
  | ok behaviour =>
    dsimp only [Except.map]
    rw [show read custom (value.render { rootTag := name }) = _ from agrees _ _ _ _ .here known]
    rfl

theorem record_reading {entries : Entries} {record : String} (each : ∀ entry ∈ entries, ∀ planned,
      (schema.plan record).find? entry.1 = some planned →
        (schema.reading read).assign (σ := Demand) entry.2 planned.field.type planned.tag.name =
          schema.assign entry.2 planned.field.type planned.tag.name) (name : String) :
    (schema.reading read).assign (σ := Demand) (.map entries) (.record record) name =
      schema.assign (.map entries) (.record record) name := by
  funext demand target
  rw [assign_record, assign_record]
  show Assignment.fields (schema.reading read) (schema.plan record) _ _ target = _
  rw [Assignment.fields_congr blank_reading (schema.plan record) each]
  rfl

/-- What custom types would make of anything that they are not given makes no difference. -/
theorem assign_reading (value : Value) (type : Ty) (name : String) (agrees : schema.AgreesOn read value type name) :
    (schema.reading read).assign (σ := Demand) value type name = schema.assign value type name := by
  induction value, type using Value.assign_induction generalizing name with
  | misfit misfits => exact misfit_reading misfits name
  | scalar type single =>
    funext demand target
    rw [assign_single _ _ _ _ single, assign_single _ _ _ _ single]
    rfl
  | dynamic value =>
    funext demand target
    rw [assign_dynamic, assign_dynamic]
  | native value =>
    funext demand target
    rw [assign_native, assign_native]
  | custom value custom => exact custom_reading_assign agrees
  | nothing target => rfl
  | option target visible ih =>
    funext demand data
    rw [assign_option _ _ _ _ _ visible, assign_option _ _ _ _ _ visible, ih name (agrees.inside (.option visible)),
      held_reading]
  | box value target ih =>
    funext demand data
    rw [assign_box, assign_box, ih name (agrees.inside .box), held_reading]
  | record entries record ih =>
    exact record_reading (fun entry held planned found =>
      ih entry held planned.field.type planned.tag.name (agrees.inside (.field held found))) name
  | map entries family key type ih =>
    funext demand target
    rw [assign_map, assign_map, Assignment.entries_congr blank_reading rfl key type fun entry held =>
      ih entry held entry.1 (agrees.inside (.entry held))]
  | sequence value element ih =>
    funext demand target
    rw [assign_sequence, assign_sequence, Assignment.items_congr blank_reading fun item held =>
      ih item held name (agrees.inside (.item held))]
  | array value element length ih =>
    funext demand target
    rw [assign_array, assign_array, slots_reading, Assignment.inPlace_congr fun item held =>
      ih item (List.mem_of_mem_take held) name (agrees.inside (.slot held))]

end Schema

namespace Value

/-- What has been read from a document: the text of an attribute or of character data, the content of an element, or the
contents of several of one name. -/
inductive Read : Value → Prop where
  | text (body : String) : Read (.string body)
  | element (whole : Whole levels value) (shallow : levels ≤ maxDepth) : Read value
  | elements (each : ∀ item ∈ items, ∃ levels ≤ maxDepth, Whole levels item) : Read (.list items)

theorem Whole.mono (whole : Whole levels value) (more : levels ≤ levels') : Whole levels' value := by
  induction levels generalizing levels' value with
  | zero => cases whole
  | succ levels ih =>
    obtain ⟨entries, rfl, keys, each⟩ := whole
    obtain ⟨levels', rfl⟩ : ∃ n, levels' = n + 1 := ⟨levels' - 1, by omega⟩
    refine ⟨entries, rfl, keys, fun entry member => ?_⟩
    have deeper {value : Value} (whole : Whole levels value) : Whole levels' value := ih whole (by omega)
    rcases entry with ⟨key, value⟩
    cases each _ member with
    | named marked name body => exact .named marked name body
    | text some => exact .text some
    | cdata body => exact .cdata body
    | child name alone => exact .child name (deeper alone)
    | children name several all => exact .children name several fun item held => deeper (all item held)

theorem Read.entry {entries : Entries} (read : Read (.map entries)) (held : (key, value) ∈ entries) : Read value := by
  cases read with | @element levels _ whole shallow =>
  cases levels with
  | zero => cases whole
  | succ levels =>
    obtain ⟨_, same, -, each⟩ := whole
    cases same
    cases each _ held with
    | named | text | cdata => exact .text _
    | child name alone => exact .element alone (by omega)
    | children name several all => exact .elements fun item held => ⟨levels, by omega, all item held⟩

theorem Read.item {item : Value} (read : Read value) (held : item ∈ value.asList) : Read item := by
  cases value with
  | list items =>
    cases read with
    | element whole => cases whole.plain
    | elements each =>
      obtain ⟨levels, shallow, whole⟩ := each item held
      exact .element whole shallow
  | _ => rwa [List.mem_singleton.1 held]

/-- Text as the content of an element, which other values are as they stand. -/
def asContent : Value → Value
  | string text => map (if text = "" then [] else [(textKey, string text)])
  | value => value

/-- Text is written as its content is. -/
theorem asElement_string (text name : String) :
    (string text).asElement name = (string text).asContent.asElement name := by
  rw [asContent]
  by_cases none : text = ""
  · subst none
    rfl
  · have special : isChildKey textKey = false := by decide
    have character : attributeOfKey? textKey = .none := by decide
    have other : Keyed.get? [(textKey, string text)] cdataKey = .none := rfl
    rw [if_neg none]
    show (Writer.textElement _ name text).finish =
      (Writer.element _ name (map [(textKey, string text)])).finish
    rw [Writer.element, Writer.children, special, Writer.children, Writer.putAttributes, Writer.putCharacters, other]
    simp only [List.foldl_cons, character]
    rfl

/-- What is no list is content of an element. -/
theorem Read.asContent (read : Read value) (single : ∀ items, value ≠ .list items) :
    Whole maxDepth value.asContent := by
  cases read with
  | text body =>
    refine ⟨_, rfl, ?_, ?_⟩
    all_goals split
    · exact Keyed.distinct_nil
    · exact List.pairwise_singleton _ _
    · exact List.forall_mem_nil _
    · rename_i some
      exact List.forall_mem_singleton.2 (.text some)
  | element whole shallow =>
    obtain ⟨entries, rfl⟩ := whole.isMap
    exact whole.mono shallow
  | elements => exact absurd rfl (single _)

/-- The element of a name with some content that has been read is accepted, and its content is read from it. -/
theorem Read.accepted (read : Read value) (single : ∀ items, value ≠ .list items) (named : isName name = true) :
    validate (.ofBytes (value.asElement name)) = .ok () ∧
      ∃ again, ofStream (.ofBytes (value.asElement name)) = .ok again ∧ (again == value.asContent) = true := by
  have written : value.asElement name = value.asContent.asElement name := by
    cases value with
    | string text => exact asElement_string text name
    | _ => rfl
  have whole := read.asContent single
  have rendered : ∃ tag inside, Grammar.Document (value.asContent.asElement name) tag inside ∧
      (tag.node inside).toValue.canonical = value.asContent.canonical :=
    whole.render named fun _ none => by cases none
  obtain ⟨tag, body, document, same⟩ := rendered
  rw [written]
  refine ⟨validate_eq_ok_iff.2 ⟨tag, body, document⟩, _, ofStream_eq_ok_iff.2 ⟨tag, body, document, rfl⟩, ?_⟩
  rw [← tag.node_toValue]
  exact same_of_canonical document.whole.distinct whole.distinct same

end Value

namespace Schema
variable {schema : Schema}

/-- Custom types are given what has been read. -/
theorem Hands.read {custom : String} (hands : schema.Hands custom content element value type name) (read : value.Read) :
    content.Read := by
  induction hands with
  | here => exact read
  | option _ _ ih | box _ ih => exact ih read
  | field held _ _ ih | entry held _ ih => exact ih (read.entry held)
  | item held _ ih => exact ih (read.item held)
  | slot held _ ih => exact ih (read.item (List.mem_of_mem_take held))

end Schema

namespace Registry
variable {schema : Schema} {registry : Registry}

theorem Coherent.reading (coherent : registry.Coherent schema)
    (read : String → List UInt8 → Data → Data × Option Error) :
    registry.Coherent (schema.reading read) where
  plans := coherent.plans
  planned := coherent.planned
  encoders := coherent.encoders
  kept := coherent.kept
  cells := coherent.cells
  pending := coherent.pending
  apart := coherent.apart
  types := coherent.types
  names := coherent.names

/-- Below the root, a custom type is given an element to read whose content is the part of the document that it stands
for, if this part is not a list and the element is given a name. What custom types would make of anything else than
these parts in their elements makes no difference. -/
theorem unmarshal_hands (coherent : registry.Coherent schema) {type : Ty} (inner : ∀ name, type ≠ .custom name)
    {xml : List UInt8} {value : Value} (accepted : Value.ofStream (.ofBytes xml) = .ok value) :
    (∀ custom content element, schema.Hands custom content element value type ({} : Settings).rootTag →
      isName element = true → (∀ items, content ≠ .list items) →
        validate (.ofBytes (content.asElement element)) = .ok () ∧
          ∃ again, Value.ofStream (.ofBytes (content.asElement element)) = .ok again ∧
            (again == content.asContent) = true) ∧
    ∀ read, schema.AgreesOn read value type ({} : Settings).rootTag → ∀ target,
      (registry.unmarshal (schema.reading read) type xml target).target =
          (registry.unmarshal schema type xml target).target ∧
        (registry.unmarshal (schema.reading read) type xml target).error? =
          (registry.unmarshal schema type xml target).error? := by
  have whole : value.Read := by
    obtain ⟨tag, body, document, rfl⟩ := Value.ofStream_eq_ok_iff.1 accepted
    rw [← tag.node_toValue]
    exact .element document.whole le_rfl
  refine ⟨fun custom content element hands named single => (hands.read whole).accepted single named,
    fun read agrees target => ?_⟩
  have ran (schema : Schema) : schema.unmarshal type xml target ({} : Demand) =
      schema.assign value type ({} : Settings).rootTag {} target := by
    unfold Schema.unmarshal
    split
    · exact absurd rfl (inner _)
    · rw [accepted]
  have same : (schema.reading read).unmarshal type xml target ({} : Demand) = schema.unmarshal type xml target {} := by
    rw [ran, ran, Schema.assign_reading value type _ agrees]
  have here := coherent.unmarshal type xml target
  have there := (coherent.reading read).unmarshal type xml target
  exact ⟨there.target.trans (same ▸ here.target.symm), there.error?.trans (same ▸ here.error?.symm)⟩

end Registry

/-- The parts of a parcel refuse whatever they are given to read, and say what it was. -/
def parcelSchema : Schema where
  records := [("Parcel", {
    name := "Parcel"
    fields := [⟨"content", .custom "Refused", "content"⟩, ⟨"named", .map "BTreeMap" .string (.custom "Refused"), "named"⟩]
    blank := .record [("content", .sealed), ("named", .map [])] })]
  customs := [("Refused", {
    blank := .sealed
    marshal := fun _ name => .error (.custom name)
    unmarshal := fun xml target => (target, some (.custom ((ofBytes? xml).getD ""))) })]
  typeName _ := ""

def parcelData : Data := .record [("content", .sealed), ("named", .map [])]

/-- The content of a parcel, with an attribute and text, and what would be made of anything but the element. -/
theorem unmarshal_hands_parcel :
    let xml := bytes "<p><content k='v'>t</content></p>"
    let content : Value := .map [("@k", .string "v"), ("#text", .string "t")]
    Value.ofStream (.ofBytes xml) = .ok (.map [("content", content)]) ∧
      (validate (.ofBytes (content.asElement "content")) = .ok () ∧
        ∃ again, Value.ofStream (.ofBytes (content.asElement "content")) = .ok again ∧
          (again == content.asContent) = true) ∧
      ∀ read, parcelSchema.AgreesOn read (.map [("content", content)]) (.record "Parcel") "root" → ∀ target,
        (({} : Registry).unmarshal (parcelSchema.reading read) (.record "Parcel") xml target).target =
            (({} : Registry).unmarshal parcelSchema (.record "Parcel") xml target).target ∧
          (({} : Registry).unmarshal (parcelSchema.reading read) (.record "Parcel") xml target).error? =
            (({} : Registry).unmarshal parcelSchema (.record "Parcel") xml target).error? := by
  intro xml content
  have parsed : Node.ofBytes (bytes "<p><content k='v'>t</content></p>") = .ok (.object [("content", .object
      [("@k", .literal "v" ⟨14, 1, 15⟩), ("#text", .literal "t" ⟨18, 1, 19⟩)] ⟨3, 1, 4⟩)] ⟨0, 1, 1⟩) := by rfl
  have accepted : Value.ofStream (.ofBytes xml) = .ok (.map [("content", content)]) := by
    obtain ⟨tag, inside, document, same⟩ := Node.ofBytes_eq_ok_iff.1 parsed
    refine Value.ofStream_eq_ok_iff.2 ⟨tag, inside, document, ?_⟩
    rw [← tag.node_toValue, ← same]
    rfl
  obtain ⟨given, alone⟩ := Registry.unmarshal_hands (Registry.empty_coherent parcelSchema)
    (show ∀ name, Ty.record "Parcel" ≠ .custom name from nofun) accepted
  have found : (parcelSchema.plan "Parcel").find? "content" =
      some ⟨⟨"content", .custom "Refused", "content"⟩, { name := "content" }⟩ := by decide
  exact ⟨accepted, given "Refused" content "content" (.field (List.mem_singleton_self _) found .here) (by decide) nofun,
    alone⟩

/-- Under the key of an attribute there is no name for an element, and several children of one name are several elements:
what a custom type is given then is not accepted. -/
theorem hands_faults :
    (({} : Registry).unmarshal parcelSchema (.record "Parcel") (bytes "<p><named k='v'/></p>") parcelData).error? =
        some (.inField "named" (.inKey "@k" (.custom "<@k>v</@k>"))) ∧
      (validate (.ofBytes (bytes "<@k>v</@k>"))).isOk = false ∧
    (({} : Registry).unmarshal parcelSchema (.record "Parcel") (bytes "<p><content>1</content><content>2</content></p>")
        parcelData).error? = some (.inField "content" (.custom "<content>1</content><content>2</content>")) ∧
      (validate (.ofBytes (bytes "<content>1</content><content>2</content>"))).isOk = false := by
  decide +kernel

end XmlBinding
