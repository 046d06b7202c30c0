import XmlBinding.Proofs.Agreement
import XmlBinding.Proofs.InUse
import XmlBinding.Proofs.Naming

/-! What marshaling puts out is a document. -/
namespace XmlBinding
open Text

theorem Schema.write_of_marshal {schema : Schema} {type : Ty} {settings : Settings}
    (done : (schema.marshal type data settings ({} : Demand)).1 = .ok xml) :
    ∃ state, ∃ after : Marshalling Demand,
      schema.write data type (schema.rootName settings.rootTag type data) state = .ok () after := by
  unfold marshal at done
  split at done
  · rename_i after ran
    exact ⟨_, after, ran⟩
  · cases done

namespace Registry
variable {schema : Schema} {registry : Registry}

/-- If a value is marshaled without an error, and nothing in it is written in a way of its own, then it is marshaled in
every layout of spaces; and what is put out is accepted, and read as the same native value in all layouts. The value may
be any but a list, if its elements nest no deeper than they may, and the root and the fields of records have names. -/
theorem marshal_accepted (coherent : registry.Coherent schema) {type : Ty} {data : Data} {settings : Settings}
    {xml : List UInt8} (done : (registry.marshal schema type data settings).1 = .ok xml)
    (plain : schema.Throughout Instance.Plain type data) (fields : schema.Throughout schema.FieldsNamed type data)
    (root : isName (schema.rootName settings.rootTag type data) = true) (single : type.isList data = false)
    (shallow : (schema.sketch data type (schema.rootName settings.rootTag type data) .nil).depth ≤ maxDepth) :
    ∃ value, ∀ layout? : Option Layout, (∀ layout ∈ layout?, layout.Blank) →
      ∃ xml, (registry.marshal schema type data { settings with layout? }).1 = .ok xml ∧
        validate (.ofBytes xml) = .ok () ∧ Value.ofStream (.ofBytes xml) = .ok value := by
  rw [(coherent.marshal type data settings).1] at done
  obtain ⟨state, after, ran⟩ := Schema.write_of_marshal done
  have named := schema.write_names data plain fields (isName_iff.1 root) state after ran .nil
  obtain ⟨attributes, text, cdata?, inside, same⟩ := schema.write_single data plain single ran
  rw [same] at named shallow
  refine ⟨.ofParts attributes inside.children text cdata?, fun layout? blank => ?_⟩
  obtain ⟨tag, body, document, read⟩ := Forest.write_document named shallow blank
  rw [(coherent.marshal type data _).1]
  rcases schema.marshal_lays plain settings.rootTag with ⟨demand, lays⟩ | ⟨e, demand, fails⟩
  · rw [same] at lays
    refine ⟨_, congrArg Prod.fst (lays layout?), validate_eq_ok_iff.2 ⟨tag, body, document⟩, ?_⟩
    exact Value.ofStream_eq_ok_iff.2 ⟨tag, body, document, read.symm.trans (tag.node_toValue body)⟩
  · cases (congrArg Prod.fst (fails settings.layout?)).symm.trans done

end Registry

/-- A link whose only field has no tag and lends its own name, which is none for an element. -/
def linkSchema : Schema where
  records := [("Link", {
    name := "Link"
    fields := [⟨"r#type", .string, ""⟩]
    blank := .record [("r#type", .scalar (.text ""))] })]
  customs := []
  typeName _ := ""

/-- That tags give names only is not enough: the name of a field without a tag is written as it is, whether or not it is
a name for an element, and what is put out is not accepted then. -/
theorem marshal_refused_link :
    let data : Data := .record [("r#type", .scalar (.text "x"))]
    let settings : Settings := {}
    isName settings.rootTag = true ∧ isName (linkSchema.elementName "Link") = true ∧
      (∀ field ∈ linkSchema.fields "Link", field.tag = "") ∧
      linkSchema.Throughout Instance.Plain (.record "Link") data ∧
      (linkSchema.sketch data (.record "Link") (linkSchema.rootName settings.rootTag (.record "Link") data) .nil).depth ≤
        maxDepth ∧
      (({} : Registry).marshal linkSchema (.record "Link") data settings).1 =
        .ok (bytes "<Link><r#type>x</r#type></Link>") ∧
      (validate (.ofBytes (bytes "<Link><r#type>x</r#type></Link>"))).isOk = false := by
  intro data settings
  have plain : linkSchema.Throughout Instance.Plain (.record "Link") (.record [("r#type", .scalar (.text "x"))]) := by
    refine Schema.throughout ⟨nofun, nofun⟩ fun piece => ?_
    cases piece with | field member role held =>
    have text : ∀ planned ∈ (linkSchema.plan "Link").fields, planned.field.type = .string := by decide
    rw [text _ member]
    exact Schema.throughout ⟨nofun, nofun⟩ fun piece => by cases piece
  exact ⟨by decide, by decide, by decide, plain, by decide +kernel, by decide +kernel, by decide +kernel⟩

/-- A letter has an address, a text, stanzas of some lines each, and whatever else there is under names. -/
def letterSchema : Schema where
  records := [("Letter", {
    name := "Letter"
    fields := [⟨"address", .string, "to,attr"⟩, ⟨"body", .option .string, ",chardata"⟩,
      ⟨"stanzas", .sequence (.sequence .string), "line"⟩, ⟨"more", .map "BTreeMap" .string .dynamic, "more"⟩]
    blank := .record [("address", .scalar (.text "")), ("body", .absent), ("stanzas", .list []), ("more", .map [])] })]
  customs := []
  typeName _ := ""

def letterData (address body : String) (stanzas : List (List String)) (more : List (String × Data)) : Data :=
  .record [("address", .scalar (.text address)), ("body", .present (.scalar (.text body))),
    ("stanzas", .list (stanzas.map fun lines => .list (lines.map fun line => .scalar (.text line)))),
    ("more", .map more)]

/-- A value that is written in a common way, under a name. -/
abbrev Schema.Writable (schema : Schema) (it : Instance) : Prop := it.Plain ∧ schema.FieldsNamed it

theorem letterData_writable {address body : String} {stanzas : List (List String)} {more : List (String × Data)}
    (each : ∀ entry ∈ more, letterSchema.Throughout letterSchema.Writable .dynamic entry.2) :
    letterSchema.Throughout letterSchema.Writable (.record "Letter") (letterData address body stanzas more) := by
  have text (text : String) : letterSchema.Throughout letterSchema.Writable .string (.scalar (.text text)) :=
    Schema.throughout ⟨⟨nofun, nofun⟩, nofun⟩ fun piece => by cases piece
  have plan : (letterSchema.plan "Letter").fields = [
      ⟨⟨"address", .string, "to,attr"⟩, { name := "to", role := .attribute }⟩,
      ⟨⟨"body", .option .string, ",chardata"⟩, { name := "body", role := .characters }⟩,
      ⟨⟨"stanzas", .sequence (.sequence .string), "line"⟩, { name := "line" }⟩,
      ⟨⟨"more", .map "BTreeMap" .string .dynamic, "more"⟩, { name := "more" }⟩] := by decide
  have named : ∀ planned ∈ (letterSchema.plan "Letter").fields, isName planned.tag.name = true := by decide
  refine Schema.throughout ⟨⟨nofun, nofun⟩, fun name same planned member _ => ?_⟩ fun piece => ?_
  · cases same
    exact named planned member
  cases piece with | field member role held =>
  rw [plan] at member
  simp only [List.mem_cons, List.not_mem_nil, or_false] at member
  rcases member with rfl | rfl | rfl | rfl
  · cases role
  · cases role
  · cases held
    refine Schema.throughout ⟨⟨nofun, nofun⟩, nofun⟩ fun piece => ?_
    cases piece with | item held =>
    obtain ⟨lines, -, rfl⟩ := List.mem_map.1 held
    refine Schema.throughout ⟨⟨nofun, nofun⟩, nofun⟩ fun piece => ?_
    cases piece with | item held =>
    obtain ⟨line, -, rfl⟩ := List.mem_map.1 held
    exact text line
  · cases held
    refine Schema.throughout ⟨⟨nofun, nofun⟩, nofun⟩ fun piece => ?_
    cases piece with | entry held => exact each _ held

/-- A letter in a dynamic value, with characters of markup, a stanza without lines, a list that is missing and nothing
under names of their own, written with a tab for each level. -/
theorem marshal_accepted_letter :
    let data : Data := .dynamic (.record "Letter") (letterData "<\"&" " ]]> " [["a", ""], []]
      [("b", .dynamic (.option (.sequence .string)) .absent), ("a", .absent)])
    let settings : Settings := ⟨"root", some ⟨"", "\t"⟩⟩
    ∃ xml, (({} : Registry).marshal letterSchema .dynamic data settings).1 = .ok xml ∧
    ∃ value, ∀ layout? : Option Layout, (∀ layout ∈ layout?, layout.Blank) →
      ∃ xml, (({} : Registry).marshal letterSchema .dynamic data { settings with layout? }).1 = .ok xml ∧
        validate (.ofBytes xml) = .ok () ∧ Value.ofStream (.ofBytes xml) = .ok value := by
  intro data settings
  have ran : (({} : Registry).marshal letterSchema .dynamic data settings).1.isOk = true := by decide +kernel
  obtain ⟨xml, done⟩ := Except.isOk_iff.1 ran
  have missing {type : Ty} (plain : Instance.Plain ⟨type, .absent⟩) (noRecord : ∀ name, type ≠ .record name) :
      letterSchema.Throughout letterSchema.Writable type .absent :=
    Schema.throughout ⟨plain, fun name same => absurd same (noRecord name)⟩ fun piece => by cases piece
  have inside {type : Ty} {content : Data} (all : letterSchema.Throughout letterSchema.Writable type content) :
      letterSchema.Throughout letterSchema.Writable .dynamic (.dynamic type content) :=
    Schema.throughout ⟨⟨nofun, nofun⟩, nofun⟩ fun piece => by cases piece; exact all
  have writable : letterSchema.Throughout letterSchema.Writable .dynamic data := by
    refine inside (letterData_writable ?_)
    simp only [List.forall_mem_cons]
    exact ⟨inside (missing ⟨nofun, nofun⟩ nofun), missing ⟨nofun, nofun⟩ nofun, List.forall_mem_nil _⟩
  exact ⟨xml, done, Registry.marshal_accepted (Registry.empty_coherent _) done (writable.imp fun _ => And.left)
    (writable.imp fun _ => And.right) (by decide) rfl (by decide +kernel)⟩

end XmlBinding
