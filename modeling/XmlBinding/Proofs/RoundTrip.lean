import XmlBinding.Proofs.Agreement
import XmlBinding.Proofs.Conveyed
import XmlBinding.Proofs.InUse

/-! Unmarshaling undoes marshaling. -/
namespace XmlBinding
open Text

theorem Schema.Portable.sketch_record {schema : Schema} {record : String}
    (portable : schema.Portable (.record record) data) (name : String) (more : Forest) :
    ∃ attributes text cdata? inside,
      schema.sketch data (.record record) name more = .element name attributes text cdata? inside more := by
  cases portable
  exact ⟨_, _, _, _, rfl⟩

namespace Registry
variable {schema : Schema} {registry : Registry}

/-- A portable value is marshaled without an error, as the document that its elements are. -/
theorem marshal_eq (coherent : registry.Coherent schema) {data : Data} {type : Ty}
    (portable : schema.Portable type data) (settings : Settings) : (registry.marshal schema type data settings).1 =
      .ok ((schema.sketch data type (schema.rootName settings.rootTag type data) .nil).write
        { layout? := settings.layout? }).finish := by
  rw [(coherent.marshal type data settings).1, portable.marshal]

theorem unmarshal_record {record : String} {xml : List UInt8} {target : Data}
    (read : Value.ofStream (.ofBytes xml) = .ok value) : registry.unmarshal schema (.record record) xml target =
      schema.assign value (.record record) ({} : Settings).rootTag registry target := by
  rw [Registry.unmarshal, Schema.unmarshal, read]
  simp

/-- Unmarshaling undoes marshaling: a portable record whose elements nest no deeper than they may is marshaled without
an error, and the output makes a blank record the same again, whatever has been learnt about types before. Only what the
output does not say has to be in the blank record already. -/
theorem unmarshal_marshal {record : String} {data : Data} (settings : Settings) (coherent : registry.Coherent schema)
    (portable : schema.Portable (.record record) data)
    (receives : schema.Receives (.record record) (schema.blank (.record record)) data)
    (root : isName (schema.elementName record) = true)
    (blank : ∀ layout ∈ settings.layout?, layout.Blank)
    (shallow : (schema.sketch data (.record record) (schema.elementName record) .nil).depth ≤ maxDepth) :
    ∃ xml, (registry.marshal schema (.record record) data settings).1 = .ok xml ∧
      ∀ other : Registry, other.Coherent schema → ∃ known : Registry, known.Coherent schema ∧
        other.unmarshal schema (.record record) xml (schema.blank (.record record)) =
          { target := data, registry := known } := by
  obtain ⟨contents, conveyed⟩ := portable.conveyed
  obtain ⟨content, rfl⟩ := conveyed.single rfl
  have marshaled := marshal_eq coherent portable settings
  have named := portable.named (isName_iff.1 root) .nil
  have children := conveyed.children (schema.elementName record) .nil
  obtain ⟨attributes, text, cdata?, inside, same⟩ := portable.sketch_record (schema.elementName record) .nil
  rw [Schema.rootName, same] at marshaled
  rw [same] at named shallow children
  obtain ⟨tag, body, document, read⟩ := Forest.write_document named shallow blank
  obtain ⟨-, value⟩ := Prod.mk.inj (List.cons.inj children).1
  rw [value, tag.node_toValue] at read
  refine ⟨_, marshaled, fun other coherent => ?_⟩
  obtain ⟨known, coherent, done⟩ := conveyed.restored rfl ({} : Settings).rootTag other _ coherent receives
  exact ⟨known, coherent, (unmarshal_record (Value.ofStream_eq_ok_iff.2 ⟨tag, body, document, read.symm⟩)).trans done⟩

end Registry

/-- Tasks of a batch, which are tried three times more unless something else is said; and a record of a name that is
none for an element. -/
def batchSchema : Schema where
  records := [
    ("Batch", {
      name := "Batch"
      fields := [⟨"tasks", .sequence (.record "Task"), "task"⟩]
      blank := .record [("tasks", .list [])] }),
    ("Task", {
      name := "Task"
      fields := [⟨"retries", .scalar (.unsigned .w32), "retries,omitempty"⟩]
      blank := .record [("retries", .scalar (.integer 3))] }),
    ("Keyword", { name := "r#type", fields := [], blank := .record [] })]
  customs := []
  typeName _ := ""

def batchData (retries : Int) : Data :=
  .record [("tasks", .list [.record [("retries", .scalar (.integer retries))]])]

/-- Where a blank record is not as blank as its fields, a field that is left out comes back as the blank record has it.
And a record whose own name is no name for an element is written under it all the same, and not accepted. -/
theorem unmarshal_keeps_default :
    (batchSchema.Addressable "Batch" ∧ batchSchema.Addressable "Task" ∧ batchSchema.Addressable "Keyword") ∧
    ((({} : Registry).marshal batchSchema (.record "Batch") (batchData 0) {}).1 = .ok (bytes "<Batch><task/></Batch>") ∧
      (({} : Registry).unmarshal batchSchema (.record "Batch") (bytes "<Batch><task/></Batch>")
        (batchSchema.blank (.record "Batch"))).target = batchData 3) ∧
    (({} : Registry).marshal batchSchema (.record "Keyword") (.record []) {}).1 = .ok (bytes "<r#type/>") ∧
      (({} : Registry).unmarshal batchSchema (.record "Keyword") (bytes "<r#type/>")
        (batchSchema.blank (.record "Keyword"))).error?.isSome = true := by
  have parsed : Node.ofBytes (bytes "<Batch><task/></Batch>") =
      .ok (.object [("task", .object [] ⟨7, 1, 8⟩)] ⟨0, 1, 1⟩) := by rfl
  have read : Value.ofStream (.ofBytes (bytes "<Batch><task/></Batch>")) = .ok (.map [("task", .map [])]) := by
    obtain ⟨tag, inside, document, same⟩ := Node.ofBytes_eq_ok_iff.1 parsed
    refine Value.ofStream_eq_ok_iff.2 ⟨tag, inside, document, ?_⟩
    rw [← tag.node_toValue, ← same]
    rfl
  refine ⟨⟨⟨by decide, by decide⟩, ⟨by decide, by decide⟩, ⟨by decide, by decide⟩⟩, ⟨by decide +kernel, ?_⟩,
    by decide +kernel, by decide +kernel⟩
  rw [Registry.unmarshal_record read]
  rfl

/-- A record of trees that leads back to itself. -/
def treeSchema : Schema where
  records := [("Tree", {
    name := "tree"
    fields := [⟨"id", .scalar (.signed .w32), "id,attr"⟩, ⟨"label", .option .string, ",chardata"⟩,
      ⟨"children", .sequence (.record "Tree"), "child"⟩, ⟨"next", .option (.box (.record "Tree")), "next,omitempty"⟩,
      ⟨"secret", .scalar .bool, "-"⟩]
    blank := .record [("id", .scalar (.integer 0)), ("label", .absent), ("children", .list []), ("next", .absent),
      ("secret", .scalar (.bool true))] })]
  customs := []
  typeName _ := ""

def treeData (id : Int) (label : Data) (children : List Data) (next : Data) : Data :=
  .record [("id", .scalar (.integer id)), ("label", label), ("children", .list children), ("next", next),
    ("secret", .scalar (.bool true))]

theorem treeSchema_plan : (treeSchema.plan "Tree").fields = [
    ⟨⟨"id", .scalar (.signed .w32), "id,attr"⟩, { name := "id", role := .attribute }⟩,
    ⟨⟨"label", .option .string, ",chardata"⟩, { name := "label", role := .characters }⟩,
    ⟨⟨"children", .sequence (.record "Tree"), "child"⟩, { name := "child" }⟩,
    ⟨⟨"next", .option (.box (.record "Tree")), "next,omitempty"⟩, { name := "next", omitEmpty := true }⟩] := by decide

/-- A tree is portable if what it holds is. -/
theorem treeData_portable {id : Int} {label next : Data} {children : List Data}
    (range : (Number.IntegerRange.signed 32).Contains id) (text : treeSchema.Literal (.option .string) label)
    (each : ∀ item ∈ children, treeSchema.Portable (.record "Tree") item)
    (more : treeSchema.Portable (.option (.box (.record "Tree"))) next) :
    treeSchema.Portable (.record "Tree") (treeData id label children next) := by
  have distinct : List.Nodup ["id", "label", "children", "next", "secret"] := by decide
  refine .record ⟨by decide, by decide⟩ distinct ?_ ?_ ?_ <;> rw [treeSchema_plan] <;> simp only [List.forall_mem_cons]
  · simp [Keyed.keys]
  · exact ⟨fun _ => .scalar range, fun _ => text, fun isElement => absurd rfl isElement,
      fun isElement => absurd rfl isElement, List.forall_mem_nil _⟩
  · exact ⟨fun isElement => (by cases isElement), fun isElement => (by cases isElement), fun _ => .sequence rfl each,
      fun _ => more, List.forall_mem_nil _⟩

/-- A blank tree is as blank as its fields, and all trees have their secret from it. -/
theorem treeData_derived {id : Int} {label next : Data} {children : List Data}
    (each : ∀ item ∈ children, treeSchema.Throughout treeSchema.Derived (.record "Tree") item)
    (more : ∀ item, next = .present (.present item) → treeSchema.Throughout treeSchema.Derived (.record "Tree") item) :
    treeSchema.Throughout treeSchema.Derived (.record "Tree") (treeData id label children next) := by
  have below : treeSchema.Throughout treeSchema.Derived (.sequence (.record "Tree")) (.list children) :=
    Schema.throughout (fun _ same => by cases same) fun piece => by cases piece with | item held => exact each _ held
  have behind : treeSchema.Throughout treeSchema.Derived (.option (.box (.record "Tree"))) next :=
    Schema.throughout (fun _ same => by cases same) fun piece => by
      cases piece with | option =>
      exact Schema.throughout (fun _ same => by cases same) fun piece => by cases piece with | box => exact more _ rfl
  refine Schema.throughout ?_ fun piece => ?_
  · rintro _ ⟨⟩ _ ⟨⟩
    refine ⟨_, rfl, rfl, ?_, fun name absent => ?_⟩ <;> rw [treeSchema_plan] at *
    · simp only [List.forall_mem_cons]
      exact ⟨rfl, rfl, rfl, rfl, List.forall_mem_nil _⟩
    · simp only [List.forall_mem_cons] at absent
      obtain ⟨id, label, children, next, -⟩ := absent
      simp only [Keyed.get?_cons, Ne.symm id, Ne.symm label, Ne.symm children, Ne.symm next, if_false]
  · cases piece with | field member role held =>
    rw [treeSchema_plan] at member
    simp only [List.mem_cons, List.not_mem_nil, or_false] at member
    rcases member with rfl | rfl | rfl | rfl
    · cases role
    · cases role
    · cases held
      exact below
    · cases held
      exact behind

/-- A tree with a blank label, two children and another one behind it, written with a tab for each level. -/
theorem unmarshal_marshal_tree :
    let leaf (id : Int) := treeData id .absent [] .absent
    let data := treeData 1 (.present (.scalar (.text " "))) [leaf (-2), leaf 3] (.present (.present (leaf 4)))
    ∃ xml, (({} : Registry).marshal treeSchema (.record "Tree") data ⟨"root", some ⟨"", "\t"⟩⟩).1 = .ok xml ∧
      ∀ other : Registry, other.Coherent treeSchema → ∃ known : Registry, known.Coherent treeSchema ∧
        other.unmarshal treeSchema (.record "Tree") xml (treeSchema.blank (.record "Tree")) =
          { target := data, registry := known } := by
  intro leaf data
  have leaves {id : Int} (range : (Number.IntegerRange.signed 32).Contains id) :
      treeSchema.Portable (.record "Tree") (leaf id) :=
    treeData_portable range .absent (List.forall_mem_nil _) .absent
  have derived (id : Int) : treeSchema.Throughout treeSchema.Derived (.record "Tree") (leaf id) :=
    treeData_derived (List.forall_mem_nil _) fun _ same => by cases same
  have portable : treeSchema.Portable (.record "Tree") data := by
    refine treeData_portable (by decide) (.present (.scalar trivial) rfl (by decide)) ?_
      (.present rfl (.box (leaves (by decide))) fun name same => ?_)
    · simp only [List.forall_mem_cons]
      exact ⟨leaves (by decide), leaves (by decide), List.forall_mem_nil _⟩
    · have attributes := (Forest.element.inj same).2.1
      revert attributes
      decide
  have receives : treeSchema.Receives (.record "Tree") (treeSchema.blank (.record "Tree")) data := by
    refine portable.receives_blank (treeData_derived ?_ fun _ same => ?_)
    · simp only [List.forall_mem_cons]
      exact ⟨derived _, derived _, List.forall_mem_nil _⟩
    · cases same
      exact derived 4
  refine Registry.unmarshal_marshal _ (Registry.empty_coherent _) portable receives (by decide) ?_ (by decide)
  rintro _ ⟨⟩
  exact ⟨by simp, by simp [isSpace]⟩

end XmlBinding
