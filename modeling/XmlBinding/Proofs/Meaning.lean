import XmlBinding.Proofs.Canonical
import XmlBinding.Proofs.Denotation
import XmlBinding.Proofs.Parts

/-! The meaning of an element, key by key. An element holds what its attributes, its text, its CDATA and its child
elements put under their keys, and nothing else; the tree that a derivation stands for is made of these parts. -/
namespace XmlBinding
open Text

/-- What stands under a name that some children have: nothing, the only child, or all of them in order. -/
def Node.gathered : List Node → Option Node
  | [] => none
  | [child] => some child
  | first :: more => some (.array (first :: more) first.position)

namespace Grammar

/-- The text of a body, all its runs together. -/
def Body.written : Body → String
  | done => ""
  | text run _ more => run ++ more.written
  | comment more => more.written
  | cdata _ _ more => more.written
  | element _ _ more => more.written

/-- Where the first run of text in a body stands. -/
def Body.writtenAt? : Body → Option Position
  | done => none
  | text _ place _ => some place
  | comment more => more.writtenAt?
  | cdata _ _ more => more.writtenAt?
  | element _ _ more => more.writtenAt?

/-- The bodies of the sections in a body, all together, and where the first section stands. -/
def Body.cdata? : Body → Option (String × Position)
  | done => none
  | text _ _ more => more.cdata?
  | comment more => more.cdata?
  | cdata body place more => some (body ++ more.cdata?.elim "" Prod.fst, place)
  | element _ _ more => more.cdata?

/-- The trees of the child elements in a body, each under its name. -/
def Body.children : Body → Keyed Node
  | done => []
  | text _ _ more => more.children
  | comment more => more.children
  | cdata _ _ more => more.children
  | element tag inside more => (tag.name, tag.node inside) :: more.children

/-- What the properties of an element hold, given its child elements. -/
structure Describes (tag : Tag) (inside : Body) (children : Keyed Node) (properties : Properties) : Prop where
  distinct : Keyed.Distinct properties
  /-- The last attribute of a name counts. -/
  attributes : ∀ name, properties.get? (attributeKey name) =
    (tag.attributes.filter (·.name = name)).getLast?.map fun written =>
      .literal (decodeAttribute written.inside) written.place
  text : properties.get? textKey =
    if trimSpace inside.written = "" then none
    else some (.literal (unescape (trimSpace inside.written)) (inside.writtenAt?.getD tag.place))
  cdata : properties.get? cdataKey = inside.cdata?.map fun sections => .literal sections.1 sections.2
  elements : ∀ name, isChildKey name = true → properties.get? name = Node.gathered (children.under name)
  /-- Nothing is there under any other key. -/
  only : ∀ key ∈ properties.keys,
    (∃ name, key = attributeKey name) ∨ key = textKey ∨ key = cdataKey ∨ isChildKey key = true

mutual

/-- The tree of an element. -/
inductive Denotes : Tag → Body → Node → Prop where
  | intro (nested : Children inside children) (described : Describes tag inside children properties) :
      Denotes tag inside (.object properties tag.place)

/-- The trees of the child elements in a body, each under its name. -/
inductive Children : Body → Keyed Node → Prop where
  | done : Children .done []
  | text (rest : Children more children) : Children (.text run place more) children
  | comment (rest : Children more children) : Children (.comment more) children
  | cdata (rest : Children more children) : Children (.cdata body place more) children
  | element (first : Denotes tag inside node) (rest : Children more children) :
      Children (.element tag inside more) ((tag.name, node) :: children)

end

end Grammar

namespace Node

theorem toValue_coalesce (old child : Node) :
    (coalesce [] old child).toValue = Value.coalesce old.toValue child.toValue := by
  cases old with
  | array items position => simp [coalesce, toValue, Value.coalesce, toItems_eq_map]
  | object | literal => rfl

end Node

/-- Children of one name are gathered by adding them one after another, unless they are arrays themselves. -/
theorem Node.joinOnto_coalesce (children : List Node) (plain : ∀ child ∈ children, child.items? = none) :
    Keyed.joinOnto (coalesce []) none children = gathered children := by
  cases children with
  | nil => rfl
  | cons first more =>
    have pair (child : Node) : coalesce [] first child = .array [first, child] first.position := by
      cases first with
      | object | literal => rfl
      | array items position => cases plain _ List.mem_cons_self
    rw [Keyed.joinOnto_group (fun taken => .array (first :: taken) first.position) pair fun _ _ => rfl]
    cases more <;> rfl

namespace Grammar

theorem Body.addTo_text (body : Body) (soFar : Content) : (body.addTo soFar).text = soFar.text ++ body.written := by
  induction body generalizing soFar with
  | done => exact (String.append_empty).symm
  | text run place more ih => rw [addTo, ih, Content.addText, written, String.append_assoc]
  | comment more ih => exact ih soFar
  | cdata body place more ih =>
    rw [addTo, ih, Content.addCData]
    cases soFar.cdata? <;> rfl
  | element tag inside more _ ih => exact ih _

theorem Body.addTo_textPosition? (body : Body) (soFar : Content) :
    (body.addTo soFar).textPosition? = soFar.textPosition?.or body.writtenAt? := by
  induction body generalizing soFar with
  | done => exact Option.or_none.symm
  | text run place more ih =>
    rw [addTo, ih, Content.addText, writtenAt?]
    cases soFar.textPosition? <;> rfl
  | comment more ih => exact ih soFar
  | cdata body place more ih =>
    rw [addTo, ih, Content.addCData]
    cases soFar.cdata? <;> rfl
  | element tag inside more _ ih => exact ih _

theorem Body.addTo_cdata? (body : Body) (soFar : Content) : (body.addTo soFar).cdata? =
    match soFar.cdata? with
    | none => body.cdata?
    | some (earlier, first) => some (earlier ++ body.cdata?.elim "" Prod.fst, first) := by
  induction body generalizing soFar with
  | done =>
    cases same : soFar.cdata? with
    | none => exact same
    | some sections => exact same.trans (by simp [cdata?])
  | text run place more ih => exact ih _
  | comment more ih => exact ih soFar
  | cdata body place more ih =>
    rw [addTo, ih, Content.addCData]
    cases soFar.cdata? <;> simp [cdata?, String.append_assoc]
  | element tag inside more _ ih => exact ih _

theorem Body.addTo_properties (body : Body) (soFar : Content) :
    (body.addTo soFar).properties = Keyed.insertAll (Node.coalesce []) soFar.properties body.children := by
  induction body generalizing soFar with
  | done => rfl
  | text run place more ih => exact ih _
  | comment more ih => exact ih soFar
  | cdata body place more ih =>
    rw [addTo, ih, Content.addCData]
    cases soFar.cdata? <;> rfl
  | element tag inside more _ ih => exact ih _

theorem Body.children_plain (body : Body) : ∀ entry ∈ body.children, entry.2.items? = none := by
  induction body with
  | done => simp [children]
  | text run place more ih => exact ih
  | comment more ih => exact ih
  | cdata body place more ih => exact ih
  | element tag inside more _ ih => exact List.forall_mem_cons.2 ⟨rfl, ih⟩

/-- The parts that an element is made of. -/
def Tag.parts (tag : Tag) (inside : Body) : Parts Node where
  attributes := tag.attributes.map fun written =>
    (written.name, .literal (decodeAttribute written.inside) written.place)
  children := inside.children
  text? :=
    if trimSpace inside.written = "" then none
    else some (.literal (unescape (trimSpace inside.written)) (inside.writtenAt?.getD tag.place))
  cdata? := inside.cdata?.map fun sections => .literal sections.1 sections.2

theorem addAttributes_eq (properties : Properties) (list : List Attribute) :
    addAttributes properties list = Keyed.insertAll (fun _ new => new) properties
      (list.map fun written =>
        (attributeKey written.name, .literal (decodeAttribute written.inside) written.place)) := by
  rw [addAttributes, Keyed.insertAll, List.foldl_map]
  rfl

/-- The tree of an element holds its parts. -/
theorem Tag.node_eq (tag : Tag) (inside : Body) :
    tag.node inside = .object ((tag.parts inside).entries (Node.coalesce [])) tag.place := by
  have text := inside.addTo_text { properties := addAttributes [] tag.attributes }
  have place := inside.addTo_textPosition? { properties := addAttributes [] tag.attributes }
  have cdata := inside.addTo_cdata? { properties := addAttributes [] tag.attributes }
  have elements := inside.addTo_properties { properties := addAttributes [] tag.attributes }
  rw [String.empty_append] at text
  rw [node, Content.finish, text, place, cdata, elements, addAttributes_eq, Parts.entries, parts, List.map_map]
  cases inside.cdata? <;> dsimp only [Option.map, Option.elim] <;> split <;> rfl

/-- The content of the tree of an element holds the content of its parts. -/
theorem Tag.toValue_node (tag : Tag) (inside : Body) :
    (tag.node inside).toValue = .map (((tag.parts inside).map Node.toValue).entries Value.coalesce) := by
  rw [node_eq, Node.toValue, Node.toEntries_eq_map, Parts.map_entries _ Node.toValue Node.toValue_coalesce]

/-- The child elements in a body have names. -/
def Body.Named (body : Body) : Prop := ∀ entry ∈ body.children, IsName entry.1.toList

/-- The properties of an element are as its parts describe them. -/
theorem Tag.described (tag : Tag) {inside : Body} (named : inside.Named) :
    Describes tag inside inside.children ((tag.parts inside).entries (Node.coalesce [])) := by
  have keyed : (tag.parts inside).Named := fun entry member => (named entry member).isChildKey
  constructor
  case distinct => exact Parts.entries_distinct _ _
  case attributes =>
    intro name
    rw [Parts.get?_attribute _ keyed, parts, Keyed.under, List.filter_map, List.map_map, List.getLast?_map]
    rfl
  case text => exact Parts.get?_text _ keyed
  case cdata => exact Parts.get?_cdata _ keyed
  case elements =>
    intro name child
    rw [Parts.get?_child _ child, Node.joinOnto_coalesce]
    · rfl
    · intro node member
      obtain ⟨entry, held, rfl⟩ := List.mem_map.1 member
      exact inside.children_plain entry (List.mem_filter.1 held).1
  case only => exact fun key => Parts.kind_of_mem _ keyed

theorem Opening.named (opening : Opening isEmpty c tag d) : IsName tag.name.toList := by
  obtain ⟨opens, named, -⟩ := opening
  exact named.named

theorem Contents.denoted (child : ∀ {c tag inside d}, nested c tag inside d → Denotes tag inside (tag.node inside))
    (name : ∀ {c tag inside d}, nested c tag inside d → IsName tag.name.toList)
    (contents : Contents nested c body d) :
    Children body body.children ∧ body.Named := by
  induction contents with
  | done => exact ⟨.done, List.forall_mem_nil _⟩
  | text some plain spelled rest ih => exact ⟨.text ih.1, ih.2⟩
  | comment enclosed rest ih => exact ⟨.comment ih.1, ih.2⟩
  | cdata enclosed rest ih => exact ⟨.cdata ih.1, ih.2⟩
  | element inner rest ih => exact ⟨.element (child inner) ih.1, List.forall_mem_cons.2 ⟨name inner, ih.2⟩⟩

theorem Element.named (read : Element levels c tag inside d) : IsName tag.name.toList := by
  cases levels with
  | zero => cases read
  | succ levels => rcases read with opening | ⟨opening, -⟩ <;> exact opening.named

/-- The tree of a derived element is the one that its parts describe. -/
theorem Element.denotes (read : Element levels c tag inside d) : Denotes tag inside (tag.node inside) := by
  induction levels generalizing c tag inside d with
  | zero => cases read
  | succ levels ih =>
    rcases read with opening | ⟨opening, contents, closing⟩
    · rw [tag.node_eq]
      exact .intro .done (tag.described (List.forall_mem_nil _))
    · obtain ⟨children, named⟩ := contents.denoted ih Element.named
      rw [tag.node_eq]
      exact .intro children (tag.described named)

theorem Document.denotes (document : Document input tag inside) : Denotes tag inside (tag.node inside) := by
  obtain ⟨space, prolog, before, root, after, ended⟩ := document
  exact root.denotes

end Grammar

end XmlBinding
