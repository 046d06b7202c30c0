import XmlBinding.Proofs.Content
import XmlBinding.Proofs.Faithful
import XmlBinding.Proofs.Induction

/-! Values that become documents. A map is accepted if and only if strings stand under the keys of its attributes, its
text and its CDATA, and strings, maps of this kind or lists of these under the names of its children; the order in which
the entries are met is of no account. The tree that is made of it holds the value, no more and no less. -/
namespace XmlBinding
open Text Grammar

namespace Value

theorem keyRole_of_attribute (marked : attributeOfKey? key = some name) (named : Text.isName name = true) :
    keyRole key = .ok .literal := by
  unfold keyRole
  rw [marked]
  exact if_pos named

theorem attributeOfKey?_of_child (child : isChildKey key = true) : attributeOfKey? key = none := by
  rw [Option.eq_none_iff_forall_ne_some]
  intro name found
  exact attributeKey_ne_child child name (attributeKey_of_attributeOfKey? found).symm

theorem head?_of_child (child : isChildKey key = true) : key.toList.head? ≠ some '#' := by
  intro head
  obtain ⟨rest, chars⟩ := List.head?_eq_some_iff.1 head
  rw [isChildKey, chars] at child
  cases child

theorem keyRole_of_name (named : Text.isName key = true) : keyRole key = .ok .child := by
  have child := (isName_iff.1 named).isChildKey
  have noText := isChildKey_ne child (show isChildKey textKey = false by decide)
  have noCdata := isChildKey_ne child (show isChildKey cdataKey = false by decide)
  simp [keyRole, attributeOfKey?_of_child child, head?_of_child child, noText, noCdata, named]

/-- A map of what may stand in a document. -/
def Representable (value : Value) : Prop :=
  ∃ entries, value = .map entries ∧ ∀ entry ∈ entries, Stands (Fitting false) entry.1 entry.2

/-- Whatever may be under a key has a role there, and where that is to be no child it is a string. -/
theorem Stands.role (stands : Stands fitting key value) :
    (keyRole key = .ok .literal ∧ ∃ text, value = .string text) ∨ (keyRole key = .ok .child ∧ fitting value) := by
  cases stands with
  | named marked name body => exact .inl ⟨keyRole_of_attribute marked (isName_iff.2 name), body, rfl⟩
  | text body => exact .inl ⟨rfl, body, rfl⟩
  | cdata body => exact .inl ⟨rfl, body, rfl⟩
  | child name fits => exact .inr ⟨keyRole_of_name (isName_iff.2 name), fits⟩

mutual

/-- What may be a child is accepted as one. -/
theorem Fitting.accepted (key : String) : ∀ (value : Value) {inList : Bool}, Fitting inList value →
    ∃ node, value.toNode key .child inList = .ok node
  | .string text, _, _ => ⟨.literal text .start, rfl⟩
  | .map entries, _, .map each => by
    obtain ⟨properties, ok⟩ := Stands.accepted entries each
    exact ⟨.object properties .start, by rw [toNode, ok]; rfl⟩
  | .list items, _, .list each => by
    obtain ⟨nodes, ok⟩ := Fitting.items_accepted key items each
    exact ⟨.array nodes .start, by rw [toNode, ok]; rfl⟩

theorem Stands.accepted : ∀ entries : List (String × Value),
    (∀ entry ∈ entries, Stands (Fitting false) entry.1 entry.2) → ∃ properties, toProperties entries = .ok properties
  | [], _ => ⟨[], rfl⟩
  | (key, value) :: rest, each => by
    obtain ⟨here, later⟩ := List.forall_mem_cons.1 each
    obtain ⟨properties, more⟩ := Stands.accepted rest later
    have first : ∃ role node, keyRole key = .ok role ∧ value.toNode key role false = .ok node := by
      rcases here.role with ⟨literal, text, same⟩ | ⟨child, fits⟩
      · obtain rfl : value = string text := same
        exact ⟨.literal, .literal text .start, literal, rfl⟩
      · obtain ⟨node, ok⟩ := Fitting.accepted key value fits
        exact ⟨.child, node, child, ok⟩
    obtain ⟨role, node, known, ok⟩ := first
    exact ⟨(key, node) :: properties, by simp only [toProperties, known, ok, more, Except.map]⟩

theorem Fitting.items_accepted (key : String) : ∀ items : List Value, (∀ item ∈ items, Fitting true item) →
    ∃ nodes, toNodes key items = .ok nodes
  | [], _ => ⟨[], rfl⟩
  | item :: rest, each => by
    obtain ⟨here, later⟩ := List.forall_mem_cons.1 each
    obtain ⟨node, ok⟩ := Fitting.accepted key item here
    obtain ⟨nodes, more⟩ := Fitting.items_accepted key rest later
    exact ⟨node :: nodes, by simp only [toNodes, ok, more, Except.map]⟩

end

/-- Whether a value becomes a document. -/
theorem toDocument_isOk_iff {value : Value} : value.toDocument.isOk = true ↔ value.Representable := by
  constructor
  · intro accepted
    obtain ⟨tree, made⟩ := Except.isOk_iff.1 accepted
    obtain ⟨entries, same, each, -⟩ := stands_of_toDocument made
    exact ⟨entries, same, each⟩
  · rintro ⟨entries, rfl, each⟩
    obtain ⟨properties, ok⟩ := Stands.accepted entries each
    rw [toDocument, ok]
    rfl

/-- Values of the same content may stand in the same places. -/
theorem Fitting.of_content (fits : Fitting inList a) (distinct : Distinct b) (same : a.content = b.content) :
    Fitting inList b := by
  induction a using Value.induction generalizing b inList with
  | step a ih =>
  cases fits with
  | string text =>
    rw [eq_string_of_content same]
    exact .string text
  | @map entries _ each =>
    cases distinct with
    | string | list => cases same
    | @map entries' keys' each' =>
      refine .map fun entry member => ?_
      obtain ⟨key, value⟩ := entry
      obtain ⟨other, found, equal⟩ := found_of_content same.symm (Keyed.get?_of_mem keys' member)
      have held := Keyed.mem_of_get? found
      have stands : Stands (Fitting false) key other := each _ held
      cases stands with
      | named marked name body => rw [eq_string_of_content equal.symm]; exact .named marked name body
      | text body => rw [eq_string_of_content equal.symm]; exact .text body
      | cdata body => rw [eq_string_of_content equal.symm]; exact .cdata body
      | child name fits =>
        exact .child name (ih other (List.mem_map_of_mem held) fits (each' _ member) equal.symm)
  | @list items each =>
    cases distinct with
    | string | map => cases same
    | @list items' each' =>
      refine .list fun item member => ?_
      have listed : item.content ∈ items.map content := content_list_iff.1 same ▸ List.mem_map_of_mem member
      obtain ⟨other, held, equal⟩ := List.mem_map.1 listed
      exact ih other held (each other held) (each' item member) equal

theorem Representable.of_content (representable : Representable a) (distinct : Distinct b)
    (same : a.content = b.content) : Representable b := by
  obtain ⟨entries, rfl, each⟩ := representable
  have fits : Fitting false (map entries) := .map each
  cases b with
  | string | list => cases same
  | map entries' =>
    cases fits.of_content distinct same with
    | map each' => exact ⟨entries', rfl, each'⟩

/-- Exactly the representable values become documents, whatever the order of their entries, and nothing is lost: what
the tree holds is the value, and tree and value are equal from either side. -/
theorem toDocument_accepts {value : Value} (distinct : value.Distinct) :
    (value.toDocument.isOk = true ↔ value.Representable) ∧
      (∀ tree, value.toDocument = .ok tree →
        tree.toValue = value ∧ tree.matchesValue value = true ∧ value.matchesNode tree = true) ∧
      ∀ other : Value, other.Distinct → (other == value) = true →
        other.toDocument.isOk = value.toDocument.isOk ∧
          ∀ tree tree', value.toDocument = .ok tree → other.toDocument = .ok tree' → (tree' == tree) = true := by
  have kept {value : Value} {tree : Node} (made : value.toDocument = .ok tree) : tree.toValue = value := by
    obtain ⟨entries, -, -, same⟩ := stands_of_toDocument made
    exact same
  refine ⟨toDocument_isOk_iff, fun tree made => ?_, fun other distinct' equal => ⟨?_, ?_⟩⟩
  · have equal : tree.matchesValue value = true := by
      rw [Node.matchesValue_eq, kept made]
      exact (same_iff_content distinct distinct).2 rfl
    exact ⟨kept made, equal, equal⟩
  · have content := (same_iff_content distinct' distinct).1 equal
    rw [Bool.eq_iff_iff, toDocument_isOk_iff, toDocument_isOk_iff]
    exact ⟨fun representable => representable.of_content distinct content,
      fun representable => representable.of_content distinct' content.symm⟩
  · intro tree tree' made made'
    show Node.same tree' tree = true
    rw [Node.same_eq, kept made, kept made']
    exact equal

/-- Attributes, text, and children with CDATA or with nothing in them. -/
theorem toDocument_accepts_mixed :
    let value := map [("@id", string "1"), ("#text", string "hi"),
      ("child", list [map [], map [("#cdata", string "x")], string ""])]
    value.Representable ∧ ∃ tree, value.toDocument = .ok tree ∧ tree.toValue = value ∧
      tree.matchesValue value = true ∧ value.matchesNode tree = true := by
  intro value
  have inner : (map [("#cdata", string "x")]).Distinct := .cons (by decide) (.string _) .nothing
  have children : (list [map [], map [("#cdata", string "x")], string ""]).Distinct :=
    .list (List.forall_mem_cons.2 ⟨.nothing, List.forall_mem_cons.2 ⟨inner, List.forall_mem_singleton.2 (.string _)⟩⟩)
  have distinct : value.Distinct :=
    .cons (by decide) (.string _) (.cons (by decide) (.string _) (.cons (by decide) children .nothing))
  have accepted : value.toDocument.isOk = true := by decide
  obtain ⟨iff, lossless, -⟩ := toDocument_accepts distinct
  obtain ⟨tree, made⟩ := Except.isOk_iff.1 accepted
  exact ⟨iff.1 accepted, tree, made, lossless tree made⟩

end Value

end XmlBinding
