import XmlBinding.Proofs.Representing

/-! The form of the trees that are read. Under every key of an element stands what the key says, attributes with
names of their own and children one by one or several in an array, at every depth. Such a tree makes a native value
that is accepted as a document again, and nothing but positions is lost on the way. -/
namespace XmlBinding
open Text Grammar

namespace Node

/-- What an element has under a key, by what its child elements are. -/
inductive Holds (element : Node → Prop) : String → Node → Prop where
  | named (marked : attributeOfKey? key = some name) (name : Text.isName name = true) :
      Holds element key (.literal value place)
  | text (some : value ≠ "") : Holds element textKey (.literal value place)
  | cdata : Holds element cdataKey (.literal value place)
  | child (name : Text.isName key = true) (alone : element node) : Holds element key node
  | children (name : Text.isName key = true) (several : 2 ≤ items.length) (each : ∀ item ∈ items, element item) :
      Holds element key (.array items place)

/-- The form of an element: an object whose keys are distinct and say what stands under them. -/
inductive Shaped : Node → Prop where
  | object (distinct : Keyed.Distinct properties) (each : ∀ entry ∈ properties, Holds Shaped entry.1 entry.2) :
      Shaped (.object properties place)

theorem Holds.of_value {whole : Value → Prop} (holds : Value.Holds whole key value) (same : node.toValue = value)
    (each : ∀ node, whole node.toValue → Shaped node) : Holds Shaped key node := by
  cases holds with
  | child name alone => exact .child (isName_iff.2 name) (each node (same ▸ alone))
  | named marked name body =>
    cases node with
    | literal => exact .named marked (isName_iff.2 name)
    | object | array => cases same
  | text some =>
    cases node with
    | literal => exact .text (Value.string.inj same ▸ some)
    | object | array => cases same
  | cdata body =>
    cases node with
    | literal => exact .cdata
    | object | array => cases same
  | children name several all =>
    cases node with
    | literal | object => cases same
    | array items place =>
      obtain rfl := Value.list.inj same
      rw [toItems_eq_map] at several all
      refine .children (isName_iff.2 name) (by rwa [List.length_map] at several) fun item member => ?_
      exact each item (all _ (List.mem_map_of_mem member))

/-- A tree whose content is whole has the form of an element. -/
theorem shaped_of_whole (whole : Value.Whole levels node.toValue) : Shaped node := by
  induction levels generalizing node with
  | zero => cases whole
  | succ levels ih =>
    obtain ⟨entries, same, keys, each⟩ := whole
    cases node with
    | literal | array => cases same
    | object properties place =>
      obtain rfl := Value.map.inj same
      rw [toEntries_eq_map] at keys each
      refine .object ?_ fun entry member => ?_
      · rwa [Keyed.Distinct, Keyed.keys, List.map_map] at keys
      · exact .of_value (each _ (List.mem_map_of_mem member)) rfl fun node => ih

/-- What an element has under a key may stand there. -/
theorem Holds.stands {element : Node → Prop} (holds : Holds element key node) (each : ∀ inner, element inner →
      sizeOf inner ≤ sizeOf node → ∀ inList, Value.Fitting inList inner.toValue) :
    Value.Stands (Value.Fitting false) key node.toValue := by
  cases holds with
  | named marked name => exact .named marked (isName_iff.1 name) _
  | text => exact .text _
  | cdata => exact .cdata _
  | child name alone => exact .child (isName_iff.1 name) (each node alone (Nat.le_refl _) false)
  | @children key items place name several all =>
    rw [toValue, toItems_eq_map]
    refine .child (isName_iff.1 name) (.list (List.forall_mem_map.2 fun item member => ?_))
    have smaller := List.sizeOf_lt_of_mem member
    exact each item (all item member) (by rw [array.sizeOf_spec]; omega) true

/-- What has the form of an element may be a child. -/
theorem Shaped.fitting : ∀ {node : Node}, node.Shaped → ∀ inList, Value.Fitting inList node.toValue
  | .object properties place, .object _ each, inList => by
    rw [toValue, toEntries_eq_map]
    refine .map (List.forall_mem_map.2 fun entry member => (each entry member).stands fun inner shaped inside => ?_)
    have smaller : sizeOf inner < sizeOf (Node.object properties place) := by
      have held := List.sizeOf_lt_of_mem member
      have property : sizeOf entry = 1 + sizeOf entry.1 + sizeOf entry.2 := rfl
      rw [object.sizeOf_spec]
      omega
    exact shaped.fitting
termination_by node => sizeOf node
decreasing_by exact smaller

/-- A tree of that form comes back from its content, with nothing lost but positions. -/
theorem Shaped.back {node : Node} (shaped : node.Shaped) :
    ∃ back, node.toValue.toDocument = .ok back ∧ back.toValue = node.toValue := by
  have representable : node.toValue.Representable := by
    have fits := shaped.fitting false
    cases shaped with | object distinct held =>
    cases fits with | map each => exact ⟨_, rfl, each⟩
  obtain ⟨back, made⟩ := Except.isOk_iff.1 (Value.toDocument_isOk_iff.2 representable)
  obtain ⟨_, -, -, same⟩ := Value.stands_of_toDocument made
  exact ⟨back, made, same⟩

/-- Trees with the same content are equal and are written alike. -/
theorem equal_of_content {node back : Node} (distinct : node.toValue.Distinct) (same : back.toValue = node.toValue) :
    (back == node) = true ∧ ∀ settings, back.render settings = node.render settings := by
  refine ⟨?_, fun settings => by rw [render, render, same]⟩
  change Node.same back node = true
  rw [same_eq, same]
  exact Value.same_of_canonical distinct distinct rfl

/-- A tree that was read has the form of an element. The content of the tree, and the native value that is read
directly, become a document again, which is equal to the tree and written as the tree is. -/
theorem survives_native {input : List UInt8} {node : Node} (parsed : ofBytes input = .ok node) :
    node.Shaped ∧
      (∃ back, node.toValue.toDocument = .ok back ∧ (back == node) = true ∧
        ∀ settings, back.render settings = node.render settings) ∧
      ∃ value back, Value.ofStream (.ofBytes input) = .ok value ∧ value.toDocument = .ok back ∧
        (back == node) = true ∧ ∀ settings, back.render settings = node.render settings := by
  obtain ⟨tag, inside, document, rfl⟩ := ofBytes_eq_ok_iff.1 parsed
  have shaped := shaped_of_whole document.whole
  obtain ⟨back, made, same⟩ := shaped.back
  have alike := equal_of_content document.whole.distinct same
  have direct : Value.ofStream (.ofBytes input) = .ok (tag.node inside).toValue :=
    Value.ofStream_eq_ok_iff.2 ⟨tag, inside, document, tag.node_toValue inside⟩
  exact ⟨shaped, ⟨back, made, alike⟩, _, back, direct, made, alike⟩

/-- Attributes, repeated and single children, text and an empty CDATA section. -/
theorem survives_native_mixed : ∃ node, ofBytes (bytes "<a x='1'><b/>t<b/><c y=''/><![CDATA[]]></a>") = .ok node ∧
    node.Shaped ∧ ∃ back, node.toValue.toDocument = .ok back ∧ (back == node) = true := by
  have accepted : (ofBytes (bytes "<a x='1'><b/>t<b/><c y=''/><![CDATA[]]></a>")).isOk = true := by decide +kernel
  obtain ⟨node, parsed⟩ := Except.isOk_iff.1 accepted
  obtain ⟨shaped, ⟨back, made, equal, -⟩, -⟩ := survives_native parsed
  exact ⟨node, parsed, shaped, back, made, equal⟩

end Node
end XmlBinding
