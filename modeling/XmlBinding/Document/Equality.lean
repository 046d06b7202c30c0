import XmlBinding.Native.Value

/-! Equality of content. Two trees are equal if they differ in positions and in the order of keys at
most; a tree may be compared with a native value in the same way. -/
namespace XmlBinding.Node

mutual

/-- Whether two trees have the same content. -/
def same : Node → Node → Bool
  | object a _, object b _ => a.length == b.length && sameProperties a b
  | literal a _, literal b _ => a == b
  | array a _, array b _ => sameItems a b
  | _, _ => false

/-- Whether every property has an equal one in the other object. -/
def sameProperties : List (String × Node) → List (String × Node) → Bool
  | [], _ => true
  | (key, node) :: rest, other =>
    (match other.lookup key with
      | some found => same node found
      | none => false) && sameProperties rest other

/-- Whether two arrays have equal items. -/
def sameItems : List Node → List Node → Bool
  | [], [] => true
  | a :: rest, b :: others => same a b && sameItems rest others
  | _, _ => false

end

instance : BEq Node := ⟨same⟩

mutual

/-- Whether a tree has the content of a native value. -/
def matchesValue : Node → Value → Bool
  | object properties _, .map entries =>
    properties.length == entries.length && matchesEntries properties entries
  | literal value _, .string text => value == text
  | array items _, .list values => matchesItems items values
  | _, _ => false

/-- Whether every property matches the entry under its key. -/
def matchesEntries : List (String × Node) → List (String × Value) → Bool
  | [], _ => true
  | (key, node) :: rest, entries =>
    (match entries.lookup key with
      | some value => matchesValue node value
      | none => false) && matchesEntries rest entries

/-- Whether the items match the values one by one. -/
def matchesItems : List Node → List Value → Bool
  | [], [] => true
  | node :: rest, value :: values => matchesValue node value && matchesItems rest values
  | _, _ => false

end

end XmlBinding.Node

namespace XmlBinding.Value

/-- Whether a native value is the content of a tree: the comparison from the other side. -/
def matchesNode (value : Value) (node : Node) : Bool :=
  node.matchesValue value

end XmlBinding.Value
