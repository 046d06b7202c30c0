import XmlBinding.Native.Value
import XmlBinding.Text.Name

/-! Trees and native values. A tree becomes a value by forgetting its positions; a value becomes a tree
if it could be the content of a document. -/
namespace XmlBinding

mutual

/-- The content of a tree without its positions. -/
def Node.toValue : Node → Value
  | .object properties _ => .map (Node.toEntries properties)
  | .literal value _ => .string value
  | .array items _ => .list (Node.toItems items)

def Node.toEntries : List (String × Node) → List (String × Value)
  | [] => []
  | (key, node) :: rest => (key, node.toValue) :: Node.toEntries rest

def Node.toItems : List Node → List Value
  | [] => []
  | node :: rest => node.toValue :: Node.toItems rest

end

namespace Value

/-- What the value under a key must be. -/
inductive KeyRole where
  /-- An attribute or character data, which must be a string. -/
  | literal
  | child
deriving DecidableEq, Repr

/-- The role of a key in a document, if it has one. -/
def keyRole (key : String) : Except Error KeyRole :=
  match attributeOfKey? key with
  | some name => if Text.isName name then .ok .literal else .error (.invalidName key)
  | none =>
    if key == textKey || key == cdataKey then .ok .literal
    else if key.toList.head? == some '#' then
      .error (.invalidNative (.unknownSpecialKey key))
    else if Text.isName key then .ok .child
    else .error (.invalidName key)

mutual

/-- The tree of a value that stands under a key. A list may stand for repeated children, but not inside
another list. -/
def toNode (key : String) (role : KeyRole) (inList : Bool) : Value → Except Error Node
  | string text => .ok (.literal text .start)
  | map entries =>
    match role with
    | .literal => .error (.invalidNative (.notString key .map))
    | .child => (toProperties entries).map (.object · .start)
  | list items =>
    match role with
    | .literal => .error (.invalidNative (.notString key .list))
    | .child =>
      if inList then .error (.invalidNative (.nestedList key))
      else (toNodes key items).map (.array · .start)

/-- The properties of an element with the given entries. -/
def toProperties : List (String × Value) → Except Error (List (String × Node))
  | [] => .ok []
  | (key, value) :: rest =>
    match keyRole key with
    | .error error => .error error
    | .ok role =>
      match toNode key role false value with
      | .error error => .error error
      | .ok node => (toProperties rest).map ((key, node) :: ·)

/-- The repeated children under a key. -/
def toNodes (key : String) : List Value → Except Error (List Node)
  | [] => .ok []
  | item :: rest =>
    match toNode key .child true item with
    | .error error => .error error
    | .ok node => (toNodes key rest).map (node :: ·)

end

/-- The document tree of a value, which must be a map. -/
def toDocument : Value → Except Error Node
  | map entries => (toProperties entries).map (.object · .start)
  | other => .error (.invalidNative (.rootNotMap other.kind))

end Value

end XmlBinding
