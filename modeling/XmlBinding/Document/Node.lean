import XmlBinding.Keyed
import XmlBinding.Position

/-! Document trees. An element is an object whose keys follow a convention: `@name` holds an attribute,
`#text` and `#cdata` hold character data, and every other key holds a child element. Children of one
name are gathered in an array in the order in which they came. -/
namespace XmlBinding

inductive Node where
  | object (properties : List (String × Node)) (position : Position)
  | literal (value : String) (position : Position)
  | array (items : List Node) (position : Position)
deriving Repr, Inhabited

/-- What an element holds. -/
abbrev Properties := Keyed Node

/-- The key of the trimmed and resolved text of an element. -/
def textKey : String := "#text"

/-- The key of the concatenated CDATA sections of an element. -/
def cdataKey : String := "#cdata"

/-- The character that begins the key of an attribute. -/
def attributeMark : Char := '@'

/-- The key of an attribute. -/
def attributeKey (name : String) : String :=
  String.ofList (attributeMark :: name.toList)

/-- The attribute that a key names, if it is the key of one. -/
def attributeOfKey? (key : String) : Option String :=
  match key.toList with
  | '@' :: name => some (String.ofList name)
  | _ => none

/-- Whether a key names a child element. -/
def isChildKey (key : String) : Bool :=
  match key.toList with
  | '@' :: _ => false
  | '#' :: _ => false
  | _ => true

namespace Node

def position : Node → Position
  | object _ position => position
  | literal _ position => position
  | array _ position => position

/-- The properties of an object. -/
def properties? : Node → Option Properties
  | object properties _ => some properties
  | _ => none

/-- The text of a literal. -/
def text? : Node → Option String
  | literal value _ => some value
  | _ => none

/-- The items of an array. -/
def items? : Node → Option (List Node)
  | array items _ => some items
  | _ => none

/-- The node under a key of an object. -/
def get? (node : Node) (key : String) : Option Node :=
  node.properties?.bind (·.get? key)

/-- Adds a child to what is stored under its name: an array grows, anything else becomes the first item
of an array that begins with `spare`, which is storage made ready beforehand. -/
def coalesce (spare : List Node) : Node → Node → Node
  | array items position, child => array (items ++ [child]) position
  | first, child => array (spare ++ [first, child]) first.position

end Node

namespace Properties

def attribute? (properties : Properties) (name : String) : Option String :=
  (properties.get? (attributeKey name)).bind Node.text?

def text? (properties : Properties) : Option String :=
  (properties.get? textKey).bind Node.text?

def cdata? (properties : Properties) : Option String :=
  (properties.get? cdataKey).bind Node.text?

/-- The child elements, without attributes and character data. -/
def children (properties : Properties) : Properties :=
  properties.filter fun entry => isChildKey entry.1

/-- Adds a child element; a second child of one name turns the entry into an array. -/
def insertChild (properties : Properties) (name : String) (child : Node) : Properties :=
  properties.insertWith (Node.coalesce []) name child

end Properties

end XmlBinding
