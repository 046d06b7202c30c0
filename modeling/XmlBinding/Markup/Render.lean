import XmlBinding.Markup.Writer
import XmlBinding.Native.Convert
import XmlBinding.Storage

/-! Rendering trees and native values. Of an element, the attributes are written first, then the text,
then the CDATA, then the children, attributes and children in the order of their names. An entry that no
document could have produced is passed over. -/
namespace XmlBinding

/-- How a document is written. -/
structure Settings where
  /-- The name of the root element, unless what is written has a name of its own. -/
  rootTag : String := "root"
  /-- The lines of the output; without a layout it is all on one line. -/
  layout? : Option Layout := none
deriving DecidableEq, Repr

namespace Writer

/-- Adds the attributes among some entries. -/
def putAttributes (w : Writer) (entries : Entries) : Writer :=
  entries.foldl (fun w entry =>
    match attributeOfKey? entry.1, entry.2 with
    | some name, .string text => w.putAttribute name text
    | _, _ => w) w

/-- Writes the text and the CDATA among some entries. -/
def putCharacters (w : Writer) (entries : Entries) : Writer :=
  let w :=
    match entries.get? textKey with
    | some (.string text) => w.text text
    | _ => w
  match entries.get? cdataKey with
  | some (.string text) => w.cdata text
  | _ => w

mutual

/-- Writes a value as an element of the given name, or a list as one element for each item, with the
entries of every map in the order in which they stand. -/
def element (w : Writer) (name : String) : Value → Writer
  | .string text => w.textElement name text
  | .map entries =>
    let w := ((w.start name).putAttributes entries).putCharacters entries
    (children w entries).close name
  | .list items => elements w name items

/-- Writes the child elements among some entries. -/
def children (w : Writer) : List (String × Value) → Writer
  | [] => w
  | (key, value) :: rest =>
    children (if isChildKey key then element w key value else w) rest

/-- Writes every item as an element of the given name. -/
def elements (w : Writer) (name : String) : List Value → Writer
  | [] => w
  | item :: rest => elements (element w name item) name rest

end

/-- Writes a value as an element of the given name, with the entries of maps in the order of their keys. -/
def value (w : Writer) (name : String) (value : Value) : Writer :=
  w.element name value.canonical

/-- Adds the attributes among some properties. -/
def putTreeAttributes (w : Writer) (properties : Properties) : Writer :=
  properties.foldl (fun w entry =>
    match attributeOfKey? entry.1, entry.2 with
    | some name, .literal text _ => w.putAttribute name text
    | _, _ => w) w

/-- Writes the text and the CDATA among some properties. -/
def putTreeCharacters (w : Writer) (properties : Properties) : Writer :=
  let w :=
    match properties.get? textKey with
    | some (.literal text _) => w.text text
    | _ => w
  match properties.get? cdataKey with
  | some (.literal text _) => w.cdata text
  | _ => w

mutual

/-- Writes a tree as an element of the given name, or an array as one element for each item. No value is made of
the tree: the properties of each object are sorted when the object is written. -/
def tree : Node → String → Writer → Writer
  | .literal text _, name, w => w.textElement name text
  | .array items _, name, w => treeItems items name w
  | .object properties _, name, w =>
    let sorted := Keyed.sort properties
    let w := ((w.start name).putTreeAttributes sorted).putTreeCharacters sorted
    let children := (treeProperties properties).sort.filter fun entry => isChildKey entry.1
    (children.foldl (fun w entry => entry.2 entry.1 w) w).close name

/-- How each property is written as an element. -/
def treeProperties : List (String × Node) → Keyed (String → Writer → Writer)
  | [] => []
  | (key, node) :: rest => (key, tree node) :: treeProperties rest

/-- Writes every item as an element of the given name. -/
def treeItems : List Node → String → Writer → Writer
  | [], _, w => w
  | item :: rest, name, w => treeItems rest name (tree item name w)

end

end Writer

/-- A native value as a document. -/
def Value.render (value : Value) (settings : Settings) : List UInt8 :=
  (({ layout? := settings.layout? } : Writer).value settings.rootTag value).finish

/-- A tree as a document. -/
def Node.render (node : Node) (settings : Settings) : List UInt8 :=
  node.toValue.render settings

/-- A native value as a document, written into a buffer from storage that is given back. -/
def Storage.render (storage : Storage) (value : Value) (settings : Settings) :
    List UInt8 × Storage :=
  let (out, storage) := storage.takeBuffer
  let w : Writer := ({ out, layout? := settings.layout? } : Writer).value settings.rootTag value
  (w.finish, storage.giveBuffer w.endTag.out)

/-- A tree as a document, written into a buffer from storage that is given back. -/
def Storage.renderTree (storage : Storage) (node : Node) (settings : Settings) :
    List UInt8 × Storage :=
  let (out, storage) := storage.takeBuffer
  let w := Writer.tree node settings.rootTag { out, layout? := settings.layout? }
  (w.finish, storage.giveBuffer w.endTag.out)

end XmlBinding
