import XmlBinding.Document.Node
import XmlBinding.Error

/-! Native values: the content of an element without positions. The keys of a map follow the convention
of document trees, and repeated children form a list. -/
namespace XmlBinding

inductive Value where
  | string (text : String)
  | map (entries : List (String × Value))
  | list (items : List Value)
deriving Repr

/-- The entries of a map value. -/
abbrev Entries := Keyed Value

namespace Value

/-- The value that stands for nothing in particular. -/
def blank : Value := string ""

instance : Inhabited Value := ⟨blank⟩

def kind : Value → ValueKind
  | string _ => .string
  | map _ => .map
  | list _ => .list

def string? : Value → Option String
  | string text => some text
  | _ => none

def entries? : Value → Option Entries
  | map entries => some entries
  | _ => none

def items? : Value → Option (List Value)
  | list items => some items
  | _ => none

def get? (value : Value) (key : String) : Option Value :=
  value.entries?.bind (·.get? key)

/-- The text of a string, or of the text entry of a map, or of its CDATA entry if there is no text
entry. Everything else has the empty text. -/
def text : Value → String
  | string text => text
  | map entries =>
    let entries : Entries := entries
    (((entries.get? textKey).or (entries.get? cdataKey)).bind string?).getD ""
  | list _ => ""

def isEmpty : Value → Bool
  | string text => text.isEmpty
  | map entries => entries.isEmpty
  | list items => items.isEmpty

/-- Adds a child to what is stored under its name. -/
def coalesce : Value → Value → Value
  | list items, child => list (items ++ [child])
  | first, child => list [first, child]

mutual

/-- Equality of content: maps are compared entry by entry, whatever the order of their keys. -/
def same : Value → Value → Bool
  | string a, string b => a == b
  | map a, map b => a.length == b.length && sameEntries a b
  | list a, list b => sameItems a b
  | _, _ => false

/-- Whether every entry has an equal one in the other map. -/
def sameEntries : List (String × Value) → List (String × Value) → Bool
  | [], _ => true
  | (key, value) :: rest, other =>
    (match other.lookup key with
      | some found => same value found
      | none => false) && sameEntries rest other

/-- Whether two lists have equal items. -/
def sameItems : List Value → List Value → Bool
  | [], [] => true
  | a :: rest, b :: others => same a b && sameItems rest others
  | _, _ => false

end

instance : BEq Value := ⟨same⟩

mutual

/-- The value with the entries of all its maps in the order of their keys. -/
def canonical : Value → Value
  | string text => string text
  | map entries => map (canonicalEntries entries).sort
  | list items => list (canonicalItems items)

def canonicalEntries : List (String × Value) → Keyed Value
  | [] => []
  | (key, value) :: rest => (key, canonical value) :: canonicalEntries rest

def canonicalItems : List Value → List Value
  | [] => []
  | item :: rest => canonical item :: canonicalItems rest

end

end Value

namespace Entries

/-- Adds a child element; a second child of one name turns the entry into a list. -/
def insertChild (entries : Entries) (name : String) (child : Value) : Entries :=
  entries.insertWith Value.coalesce name child

end Entries

end XmlBinding
