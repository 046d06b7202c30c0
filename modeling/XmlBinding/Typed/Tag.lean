import XmlBinding.Document.Node
import XmlBinding.Text.Classes

/-! Tags of record fields. A tag names the element or attribute that holds the field and adds options after
commas: where the content goes, and whether a field that is empty is left out. The tag `-` leaves the field
out altogether. -/
namespace XmlBinding

/-- Where the content of a field goes inside the element of its record. -/
inductive FieldRole where
  | element
  | attribute
  /-- The text of the element. -/
  | characters
  /-- The CDATA of the element. -/
  | cdata
deriving DecidableEq, Repr

structure FieldTag where
  /-- The name of the element or attribute. -/
  name : String
  role : FieldRole := .element
  omitEmpty : Bool := false
  /-- Whether the field takes no part at all. -/
  skip : Bool := false
deriving DecidableEq, Repr

namespace FieldTag

/-- Applies one option; of several roles the last one holds, and what is no option changes nothing. -/
def withOption (tag : FieldTag) (option : String) : FieldTag :=
  match option with
  | "attr" => { tag with role := .attribute }
  | "chardata" => { tag with role := .characters }
  | "cdata" => { tag with role := .cdata }
  | "omitempty" => { tag with omitEmpty := true }
  | _ => tag

/-- The parts of a text between its commas. -/
def parts (text : List Char) : List (List Char) :=
  match text with
  | [] => [[]]
  | ',' :: rest => [] :: parts rest
  | c :: rest =>
    match parts rest with
    | [] => [[c]]
    | part :: others => (c :: part) :: others

/-- Reads the tag of a field, which lends its name where the tag gives none. -/
def parse (field tag : String) : FieldTag :=
  if tag = "-" then { name := field, skip := true }
  else
    match parts tag.toList with
    | [] => { name := field }
    | name :: options =>
      let start : FieldTag := { name := if name = [] then field else String.ofList name }
      options.foldl (fun tag option => tag.withOption (Text.trimBlank (String.ofList option))) start

/-- The key under which the content of the field stands in the element of its record. -/
def key (tag : FieldTag) : String :=
  match tag.role with
  | .element => tag.name
  | .attribute => attributeKey tag.name
  | .characters => textKey
  | .cdata => cdataKey

end FieldTag

end XmlBinding
