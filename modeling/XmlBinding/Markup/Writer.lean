import XmlBinding.Text.AttributeValue

/-! Writing markup. The tag of an element stays open until something is written into the element, so one
without content closes itself. With a layout, every element begins on a line of its own. -/
namespace XmlBinding

/-- How lines are laid out. -/
structure Layout where
  /-- What begins every line. -/
  lineStart : String
  /-- What is added for each level of nesting. -/
  indent : String
deriving DecidableEq, Repr

structure Writer where
  out : Array UInt8 := #[]
  /-- For every open element, the innermost first, whether it has child elements. -/
  parents : List Bool := []
  /-- Whether the tag written last is still open. -/
  tagOpen : Bool := false
  /-- Whether any element has been written. -/
  begun : Bool := false
  layout? : Option Layout := none
deriving Repr

/-- The end of a CDATA section inside a terminator, with the beginning of the next one. -/
def cdataSplice : List Char :=
  [']', ']', ']', ']', '>', '<', '!', '[', 'C', 'D', 'A', 'T', 'A', '[', '>']

/-- The body of CDATA sections that together hold some text: inside each terminator one section ends and
the next begins. -/
def splitCData : List Char → List Char
  | ']' :: ']' :: '>' :: rest =>
    cdataSplice ++ splitCData rest
  | c :: rest => c :: splitCData rest
  | [] => []

namespace Writer

def put (w : Writer) (text : String) : Writer :=
  { w with out := w.out ++ Text.bytes text }

/-- Ends the tag that is still open. -/
def endTag (w : Writer) : Writer :=
  if w.tagOpen then { w.put ">" with tagOpen := false } else w

/-- Begins a line at the current depth, if there is a layout. -/
def newLine (w : Writer) : Writer :=
  match w.layout? with
  | none => w
  | some layout =>
    w.parents.foldl (fun w _ => w.put layout.indent) ((w.put "\n").put layout.lineStart)

/-- Makes room for an element inside the innermost open one. -/
def beginChild (w : Writer) : Writer :=
  let w := w.endTag
  let w := { w with parents := match w.parents with | [] => [] | _ :: rest => true :: rest }
  let w := if w.begun then w.newLine else
    match w.layout? with
    | none => w
    | some layout => w.put layout.lineStart
  { w with begun := true }

/-- Opens an element. -/
def start (w : Writer) (name : String) : Writer :=
  let w := (w.beginChild.put "<").put name
  { w with parents := false :: w.parents, tagOpen := true }

/-- Adds an attribute to the tag that is still open. -/
def putAttribute (w : Writer) (name value : String) : Writer :=
  ((((w.put " ").put name).put "=\"").put (Text.attributeValue value)).put "\""

/-- Writes character data; empty text writes nothing. -/
def text (w : Writer) (text : String) : Writer :=
  if text = "" then w else w.endTag.put (Text.characterData text)

/-- Writes CDATA sections that hold a text. -/
def cdata (w : Writer) (text : String) : Writer :=
  ((w.endTag.put "<![CDATA[").put (String.ofList (splitCData text.toList))).put "]]>"

/-- Writes a complete element that was made elsewhere. -/
def raw (w : Writer) (element : List UInt8) : Writer :=
  let w := w.beginChild
  { w with out := w.out ++ element }

/-- Closes the innermost element, which must have the given name. -/
def close (w : Writer) (name : String) : Writer :=
  let hasChildren := w.parents.headD false
  let w := { w with parents := w.parents.tail }
  if w.tagOpen then { w.put "/>" with tagOpen := false }
  else
    let w := if hasChildren then w.newLine else w
    ((w.put "</").put name).put ">"

/-- Writes an element that holds text only. -/
def textElement (w : Writer) (name text : String) : Writer :=
  ((w.start name).text text).close name

/-- Everything written. -/
def finish (w : Writer) : List UInt8 :=
  w.endTag.out.toList

end Writer

end XmlBinding
