import XmlBinding.Text.Classes
import XmlBinding.Text.Utf8

/-! Names of elements and attributes. A name begins with a letter, an underscore or a colon and goes on
with these, digits, points and hyphens; outside ASCII it may hold every alphabetic character. It is
measured on bytes, since input need not be valid text beyond its names. -/
namespace XmlBinding.Text

/-- The ASCII bytes that may begin a name. -/
def startsName (b : UInt8) : Bool :=
  (0x41 ≤ b && b ≤ 0x5A) || (0x61 ≤ b && b ≤ 0x7A) || b == 0x5F || b == 0x3A

/-- The ASCII bytes that may go on with a name. -/
def continuesName (b : UInt8) : Bool :=
  startsName b || (0x30 ≤ b && b ≤ 0x39) || b == 0x2E || b == 0x2D

/-- Whether bytes spell an alphabetic character. -/
def spellsLetter (spelling : List UInt8) : Bool :=
  match ofBytes? spelling with
  | some text => text.toList.head?.any isAlphabetic
  | none => false

/-- How many bytes of a name lie ahead, and whether more input could make it longer. `owed` bytes are
still to be passed of a character already accepted. -/
def nameExtent (first : Bool) : (owed : Nat) → List UInt8 → Nat × Bool
  | _, [] => (0, true)
  | owed + 1, _ :: rest =>
    let (length, unfinished) := nameExtent first owed rest
    (length + 1, unfinished)
  | 0, b :: rest =>
    if b < 0x80 then
      if (if first then startsName b else continuesName b) then
        let (length, unfinished) := nameExtent false 0 rest
        (length + 1, unfinished)
      else (0, false)
    else
      let width := leadWidth b
      let spelling := (b :: rest).take width
      if width = 0 then (0, false)
      else if spelling.length < width then (0, true)
      else if spellsLetter spelling then
        let (length, unfinished) := nameExtent false (width - 1) rest
        (length + 1, unfinished)
      else (0, false)

/-- The number of bytes of the longest name at the start of some bytes. -/
def nameLength (bytes : List UInt8) : Nat :=
  (nameExtent true 0 bytes).1

/-- Whether a text as a whole is a name. -/
def isName (text : String) : Bool :=
  text != "" && nameLength (bytes text) == (bytes text).length

end XmlBinding.Text
