import XmlBinding.Input.Stream
import XmlBinding.Text.Classes
import XmlBinding.Text.Name

/-! What can be asked about the bytes ahead of a stream: how many there are, how they begin, where
something occurs, and how far a name, a quoted string, a run of text or a character reaches. None of
these moves the cursor. -/
namespace XmlBinding

/-- Whether there are at least `n` bytes. No more than these are looked at. -/
def hasAtLeast (n : Nat) (bytes : List UInt8) : Bool :=
  (bytes.take n).length == n

theorem hasAtLeast_iff {n : Nat} {bytes : List UInt8} :
    hasAtLeast n bytes = true ↔ n ≤ bytes.length := by
  rw [hasAtLeast, List.length_take, beq_iff_eq]
  omega

namespace Scan

/-- Whether at least `n` bytes are ahead. -/
def available (n : Nat) : Scan Bool where
  look _ bytes := if hasAtLeast n bytes then .ok true else .error 0
  whole bytes := hasAtLeast n bytes

/-- The byte at a distance. -/
def byteAt (n : Nat) : Scan (Option UInt8) where
  look _ bytes :=
    match bytes[n]? with
    | some b => .ok (some b)
    | none => .error 0
  whole bytes := bytes[n]?

/-- Whether a literal is ahead. -/
def startsWith (literal : List UInt8) : Scan Bool where
  look _ bytes := if hasAtLeast literal.length bytes then .ok (literal.isPrefixOf bytes) else .error 0
  whole bytes := literal.isPrefixOf bytes

/-- The number of space characters ahead. -/
def spaces : Scan Nat where
  look done bytes :=
    let length := done + ((bytes.drop done).takeWhile Text.isSpaceByte).length
    if length < bytes.length then .ok length else .error length
  whole bytes := (bytes.takeWhile Text.isSpaceByte).length

/-- The distance to the first occurrence of a needle. -/
def indexOf? (needle : List UInt8) : List UInt8 → Option Nat
  | [] => if needle.isEmpty then some 0 else none
  | b :: rest =>
    if needle.isPrefixOf (b :: rest) then some 0 else (indexOf? needle rest).map (· + 1)

/-- Looks for a needle behind the bytes that have been searched. If it is not there it may begin in the
last of these bytes, of which one fewer than it has are looked at again. -/
def seek (needle : List UInt8) (done : Nat) (bytes : List UInt8) : Except Nat Nat :=
  match indexOf? needle (bytes.drop done) with
  | some distance => .ok (done + distance)
  | none => .error (bytes.length - (needle.length - 1))

/-- The distance to the first occurrence of a needle. -/
def find (needle : List UInt8) : Scan (Option Nat) where
  look done bytes := (seek needle done bytes).map some
  whole bytes := indexOf? needle bytes

/-- The length of the text ahead, which ends before the next tag or with the input. -/
def textLength : Scan Nat where
  look := seek [0x3C]
  whole bytes := (indexOf? [0x3C] bytes).getD bytes.length

/-- The length of the name ahead, zero if there is none. -/
def nameLength : Scan Nat where
  look done bytes :=
    match Text.nameExtent (done == 0) 0 (bytes.drop done) with
    | (length, false) => .ok (done + length)
    | (length, true) => .error (done + length)
  whole := Text.nameLength

/-- The distance to the first quote that no backslash escapes. -/
def closingQuote? (quote : UInt8) : List UInt8 → Option Nat
  | [] => none
  | b :: rest =>
    if b == quote then some 0
    else if b == 0x5C then
      match rest with
      | [] => none
      | _ :: rest => (closingQuote? quote rest).map (· + 2)
    else (closingQuote? quote rest).map (· + 1)

/-- The length of the quoted string at the start of some bytes, both quotes included. -/
def quotedLength? : List UInt8 → Option Nat
  | [] => none
  | quote :: rest => (closingQuote? quote rest).map (· + 2)

/-- How many bytes are passed where no quote closes: all of them, and the next one too if the last is a
backslash. -/
def unclosedLength : List UInt8 → Nat
  | [] => 0
  | b :: rest =>
    if b == 0x5C then
      match rest with
      | [] => 2
      | _ :: rest => unclosedLength rest + 2
    else unclosedLength rest + 1

/-- The length of the quoted string ahead, if its closing quote is there. -/
def quotedLength : Scan (Option Nat) where
  look done bytes :=
    match bytes with
    | [] => .error 0
    | quote :: _ =>
      -- The opening quote is passed at once.
      let done := max done 1
      match closingQuote? quote (bytes.drop done) with
      | some distance => .ok (some (done + distance + 1))
      | none => .error (done + unclosedLength (bytes.drop done))
  whole := quotedLength?

/-- The length of the character ahead: at least one byte unless the input has ended. -/
def charLength : Scan Nat where
  look
    | _, [] => .error 0
    | _, b :: rest =>
      let width := max (Text.leadWidth b) 1
      if hasAtLeast width (b :: rest) then .ok width else .error 0
  whole
    | [] => 0
    | b :: rest =>
      let width := max (Text.leadWidth b) 1
      if hasAtLeast width (b :: rest) then width else 1

end Scan

namespace Stream

/-- Whether the input has ended at the cursor. -/
def isAtEnd (s : Stream) : Bool × Stream :=
  let (available, s) := s.run (.available 1)
  (!available, s)

def peek (s : Stream) : Option UInt8 × Stream :=
  s.run (.byteAt 0)

def startsWith (s : Stream) (literal : List UInt8) : Bool × Stream :=
  s.run (.startsWith literal)

/-- Moves over a literal if it is ahead. -/
def eat (s : Stream) (literal : List UInt8) : Bool × Stream :=
  let (found, s) := s.startsWith literal
  (found, if found then s.advance literal.length else s)

/-- Moves over the space characters ahead. -/
def skipSpace (s : Stream) : Stream :=
  let (length, s) := s.run .spaces
  s.advance length

end Stream

end XmlBinding
