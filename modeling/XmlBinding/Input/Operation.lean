import XmlBinding.Input.Lookahead

/-! What can be done with a stream, one operation at a time, and what it answers. -/
namespace XmlBinding

inductive Operation where
  /-- Begins a lexeme at the cursor. -/
  | mark
  /-- Whether so many bytes are ahead. -/
  | fill (n : Nat)
  | isAtEnd
  | peek
  /-- The byte so far ahead. An index is any number: that the bytes up to it could not be counted in a machine
  word is not modelled. -/
  | byteAt (index : Nat)
  | startsWith (literal : List UInt8)
  | advance (n : Nat)
  | eat (literal : List UInt8)
  | skipSpace
  | find (needle : List UInt8)
  | findByte (b : UInt8)
  | textLength
  | nameLength
  | quotedLength
  | charLength
  | textFrom (start : Nat)
  | checkFrom (start : Nat)
deriving DecidableEq, Repr

inductive Answer where
  | nothing
  | offset (offset : Nat)
  | flag (holds : Bool)
  | byte (b? : Option UInt8)
  | length (length : Nat)
  | distance (length? : Option Nat)
  | text (result : Except Error String)
  | check (result : Except Error Unit)
deriving Repr

namespace Stream

/-- Asks about the bytes ahead. -/
def ask (s : Stream) (scan : Scan α) (answer : α → Answer) : Answer × Stream :=
  let (result, s) := s.run scan
  (answer result, s)

def perform (s : Stream) : Operation → Answer × Stream
  | .mark => (.offset s.offset, s.setMark)
  | .fill n => s.ask (.available n) .flag
  | .isAtEnd =>
    let (ended, s) := s.isAtEnd
    (.flag ended, s)
  | .peek =>
    let (b?, s) := s.peek
    (.byte b?, s)
  | .byteAt index => s.ask (.byteAt index) .byte
  | .startsWith literal =>
    let (found, s) := s.startsWith literal
    (.flag found, s)
  | .advance n => (.nothing, s.advance n)
  | .eat literal =>
    let (found, s) := s.eat literal
    (.flag found, s)
  | .skipSpace => (.nothing, s.skipSpace)
  | .find needle => s.ask (.find needle) .distance
  | .findByte b => s.ask (.find [b]) .distance
  | .textLength => s.ask .textLength .length
  | .nameLength => s.ask .nameLength .length
  | .quotedLength => s.ask .quotedLength .distance
  | .charLength => s.ask .charLength .length
  | .textFrom start => (.text (s.textFrom start), s)
  | .checkFrom start => (.check (s.checkFrom start), s)

end Stream

end XmlBinding
