import XmlBinding.Error
import XmlBinding.Input.Source
import XmlBinding.Text.Utf8

/-! A cursor over input that may still be arriving. The stream keeps the bytes ahead that have been
read and, of the bytes behind, those since the last mark; it asks its source for more only when a scan
cannot settle its answer on what it sees. -/
namespace XmlBinding

/-- A question about the bytes ahead. `look` answers it once the bytes seen so far determine the answer;
until then it says how many of them it has dealt with, and goes on behind these when more have arrived.
`whole` answers it when the bytes are all there will be. -/
structure Scan (α : Type) where
  look : (done : Nat) → List UInt8 → Except Nat α
  whole : List UInt8 → α

/-- The answer to a scan that the bytes seen so far determine, if they do. -/
def Scan.early (scan : Scan α) (bytes : List UInt8) : Option α :=
  (scan.look 0 bytes).toOption

structure Stream where
  /-- The bytes before the cursor that are still held, the nearest first. -/
  behind : List UInt8 := []
  /-- The bytes after the cursor that have been read. -/
  ahead : List UInt8 := []
  /-- What can still be asked, if anything. -/
  source : Option Source := none
  /-- The offset from which bytes have to be held. -/
  mark : Nat := 0
  position : Position := .start
  /-- Why the source failed, until this is taken. -/
  failure : Option String := none
deriving Repr

namespace Stream

/-- A stream over bytes that are all there. -/
def ofBytes (bytes : List UInt8) : Stream :=
  { ahead := bytes }

/-- A stream that reads from a source. -/
def ofSource (source : Source) : Stream :=
  { source := some source }

def offset (s : Stream) : Nat :=
  s.position.offset

/-- The offset of the first byte still held. -/
def base (s : Stream) : Nat :=
  s.offset - s.behind.length

/-- Drops the bytes before the mark if they make up at least half of those held. -/
def compact (s : Stream) : Stream :=
  let spare := min (s.mark - s.base) s.behind.length
  if 0 < spare ∧ s.behind.length + s.ahead.length ≤ spare * 2 then
    { s with behind := s.behind.take (s.behind.length - spare) }
  else s

/-- Takes in one answer of the source. -/
def receive (s : Stream) (read : Read) : Stream :=
  { s with ahead := s.ahead ++ read.content }

/-- Takes note that the source has no more bytes. -/
def close (s : Stream) : Ending → Stream
  | .endOfInput => { s with source := none }
  | .failure cause => { s with source := none, failure := some cause }

/-- Answers a scan that has dealt with so many bytes, taking in as many of the remaining reads as it
needs. -/
def answer (scan : Scan α) (ending : Ending) : List Read → (done : Nat) → Stream → α × Stream
  | [], done, s =>
    match scan.look done s.ahead with
    | .ok result => (result, { s with source := some ⟨[], ending⟩ })
    | .error _ => (scan.whole s.ahead, s.compact.close ending)
  | read :: later, done, s =>
    match scan.look done s.ahead with
    | .ok result => (result, { s with source := some ⟨read :: later, ending⟩ })
    | .error done => answer scan ending later done (s.compact.receive read)

/-- Answers a scan of the bytes ahead. -/
def run (scan : Scan α) (s : Stream) : α × Stream :=
  match s.source with
  | none => ((scan.early s.ahead).getD (scan.whole s.ahead), s)
  | some source => answer scan source.ending source.reads 0 s

/-- Moves the cursor over `n` bytes, or over as many as have been read. -/
def advance (s : Stream) (n : Nat) : Stream :=
  { s with
    behind := (s.ahead.take n).reverse ++ s.behind
    ahead := s.ahead.drop n
    position := s.position.advance (s.ahead.take n) }

/-- Marks the cursor as the start of a lexeme, from which bytes are held. -/
def setMark (s : Stream) : Stream :=
  { s with mark := s.offset }

/-- Hands over the failure of the source, which is then forgotten. -/
def takeFailure (s : Stream) : Option String × Stream :=
  (s.failure, { s with failure := none })

/-- The held bytes from an offset to the cursor. -/
def bytesFrom (s : Stream) (start : Nat) : List UInt8 :=
  (s.behind.take (s.offset - start)).reverse

/-- The text from an offset to the cursor. Bytes that spell no text are a fault found at the cursor. -/
def textFrom (s : Stream) (start : Nat) : Except Error String :=
  match Text.ofBytes? (s.bytesFrom start) with
  | some text => .ok text
  | none => .error (.malformed .invalidText s.position)

/-- Checks the text from an offset to the cursor without making it. -/
def checkFrom (s : Stream) (start : Nat) : Except Error Unit :=
  if Text.isText (s.bytesFrom start) then .ok () else .error (.malformed .invalidText s.position)

theorem checkFrom_eq (s : Stream) (start : Nat) :
    s.checkFrom start = (s.textFrom start).map fun _ => () := by
  rw [checkFrom, textFrom, Text.isText_eq_isSome]
  cases Text.ofBytes? (s.bytesFrom start) <;> rfl

end Stream

end XmlBinding
