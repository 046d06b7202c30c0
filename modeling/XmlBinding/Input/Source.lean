/-! Where input comes from. A source answers each read with at least one byte, or with an interruption
after which it is asked again. When its answers are used up it ends, or it fails at every read. -/
namespace XmlBinding

/-- One answer to a request for bytes. -/
inductive Read where
  | bytes (first : UInt8) (more : List UInt8)
  | interrupted
deriving Repr, DecidableEq

/-- What a source says after its last answer. -/
inductive Ending where
  | endOfInput
  | failure (cause : String)
deriving Repr, DecidableEq

structure Source where
  reads : List Read
  ending : Ending
deriving Repr, DecidableEq

namespace Read

def content : Read → List UInt8
  | bytes first more => first :: more
  | interrupted => []

/-- Some bytes as reads of at most `size + 1` bytes each. -/
def pieces (size : Nat) : (fuel : Nat) → List UInt8 → List Read
  | fuel + 1, b :: rest => .bytes b (rest.take size) :: pieces size fuel (rest.drop size)
  | _, _ => []

end Read

namespace Source

/-- Everything a source delivers before its ending. -/
def content (source : Source) : List UInt8 :=
  source.reads.flatMap Read.content

/-- A source that delivers some bytes, at most `size + 1` in one read, with an interruption before every
read if it is asked to interrupt. -/
def inPieces (size : Nat) (interrupts : Bool) (bytes : List UInt8) (ending : Ending) : Source :=
  let reads := Read.pieces size bytes.length bytes
  ⟨if interrupts then reads.flatMap fun read => [.interrupted, read] else reads, ending⟩

end Source

end XmlBinding
