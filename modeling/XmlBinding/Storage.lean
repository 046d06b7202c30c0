import XmlBinding.Document.Node

/-! Storage for reuse. Maps, item lists and output buffers that are no longer needed are emptied and kept,
up to a limit of each, and handed out again before new ones are made. A supply is whatever hands them
out: storage, or nothing but fresh ones. -/
namespace XmlBinding

/-- Hands out a map of properties or a list of items for a new object or array. -/
structure Supply (σ : Type) where
  takeProperties : σ → Properties × σ
  takeItems : σ → List Node × σ

/-- The supply that makes everything anew. -/
def Supply.fresh : Supply Unit where
  takeProperties _ := ([], ())
  takeItems _ := ([], ())

/-- Things kept for reuse, the latest first. -/
abbrev Pool (α : Type) := List α

namespace Pool

/-- Keeps a thing unless the pool is full. -/
def give (pool : Pool α) (limit : Nat) (thing : α) : Pool α :=
  if pool.length < limit then thing :: pool else pool

/-- The thing kept last, or else a new one. -/
def takeOr (pool : Pool α) (new : α) : α × Pool α :=
  match pool with
  | [] => (new, [])
  | thing :: rest => (thing, rest)

end Pool

structure Storage where
  properties : Pool Properties := []
  items : Pool (List Node) := []
  buffers : Pool (Array UInt8) := []
deriving Inhabited

namespace Storage

/-- How many maps, and how many item lists, are kept. -/
def treeLimit : Nat := 256

/-- How many output buffers are kept. -/
def bufferLimit : Nat := 32

/-- The largest map that is kept. -/
def maxPooledProperties : Nat := 64

/-- The largest output buffer that is kept, in bytes. -/
def maxPooledBuffer : Nat := 64 * 1024

def takeProperties (storage : Storage) : Properties × Storage :=
  let (taken, properties) := storage.properties.takeOr []
  (taken, { storage with properties })

def takeItems (storage : Storage) : List Node × Storage :=
  let (taken, items) := storage.items.takeOr []
  (taken, { storage with items })

def takeBuffer (storage : Storage) : Array UInt8 × Storage :=
  let (taken, buffers) := storage.buffers.takeOr #[]
  (taken, { storage with buffers })

/-- Keeps an output buffer after emptying it, unless it has grown too large. -/
def giveBuffer (storage : Storage) (buffer : Array UInt8) : Storage :=
  if maxPooledBuffer < buffer.size then storage
  else { storage with buffers := storage.buffers.give bufferLimit (buffer.take 0) }

/-- Keeps an emptied map that held `size` entries, unless that was too large. -/
def giveProperties (storage : Storage) (size : Nat) (properties : Properties) : Storage :=
  if maxPooledProperties < size then storage
  else { storage with properties := storage.properties.give treeLimit properties }

def giveItems (storage : Storage) (items : List Node) : Storage :=
  { storage with items := storage.items.give treeLimit items }

mutual

/-- Takes a tree apart and keeps the storage of every object and array in it. -/
def release (storage : Storage) : Node → Storage
  | .object properties _ =>
    let (drained, storage) := drainProperties storage properties
    storage.giveProperties properties.length drained
  | .array items _ =>
    let (drained, storage) := drainItems storage items
    storage.giveItems drained
  | .literal _ _ => storage

/-- Releases every node of a map, of which the emptied map is left. -/
def drainProperties (storage : Storage) : List (String × Node) → Properties × Storage
  | [] => ([], storage)
  | (_, node) :: rest => drainProperties (release storage node) rest

/-- Releases every node of a list, of which the emptied list is left. -/
def drainItems (storage : Storage) : List Node → List Node × Storage
  | [] => ([], storage)
  | node :: rest => drainItems (release storage node) rest

end

/-- Adds a child element to the properties of an object, with a list from storage for the second of its name. -/
def insertChild (storage : Storage) (properties : Properties) (name : String) (child : Node) :
    Properties × Storage :=
  match properties.get? name with
  | none | some (.array _ _) => (properties.insertChild name child, storage)
  | some _ =>
    let (items, storage) := storage.takeItems
    (properties.insertWith (Node.coalesce items) name child, storage)

/-- The supply that hands out what is kept before it makes anything anew. -/
def supply : Supply Storage := ⟨takeProperties, takeItems⟩

end Storage

end XmlBinding
