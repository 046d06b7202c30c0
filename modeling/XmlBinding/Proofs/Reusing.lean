import XmlBinding.Proofs.Lockstep
import XmlBinding.Proofs.Ordering
import XmlBinding.Typed.Marshal

/-! What is kept for reuse. Every map, list and buffer in storage is empty, however it came there, and there are never
more of them than the limits allow. So whatever is parsed, rendered or marshaled with storage comes out as it does
without, after any history of documents read and written, failures among them, and of trees given back. -/
namespace XmlBinding

namespace Pool

/-- A pool holds no more than so many things, each of which is as good as new. -/
structure Spare (pool : Pool α) (new : α) (limit : Nat) : Prop where
  clean : ∀ thing ∈ pool, thing = new
  bounded : pool.length ≤ limit

namespace Spare
variable {pool : Pool α}

theorem empty : Spare ([] : Pool α) new limit := ⟨List.forall_mem_nil _, Nat.zero_le _⟩

theorem give (spare : Spare pool new limit) : Spare (pool.give limit new) new limit := by
  unfold Pool.give
  split
  · rename_i room
    exact ⟨List.forall_mem_cons.2 ⟨rfl, spare.clean⟩, room⟩
  · exact spare

theorem takeOr (spare : Spare pool new limit) : (pool.takeOr new).1 = new ∧ Spare (pool.takeOr new).2 new limit := by
  cases pool with
  | nil => exact ⟨rfl, spare⟩
  | cons thing rest =>
    obtain ⟨first, clean⟩ := List.forall_mem_cons.1 spare.clean
    exact ⟨first, clean, Nat.le_of_succ_le spare.bounded⟩

theorem drop (spare : Spare pool new limit) (n : Nat) : Spare (pool.drop n) new limit where
  clean thing member := spare.clean thing (List.mem_of_mem_drop member)
  bounded := Nat.le_trans (List.length_drop ▸ Nat.sub_le _ _) spare.bounded

end Spare
end Pool

namespace Storage

/-- Everything kept is empty, and no more is kept than the limits allow. -/
structure Clean (storage : Storage) : Prop where
  properties : storage.properties.Spare [] treeLimit
  items : storage.items.Spare [] treeLimit
  buffers : storage.buffers.Spare #[] bufferLimit

namespace Clean
variable {storage : Storage}

theorem empty : Clean {} := ⟨.empty, .empty, .empty⟩

theorem takeProperties (clean : storage.Clean) : storage.takeProperties.1 = [] ∧ storage.takeProperties.2.Clean := by
  obtain ⟨new, left⟩ := clean.properties.takeOr
  exact ⟨new, { clean with properties := left }⟩

theorem takeItems (clean : storage.Clean) : storage.takeItems.1 = [] ∧ storage.takeItems.2.Clean := by
  obtain ⟨new, left⟩ := clean.items.takeOr
  exact ⟨new, { clean with items := left }⟩

theorem takeBuffer (clean : storage.Clean) : storage.takeBuffer.1 = #[] ∧ storage.takeBuffer.2.Clean := by
  obtain ⟨new, left⟩ := clean.buffers.takeOr
  exact ⟨new, { clean with buffers := left }⟩

/-- A buffer is emptied before it is kept, whatever has been written into it. -/
theorem giveBuffer (clean : storage.Clean) (buffer : Array UInt8) : (storage.giveBuffer buffer).Clean := by
  unfold Storage.giveBuffer
  split
  · exact clean
  · have emptied : buffer.take 0 = #[] := by simp
    exact { clean with buffers := emptied ▸ clean.buffers.give }

theorem giveProperties (clean : storage.Clean) (size : Nat) : (storage.giveProperties size []).Clean := by
  unfold Storage.giveProperties
  split
  · exact clean
  · exact { clean with properties := clean.properties.give }

theorem giveItems (clean : storage.Clean) : (storage.giveItems []).Clean :=
  { clean with items := clean.items.give }

mutual

/-- A tree of any shape is emptied from the inside out before its storage is kept. -/
theorem release : ∀ (node : Node) {storage : Storage}, storage.Clean → (storage.release node).Clean
  | .literal _ _, _, clean => clean
  | .object properties _, storage, clean => by
    obtain ⟨drained, left⟩ := drainProperties properties clean
    rw [Storage.release]
    dsimp only
    rw [drained]
    exact left.giveProperties _
  | .array items _, storage, clean => by
    obtain ⟨drained, left⟩ := drainItems items clean
    rw [Storage.release]
    dsimp only
    rw [drained]
    exact left.giveItems

theorem drainProperties : ∀ (properties : List (String × Node)) {storage : Storage}, storage.Clean →
    (storage.drainProperties properties).1 = [] ∧ (storage.drainProperties properties).2.Clean
  | [], _, clean => ⟨rfl, clean⟩
  | (_, node) :: rest, _, clean => drainProperties rest (release node clean)

theorem drainItems : ∀ (items : List Node) {storage : Storage}, storage.Clean →
    (storage.drainItems items).1 = [] ∧ (storage.drainItems items).2.Clean
  | [], _, clean => ⟨rfl, clean⟩
  | node :: rest, _, clean => drainItems rest (release node clean)

end

end Clean
end Storage

/-- A supply that hands out empty maps and lists only, as long as something holds of it, which then holds still. -/
structure Supply.Sound (supply : Supply σ) (keeps : σ → Prop) : Prop where
  properties : keeps spare → (supply.takeProperties spare).1 = [] ∧ keeps (supply.takeProperties spare).2
  items : keeps spare → (supply.takeItems spare).1 = [] ∧ keeps (supply.takeItems spare).2

namespace Parse.Lockstep

/-- A parser that reuses what is kept, beside one that keeps nothing. -/
def reusing (keeps : σ → Prop) : Lockstep σ Unit where
  Related p q := p.tokens = q.tokens ∧ keeps p.spare
  Allowed _ := True
  Shared _ := True
  Spoilt _ := False
  same related := congrArg Tokens.tokens related.1
  behind related _ := ⟨congrArg (fun tokens => Tokens.mk _ tokens.last) related.1, related.2⟩
  reads related read := ⟨related.1 ▸ read, trivial⟩
  unread related read := .inr ⟨related.1 ▸ read, trivial⟩
  faults _ _ := trivial
  entered _ _ _ _ := .inr fun _ _ _ => trivial

theorem reusing_supplied {supply : Supply σ} (sound : supply.Sound keeps) :
    (reusing keeps).Supplied supply .fresh where
  properties {p q} related := by
    obtain ⟨new, left⟩ := sound.properties related.2
    exact ⟨[], _, _, Prod.ext new rfl, rfl, List.forall_mem_nil _, related.1, left⟩
  items {p q} related := by
    obtain ⟨new, left⟩ := sound.items related.2
    exact ⟨[], _, _, Prod.ext new rfl, rfl, List.forall_mem_nil _, related.1, left⟩

end Parse.Lockstep

namespace Storage

/-- Gives up some of what is kept: so many maps, item lists and buffers. -/
def forget (storage : Storage) (properties items buffers : Nat) : Storage where
  properties := storage.properties.drop properties
  items := storage.items.drop items
  buffers := storage.buffers.drop buffers

/-- What can be done with storage at hand. Trees may also be built by hand, and storage may give up what it keeps for
reasons of its own. -/
inductive Task where
  | parse (lexer : Lexer)
  | renderTree (node : Node) (settings : Settings)
  | renderValue (value : Value) (settings : Settings)
  | marshal (schema : Schema) (type : Ty) (data : Data) (settings : Settings) (registry : Registry)
  | release (node : Node)
  | newObject
  | insertChild (properties : Properties) (name : String) (child : Node)
  | forget (properties items buffers : Nat)

/-- What a task comes to for the one who asks for it. -/
inductive Reply where
  | tree (result : Except Error Node)
  | output (bytes : List UInt8)
  | marshaled (result : Except Error (List UInt8)) (registry : Registry)
  | properties (properties : Properties)
  | nothing

def serve (storage : Storage) : Task → Reply × Storage
  | .parse lexer =>
    let (result, storage) := storage.parseFrom lexer
    (.tree result, storage)
  | .renderTree node settings =>
    let (bytes, storage) := storage.renderTree node settings
    (.output bytes, storage)
  | .renderValue value settings =>
    let (bytes, storage) := storage.render value settings
    (.output bytes, storage)
  | .marshal schema type data settings registry =>
    let (result, registry, storage) := storage.marshal schema type data settings registry
    (.marshaled result registry, storage)
  | .release node => (.nothing, storage.release node)
  | .newObject =>
    let (properties, storage) := storage.takeProperties
    (.properties properties, storage)
  | .insertChild properties name child =>
    let (properties, storage) := storage.insertChild properties name child
    (.properties properties, storage)
  | .forget properties items buffers => (.nothing, storage.forget properties items buffers)

/-- What a task comes to where there is no storage. -/
def Task.alone : Task → Reply
  | .parse lexer => .tree (Node.ofTokens lexer.tokens)
  | .renderTree node settings => .output (node.render settings)
  | .renderValue value settings => .output (value.render settings)
  | .marshal schema type data settings registry =>
    let (result, registry) := Registry.marshal schema type data settings registry
    .marshaled result registry
  | .release _ => .nothing
  | .newObject => .properties []
  | .insertChild properties name child => .properties (properties.insertChild name child)
  | .forget _ _ _ => .nothing

/-- The storage after a number of tasks, of which the first finds nothing kept. -/
def after (tasks : List Task) : Storage :=
  tasks.foldl (fun storage task => (storage.serve task).2) {}

namespace Clean
variable {storage : Storage}

theorem supply_sound : supply.Sound Clean := ⟨Clean.takeProperties, Clean.takeItems⟩

theorem parseFrom (clean : storage.Clean) (lexer : Lexer) :
    (storage.parseFrom lexer).1 = Node.ofTokens lexer.tokens ∧ (storage.parseFrom lexer).2.Clean := by
  have outcome := Parse.Lockstep.Runs.document (Parse.Lockstep.reusing_supplied supply_sound) ⟨lexer.tokens, storage⟩
    ⟨lexer.tokens, ()⟩ ⟨rfl, clean⟩
  unfold Storage.parseFrom Node.ofTokens
  generalize Parse.document supply ⟨lexer.tokens, storage⟩ = one at outcome
  generalize Parse.document .fresh ⟨lexer.tokens, ()⟩ = other at outcome
  cases outcome with
  | together _ related => exact ⟨rfl, related.2⟩
  | refused _ related => exact ⟨rfl, related.2⟩
  | spoilt spoilt => exact spoilt.elim

theorem renderTree (clean : storage.Clean) (node : Node) (settings : Settings) :
    (storage.renderTree node settings).1 = node.render settings ∧ (storage.renderTree node settings).2.Clean := by
  obtain ⟨new, left⟩ := clean.takeBuffer
  refine ⟨?_, left.giveBuffer _⟩
  unfold Storage.renderTree
  dsimp only
  rw [new, Writer.tree_eq]
  rfl

theorem render (clean : storage.Clean) (value : Value) (settings : Settings) :
    (storage.render value settings).1 = value.render settings ∧ (storage.render value settings).2.Clean := by
  obtain ⟨new, left⟩ := clean.takeBuffer
  refine ⟨?_, left.giveBuffer _⟩
  unfold Storage.render
  dsimp only
  rw [new]
  rfl

/-- What a type has been written into is emptied and kept, also after an error midway. -/
theorem marshal (clean : storage.Clean) (schema : Schema) (type : Ty) (data : Data) (settings : Settings)
    (registry : Registry) :
    ((storage.marshal schema type data settings registry).1, (storage.marshal schema type data settings registry).2.1) =
        Registry.marshal schema type data settings registry ∧
      (storage.marshal schema type data settings registry).2.2.Clean := by
  obtain ⟨new, left⟩ := clean.takeBuffer
  unfold Storage.marshal Registry.marshal Schema.marshal
  dsimp only
  rw [new]
  cases schema.marshalWith type data settings #[] registry with
  | ok a state => exact ⟨rfl, left.giveBuffer _⟩
  | error e state => exact ⟨rfl, left.giveBuffer _⟩

theorem insertChild (clean : storage.Clean) (properties : Properties) (name : String) (child : Node) :
    (storage.insertChild properties name child).1 = properties.insertChild name child ∧
      (storage.insertChild properties name child).2.Clean := by
  obtain ⟨new, left⟩ := clean.takeItems
  unfold Storage.insertChild
  split
  · exact ⟨rfl, clean⟩
  · exact ⟨rfl, clean⟩
  · dsimp only
    rw [new]
    exact ⟨rfl, left⟩

theorem forget (clean : storage.Clean) (properties items buffers : Nat) :
    (storage.forget properties items buffers).Clean where
  properties := clean.properties.drop properties
  items := clean.items.drop items
  buffers := clean.buffers.drop buffers

/-- A task comes to what it comes to without storage, and leaves storage clean. -/
theorem serve (clean : storage.Clean) (task : Task) :
    (storage.serve task).1 = task.alone ∧ (storage.serve task).2.Clean := by
  cases task with
  | parse lexer => exact (clean.parseFrom lexer).imp_left (congrArg Reply.tree)
  | renderTree node settings => exact (clean.renderTree node settings).imp_left (congrArg Reply.output)
  | renderValue value settings => exact (clean.render value settings).imp_left (congrArg Reply.output)
  | marshal schema type data settings registry =>
    exact (clean.marshal schema type data settings registry).imp_left
      (congrArg fun given : Except Error (List UInt8) × Registry => Reply.marshaled given.1 given.2)
  | release node => exact ⟨rfl, Clean.release node clean⟩
  | newObject => exact clean.takeProperties.imp_left (congrArg Reply.properties)
  | insertChild properties name child =>
    exact (clean.insertChild properties name child).imp_left (congrArg Reply.properties)
  | forget properties items buffers => exact ⟨rfl, clean.forget properties items buffers⟩

theorem after (tasks : List Task) : (Storage.after tasks).Clean := by
  have run (tasks : List Task) {storage : Storage} (clean : storage.Clean) :
      (tasks.foldl (fun storage task => (storage.serve task).2) storage).Clean := by
    induction tasks generalizing storage with
    | nil => exact clean
    | cons task rest ih => exact ih (clean.serve task).2
  exact run tasks empty

end Clean

/-- Reuse never shows. After any tasks, whether they succeeded or failed, and whatever trees were released, all that is
kept is empty, there are at most 256 maps, 256 item lists and 32 buffers of it, and the next task comes to what it
comes to where nothing is kept, which is what it comes to without storage. -/
theorem reuse_never_shows (tasks : List Task) :
    (∀ properties ∈ (after tasks).properties, properties = []) ∧
      (∀ items ∈ (after tasks).items, items = []) ∧
      (∀ buffer ∈ (after tasks).buffers, buffer = #[]) ∧
      (after tasks).properties.length ≤ 256 ∧ (after tasks).items.length ≤ 256 ∧ (after tasks).buffers.length ≤ 32 ∧
      ∀ task, ((after tasks).serve task).1 = (({} : Storage).serve task).1 ∧
        (({} : Storage).serve task).1 = task.alone := by
  have clean := Clean.after tasks
  refine ⟨clean.properties.clean, clean.items.clean, clean.buffers.clean, clean.properties.bounded, clean.items.bounded,
    clean.buffers.bounded, fun task => ⟨?_, (Clean.empty.serve task).1⟩⟩
  rw [(clean.serve task).1, (Clean.empty.serve task).1]

/-- The tree of `<a><b/><b/></a>` leaves three maps, of which the next document takes one. -/
example :
    let tree : Node := .object [("b", .array [.object [] .start, .object [] .start] .start)] .start
    (after [.release tree]).properties = [[], [], []] ∧
      (after [.release tree, .parse (.ofBytes (Text.bytes "<c/>"))]).properties = [[], []] :=
  ⟨rfl, rfl⟩

end Storage

end XmlBinding
