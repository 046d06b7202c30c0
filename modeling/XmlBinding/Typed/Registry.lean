import XmlBinding.Typed.Plan

/-! The registry keeps what has been worked out about types: how values of a type are written, and the plans
of records. When a routine is asked for that is not there, it is built in one session together with the
routines for all types that its values can lead to, what a dynamic value holds excepted. A type may lead back to
itself, so a type that is met again while its routine is being built is linked to a stub, which is told the
routine once it is there. -/
namespace XmlBinding

/-- How the values of one type are written, with a link to the routine of every type inside it. -/
inductive Routine (ρ : Type) where
  | scalar
  | pointer (target : ρ)
  | dynamic
  | native
  | record (form : RecordForm ρ)
  | map (value : ρ)
  /-- A map that cannot be written, for its keys are not text. -/
  | keyedMap (key : Ty)
  /-- A sequence or an array. -/
  | items (element : ρ)
  | custom (name : String)
  | unsupported
deriving DecidableEq, Repr

namespace Routine

/-- The links to other routines. -/
def links : Routine ρ → List ρ
  | pointer target => [target]
  | record form => form.children.map (·.link)
  | map value => [value]
  | items element => [element]
  | _ => []

/-- Makes a link to something else of every link, in their order. -/
def mapM [Monad m] (f : ρ → m τ) : Routine ρ → m (Routine τ)
  | scalar => return scalar
  | pointer target => return pointer (← f target)
  | dynamic => return dynamic
  | native => return native
  | record form => do
    let children ← form.children.mapM fun child => return ⟨child.toPlannedField, ← f child.link⟩
    return record { form with children }
  | map value => return map (← f value)
  | keyedMap key => return keyedMap key
  | items element => return items (← f element)
  | custom name => return custom name
  | unsupported => return unsupported

end Routine

/-- How the values of a type are written, linked to nothing but the types inside it. -/
def Schema.routine (schema : Schema) : Ty → Routine Ty
  | .scalar _ => .scalar
  | .option target => .pointer target
  | .box target => .pointer target
  | .dynamic => .dynamic
  | .native => .native
  | .record name => .record (schema.plan name).form
  | .map _ key value => if key = .string then .map value else .keyedMap key
  | .sequence element => .items element
  | .array element _ => .items element
  | .custom name => .custom name
  | .unsupported _ => .unsupported

/-- The types whose values are written on the way. -/
def Schema.needs (schema : Schema) (type : Ty) : List Ty :=
  (schema.routine type).links

/-- A type and the types that it is made of. -/
def Ty.parts : Ty → List Ty
  | type@(.option target) => type :: target.parts
  | type@(.box target) => type :: target.parts
  | type@(.map _ _ value) => type :: value.parts
  | type@(.sequence element) => type :: element.parts
  | type@(.array element _) => type :: element.parts
  | type => [type]

/-- All types that a type can lead to, some of them more than once. -/
def Schema.typesFrom (schema : Schema) (type : Ty) : List Ty :=
  type.parts ++ schema.records.flatMap fun (_, record) => record.fields.flatMap (·.type.parts)

/-- A routine with the type whose values it writes. -/
structure Encoder (ρ : Type) where
  type : Ty
  routine : Routine ρ
deriving DecidableEq, Repr

instance : Inhabited (Encoder ρ) := ⟨⟨.unsupported "", .unsupported⟩⟩

/-- What leads to an encoder: the place where it is kept, or a stub for one that was not there yet. -/
inductive Link where
  | built (address : Nat)
  | stub (type : Ty) (cell : Nat)
deriving DecidableEq, Repr

/-- All encoders that were ever built, and the stubs that were handed out. A stub has a cell, which is empty until
the stub is told the address of its encoder. -/
structure Memory where
  encoders : Array (Encoder Link) := #[]
  cells : Nat := 0
  told : List (Nat × Nat) := []
deriving DecidableEq, Repr

namespace Memory

/-- The encoder at an address. -/
def encoder (memory : Memory) (address : Nat) : Encoder Link :=
  memory.encoders[address]!

/-- Keeps an encoder at an address of its own. -/
def add (memory : Memory) (encoder : Encoder Link) : Nat × Memory :=
  (memory.encoders.size, { memory with encoders := memory.encoders.push encoder })

/-- Makes a cell for a stub. -/
def newCell (memory : Memory) : Nat × Memory :=
  (memory.cells, { memory with cells := memory.cells + 1 })

/-- Tells a stub where its encoder is, unless it has been told before. -/
def tell (memory : Memory) (cell address : Nat) : Memory :=
  if (memory.told.lookup cell).isSome then memory
  else { memory with told := (cell, address) :: memory.told }

end Memory

/-- The encoders of types by their addresses, and the plans of records. -/
structure Registry where
  routines : List (Ty × Nat) := []
  plans : Keyed Plan := []
  memory : Memory := {}
deriving DecidableEq, Repr

/-- A session in which routines are built that a registry does not have. -/
structure Session where
  base : Registry
  memory : Memory
  routines : List (Ty × Nat) := []
  plans : Keyed Plan := []
  /-- The cells of the stubs for types whose routines are being built. -/
  pending : List (Ty × Nat) := []
deriving DecidableEq, Repr

namespace Session

/-- A session on top of a registry. -/
def start (base : Registry) : Session :=
  { base, memory := base.memory }

def routine? (session : Session) (type : Ty) : Option Nat :=
  (session.base.routines.lookup type).or (session.routines.lookup type)

def plan? (session : Session) (name : String) : Option Plan :=
  (session.base.plans.get? name).or (session.plans.get? name)

/-- The plan of a record, made if it is not there. -/
def plan (schema : Schema) (name : String) (session : Session) : Plan × Session :=
  match session.plan? name with
  | some plan => (plan, session)
  | none =>
    let plan := schema.plan name
    (plan, { session with plans := session.plans.put name plan })

/-- A link to the encoder of a type that has been built or is being built. -/
def link? (session : Session) (type : Ty) : Option Link :=
  match session.routine? type with
  | some address => some (.built address)
  | none => (session.pending.lookup type).map (.stub type)

/-- Makes a stub for a type whose routine is now being built. -/
def begin (type : Ty) (session : Session) : Nat × Session :=
  let (cell, memory) := session.memory.newCell
  (cell, { session with memory, pending := (type, cell) :: session.pending })

/-- Works out how the values of a type are written. -/
def outline (schema : Schema) (type : Ty) (session : Session) : Routine Ty × Session :=
  match type with
  | .record name =>
    let (plan, session) := session.plan schema name
    (.record plan.form, session)
  | type => (schema.routine type, session)

/-- Keeps a routine that has been built, and tells it to the stubs for it. -/
def finish (type : Ty) (cell : Nat) (routine : Routine Link) (session : Session) : Link × Session :=
  let (address, memory) := session.memory.add ⟨type, routine⟩
  (.built address, { session with
    memory := memory.tell cell address
    pending := session.pending.filter (·.1 ≠ type)
    routines := (type, address) :: session.routines })

/-- A link to the encoder of a type, which is built if it is not there. Building one may go so many types deep
into another. -/
def link (schema : Schema) (depth : Nat) (type : Ty) : StateM Session Link := do
  match (← get).link? type with
  | some link => return link
  | none =>
    let cell ← modifyGet (·.begin type)
    match depth with
    | 0 => return .stub type cell
    | depth + 1 =>
      let routine ← modifyGet (·.outline schema type)
      let routine ← routine.mapM (link schema depth)
      modifyGet (·.finish type cell routine)

/-- The registry with all that was built in a session. -/
def publish (session : Session) : Registry where
  routines := session.routines ++ session.base.routines
  plans := session.plans.foldl (fun plans entry => plans.put entry.1 entry.2) session.base.plans
  memory := session.memory

end Session

namespace Registry

def routine? (registry : Registry) (type : Ty) : Option Nat :=
  registry.routines.lookup type

/-- A link to the encoder of a type. If it is not there, it is built with all that it needs; no more types are
inside each other than a type can lead to. -/
def link (schema : Schema) (type : Ty) (registry : Registry) : Link × Registry :=
  match registry.routine? type with
  | some address => (.built address, registry)
  | none =>
    let depth := (schema.typesFrom type).length
    let (link, session) := (Session.link schema depth type).run (.start registry)
    (link, session.publish)

/-- The plan of a record, made and kept if it is not there. -/
def plan (schema : Schema) (name : String) (registry : Registry) : Plan × Registry :=
  match registry.plans.get? name with
  | some plan => (plan, registry)
  | none =>
    let plan := schema.plan name
    (plan, { registry with plans := registry.plans.put name plan })

/-- Whether the encoder at an address is kept for some type. -/
def holds (registry : Registry) (address : Nat) : Bool :=
  registry.routines.any (·.2 == address)

/-- The encoder that a link leads to. A stub by itself does not keep the encoder that it was told. -/
def follow (schema : Schema) (registry : Registry) : Link → Except Error (Encoder Link)
  | .built address => .ok (registry.memory.encoder address)
  | .stub type cell =>
    match (registry.memory.told.lookup cell).filter registry.holds with
    | some address => .ok (registry.memory.encoder address)
    | none => .error (.unresolved (schema.typeName type))

/-- How many types a registry knows how to write, and how many plans it keeps. -/
def describe (registry : Registry) : String :=
  .join ["Registry \x7b encoders: ", toString registry.routines.length, ", plans: ",
    toString registry.plans.length, " \x7d"]

end Registry

/-- What writing and reading ask about types, of whatever keeps the answers. -/
class Directory (σ : Type) (ρ : outParam Type) where
  /-- A link to the encoder of a type. -/
  link : Schema → Ty → σ → ρ × σ
  /-- The encoder that a link leads to. -/
  follow : Schema → σ → ρ → Except Error (Encoder ρ)
  /-- The plan of a record. -/
  plan : Schema → String → σ → Plan × σ

instance : Directory Registry Link where
  link := Registry.link
  follow := Registry.follow
  plan := Registry.plan

end XmlBinding
