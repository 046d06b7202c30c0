import XmlBinding.Proofs.Agreement
import XmlBinding.Proofs.Reusing

/-! Children of one name. Children may be added to an object by hand, in any order of names, while storage is at work
for others. Under each name that the object did not use it then holds the children that came under it, all of them in
their order, and what else it held is left. A child that is added to an object and to its content leaves the one with
the content of the other. -/
namespace XmlBinding

/-- What goes on while children are added to an object: one of them is, or storage is used for something else. -/
inductive Building where
  | child (name : String) (node : Node)
  | meanwhile (task : Storage.Task)

/-- The children that are added, each under its name, in the order in which they come. -/
def Building.children : List Building → Keyed Node
  | [] => []
  | .child name node :: rest => (name, node) :: children rest
  | .meanwhile _ :: rest => children rest

/-- What stands under a key is left when entries come under other keys. -/
theorem Keyed.get?_insertAll_absent {join : α → α → α} {entries more : Keyed α} (absent : key ∉ more.keys) :
    (insertAll join entries more).get? key = entries.get? key := by
  rw [get?_insertAll, under_eq_nil.2 absent]
  rfl

/-- Under a name that was free the children that came under it are gathered. -/
theorem Properties.get?_insertAll_free {properties : Properties} {children : Keyed Node} (free : name ∉ properties.keys)
    (plain : ∀ child ∈ children.under name, child.items? = none) :
    (Keyed.insertAll (Node.coalesce []) properties children).get? name = Node.gathered (children.under name) := by
  rw [Keyed.get?_insertAll, Keyed.get?_eq_none_iff.2 free, Node.joinOnto_coalesce _ plain]

/-- A map to which the contents of children are added holds the content of the object to which the children are. -/
theorem Node.toEntries_insertAll (properties : Properties) (children : Keyed Node) :
    toEntries (Keyed.insertAll (coalesce []) properties children) =
      Keyed.insertAll Value.coalesce (toEntries properties) (toEntries children) := by
  simp only [toEntries_eq_map]
  exact Keyed.map_insertAll toValue toValue_coalesce properties children

namespace Storage

/-- The properties of an object to which children are added, with lists from storage, and the storage that is left. -/
def build (storage : Storage) (properties : Properties) : List Building → Properties × Storage
  | [] => (properties, storage)
  | .child name node :: rest =>
    let (properties, storage) := storage.insertChild properties name node
    storage.build properties rest
  | .meanwhile task :: rest => (storage.serve task).2.build properties rest

/-- The children are added one after another, whatever storage is used for in between. -/
theorem Clean.build {storage : Storage} (clean : storage.Clean) (properties : Properties) (steps : List Building) :
    (storage.build properties steps).1 =
        Keyed.insertAll (Node.coalesce []) properties (Building.children steps) ∧
      (storage.build properties steps).2.Clean := by
  induction steps generalizing storage properties with
  | nil => exact ⟨rfl, clean⟩
  | cons step rest ih =>
    cases step with
    | child name node =>
      obtain ⟨added, left⟩ := clean.insertChild properties name node
      rw [Storage.build]
      dsimp only
      rw [added]
      exact ih left _
    | meanwhile task => exact ih (clean.serve task).2 properties

/-- Nothing is lost, doubled or put in another order when children of one name come together. After any tasks, and
with others in between, a name that an object did not use holds nothing, the only child or an array of all children
that were added under it, in their order; every other key holds what it held, and no key comes twice. The content
of the object is what the contents of the children come to in a map, and so it is when any child, be it an array, is
added to any object. -/
theorem build_gathers (tasks : List Task) :
    (∀ (properties : Properties) (steps : List Building),
      let children := Building.children steps
      let built := ((after tasks).build properties steps).1
      (∀ name, name ∉ properties.keys → (∀ child ∈ children.under name, child.items? = none) →
        built.get? name = Node.gathered (children.under name)) ∧
      (∀ key, key ∉ children.keys → built.get? key = properties.get? key) ∧
      (properties.Distinct → Keyed.Distinct built) ∧
      Node.toEntries built = (Node.toEntries children).foldl
        (fun entries child => Entries.insertChild entries child.1 child.2) (Node.toEntries properties)) ∧
    ∀ (properties : Properties) (name : String) (child : Node) (place : Position),
      (Node.object ((after tasks).insertChild properties name child).1 place).toValue =
        .map (Entries.insertChild (Node.toEntries properties) name child.toValue) := by
  have clean := Clean.after tasks
  constructor
  · intro properties steps children built
    have added : built = Keyed.insertAll (Node.coalesce []) properties children := (clean.build properties steps).1
    rw [added]
    exact ⟨fun name free plain => Properties.get?_insertAll_free free plain,
      fun key absent => Keyed.get?_insertAll_absent absent, fun distinct => distinct.insertAll _ _,
      Node.toEntries_insertAll properties children⟩
  · intro properties name child place
    rw [(clean.insertChild properties name child).1, Node.toValue, Node.toEntries_insertChild]

/-- Children of two names in turn, beside an attribute. A tree is released before, which leaves a list for the array
that the second child makes, and another one between them. -/
theorem build_gathers_in_turn :
    let literal (text : String) : Node := .literal text .start
    let tree : Node := .array [literal "x", literal "y"] .start
    let properties : Properties := [("@id", literal "7")]
    let steps : List Building := [.child "c" (literal "1"), .child "d" (literal "2"), .meanwhile (.release tree),
      .child "c" (literal "3"), .meanwhile .newObject, .child "c" (literal "4")]
    let built := ((after [.release tree]).build properties steps).1
    "c" ∉ properties.keys ∧ (∀ child ∈ (Building.children steps).under "c", child.items? = none) ∧
      built.get? "c" = some (.array [literal "1", literal "3", literal "4"] .start) ∧
      built.get? "d" = some (literal "2") ∧ built.get? "e" = none ∧ built.get? "@id" = some (literal "7") ∧
      Keyed.Distinct built := by
  intro literal tree properties steps built
  obtain ⟨gathers, keeps, distinct, -⟩ := (build_gathers [.release tree]).1 properties steps
  have plain : ∀ child ∈ (Building.children steps).under "c", child.items? = none := by decide
  refine ⟨by decide, plain, gathers "c" (by decide) plain, gathers "d" (by decide) (by decide),
    gathers "e" (by decide) (by decide), keeps "@id" (by decide), distinct (List.nodup_singleton _)⟩

end Storage

end XmlBinding
