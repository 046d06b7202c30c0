import XmlBinding.Proofs.Content
import XmlBinding.Proofs.Fitting
import XmlBinding.Proofs.InUse
import XmlBinding.Proofs.Naming

/-! Output does not depend on the order of entries. Equal values have one canonical form and so one rendering, and a
tree is written like the value of its content though it is never made into one. Of a typed value, only what its maps
hold under each key is written, in the order of the keys; errors are met in this order too. -/
namespace XmlBinding

namespace Writer

theorem children_eq_foldl (w : Writer) (entries : Entries) :
    w.children entries = (entries.filter fun entry => isChildKey entry.1).foldl
      (fun w entry => w.element entry.1 entry.2) w := by
  induction entries generalizing w with
  | nil => rfl
  | cons entry rest ih =>
    rw [children, ih, List.filter_cons]
    split <;> rfl

theorem putTreeAttributes_eq (w : Writer) (properties : Properties) : w.putTreeAttributes properties =
    w.putAttributes (properties.map fun entry => (entry.1, entry.2.toValue.canonical)) := by
  rw [putTreeAttributes, putAttributes, List.foldl_map]
  congr 1
  funext w entry
  obtain ⟨key, _ | _ | _⟩ := entry <;> dsimp only [Node.toValue, Value.canonical] <;> cases attributeOfKey? key <;> rfl

theorem putTreeCharacters_eq (w : Writer) (properties : Properties) : w.putTreeCharacters properties =
    w.putCharacters (properties.map fun entry => (entry.1, entry.2.toValue.canonical)) := by
  have found (key : String) : Keyed.get? (properties.map fun entry => (entry.1, entry.2.toValue.canonical)) key =
      (properties.get? key).map fun node => node.toValue.canonical :=
    Keyed.get?_map (fun node : Node => node.toValue.canonical) properties key
  rw [putTreeCharacters, putCharacters, found, found]
  rcases properties.get? textKey with _ | (_ | _ | _) <;> rcases properties.get? cdataKey with _ | (_ | _ | _) <;> rfl

mutual

/-- A tree is written like the value of its content. -/
theorem tree_eq : ∀ (node : Node) (name : String) (w : Writer), tree node name w = w.value name node.toValue
  | .literal text _, name, w => rfl
  | .array items _, name, w => treeItems_eq items name w
  | .object properties _, name, w => by
    have sorted : (Value.canonicalEntries (Node.toEntries properties)).sort =
        (Keyed.sort properties).map fun entry => (entry.1, entry.2.toValue.canonical) := by
      rw [Value.canonicalEntries_eq_map, Node.toEntries_eq_map, List.map_map]
      exact Keyed.sort_map (fun node : Node => node.toValue.canonical) properties
    have children : (treeProperties properties).sort =
        (Keyed.sort properties).map fun entry =>
          (entry.1, fun (name : String) (w : Writer) => w.value name entry.2.toValue) := by
      rw [treeProperties_eq properties]
      exact Keyed.sort_map (fun (node : Node) (name : String) (w : Writer) => w.value name node.toValue) properties
    rw [tree, value, Node.toValue, Value.canonical, element, sorted, putTreeAttributes_eq, putTreeCharacters_eq,
      children_eq_foldl, children]
    simp only [List.filter_map, List.foldl_map, Function.comp_def, value]

theorem treeProperties_eq : ∀ properties : List (String × Node),
    treeProperties properties = properties.map fun entry => (entry.1, fun name w => w.value name entry.2.toValue)
  | [] => rfl
  | (key, node) :: rest => by
    rw [treeProperties, treeProperties_eq rest, show tree node = fun name w => w.value name node.toValue from
      funext fun name => funext fun w => tree_eq node name w]
    rfl

theorem treeItems_eq : ∀ (items : List Node) (name : String) (w : Writer),
    treeItems items name w = w.elements name (Value.canonicalItems (Node.toItems items))
  | [], _, _ => rfl
  | item :: rest, name, w => by
    rw [treeItems, tree_eq item name w, treeItems_eq rest name _]
    rfl

end

end Writer

/-- Equal values are rendered alike. -/
theorem Value.render_of_equal {a b : Value} (distinct : a.Distinct) (distinct' : b.Distinct) (equal : (a == b) = true)
    (settings : Settings) : a.render settings = b.render settings := by
  have content := (same_iff_content distinct distinct').1 equal
  rw [render, render, Writer.value, Writer.value, canonical_of_content distinct distinct' content]

namespace Schema

/-- Values of a type that differ in the order of the entries of their maps only. Native values are equal, and values
that are written in a way of their own are written alike. -/
inductive Reordered (schema : Schema) : Ty → Data → Data → Prop where
  | same (type : Ty) (data : Data) : Reordered schema type data data
  | option (inside : Reordered schema target a b) : Reordered schema (.option target) (.present a) (.present b)
  | box (inside : Reordered schema target a b) : Reordered schema (.box target) (.present a) (.present b)
  | dynamic (inside : Reordered schema type a b) : Reordered schema .dynamic (.dynamic type a) (.dynamic type b)
  | native {a b : Value} (distinct : a.Distinct) (distinct' : b.Distinct) (equal : (a == b) = true) :
      Reordered schema .native (.native a) (.native b)
  | record {a b : Keyed Data} (keys : ∀ key, key ∈ a.keys ↔ key ∈ b.keys)
      (each : ∀ field ∈ schema.fields name, ∀ x y, a.get? field.name = some x → b.get? field.name = some y →
        Reordered schema field.type x y) :
      Reordered schema (.record name) (.record a) (.record b)
  | map {a b : Keyed Data} (distinct : a.Distinct) (keys : a.keys.Perm b.keys)
      (each : ∀ key x y, a.get? key = some x → b.get? key = some y → Reordered schema value x y) :
      Reordered schema (.map family keyType value) (.map a) (.map b)
  | sequence {a b : List Data} (lengths : a.length = b.length)
      (each : ∀ (i : Nat) (x y : Data), a[i]? = some x → b[i]? = some y → Reordered schema element x y) :
      Reordered schema (.sequence element) (.list a) (.list b)
  | array {a b : List Data} (lengths : a.length = b.length)
      (each : ∀ (i : Nat) (x y : Data), a[i]? = some x → b[i]? = some y → Reordered schema element x y) :
      Reordered schema (.array element length) (.list a) (.list b)
  | custom (alike : ∀ behaviour, schema.custom name = .ok behaviour →
      ∀ element, behaviour.marshal a element = behaviour.marshal b element) : Reordered schema (.custom name) a b

namespace Reordered
variable {schema : Schema} {type : Ty} {a b : Data}

theorem rootName (reordered : schema.Reordered type a b) (default : String) :
    schema.rootName default type a = schema.rootName default type b := by
  induction reordered with
  | option inside ih => exact ih
  | box inside ih => exact ih
  | dynamic inside ih => exact ih
  | @custom name a b =>
    have plain (data : Data) : schema.rootName default (.custom name) data = default := by cases data <;> rfl
    rw [plain, plain]
  | _ => rfl

theorem isEmpty (reordered : schema.Reordered type a b) : type.isEmpty a = type.isEmpty b := by
  cases reordered with
  | native distinct distinct' equal =>
    exact Value.isEmpty_of_content ((Value.same_iff_content distinct distinct').1 equal)
  | map distinct keys each => exact isEmpty_of_length (by simpa using keys.length_eq)
  | sequence lengths each => exact isEmpty_of_length lengths
  | _ => rfl

theorem textOf (reordered : schema.Reordered type a b) : schema.textOf type a = schema.textOf type b := by
  induction reordered with
  | option inside ih => exact ih
  | box inside ih => exact ih
  | dynamic inside ih => exact ih
  | native distinct distinct' equal =>
    have same := (Value.same_iff_content distinct distinct').1 equal
    rw [Schema.textOf, Schema.textOf, Value.text_of_content same]
  | @custom name a b =>
    have none (data : Data) :
        schema.textOf (.custom name) data = .error (.notText (schema.typeName (.custom name))) := by
      cases data <;> rfl
    rw [none, none]
  | _ => rfl

end Reordered

end Schema

namespace Writing
variable {σ ρ : Type}

theorem forM_congr {α β : Type} {x : α → Writing σ Unit} {y : β → Writing σ Unit} {as : List α} {bs : List β}
    (each : List.Forall₂ (fun a b => x a = y b) as bs) : as.forM x = bs.forM y := by
  induction each with
  | nil => rfl
  | cons here later ih => exact congrArg₂ (fun (first rest : Writing σ Unit) => first >>= fun _ => rest) here ih

/-- A record is written by what its fields are and how each of them is written as an element. -/
theorem record_congr {schema : Schema} (form : RecordForm ρ) {a b : Keyed Data} {x y : Keyed (ElementWriting σ ρ)}
    (texts : ∀ planned, planned ∈ form.attributes ∨ planned ∈ form.characters? ∨ planned ∈ form.cdata? →
      schema.fieldText planned a = schema.fieldText planned b)
    (children : ∀ planned ∈ form.children, child a x planned = child b y planned) (name : String) :
    record schema form a x name = record schema form b y name := by
  have text {planned : PlannedField} (same : schema.fieldText planned a = schema.fieldText planned b)
      (write : String → Writer → Writer) :
      (fieldText schema a planned write : Writing σ Unit) = fieldText schema b planned write := by
    rw [fieldText, fieldText, same]
  have single {planned? : Option PlannedField} (write : String → Writer → Writer)
      (each : ∀ planned ∈ planned?, schema.fieldText planned a = schema.fieldText planned b) :
      (planned?.forM fun planned => (fieldText schema a planned write : Writing σ Unit)) =
        planned?.forM fun planned => fieldText schema b planned write := by
    cases planned? with
    | none => rfl
    | some planned => exact text (each planned rfl) write
  rw [record, record, forM_congr (List.forall₂_same.2 fun planned held => text (texts planned (.inl held)) _),
    forM_congr (List.forall₂_same.2 children),
    single _ fun planned held => texts planned (.inr (.inl held)),
    single _ fun planned held => texts planned (.inr (.inr held))]

/-- A map is written by how the values under its keys are written, in whatever order they are. -/
theorem map_congr {value : ρ} {x y : Keyed (ElementWriting σ ρ)} (distinct : x.Distinct) (distinct' : y.Distinct)
    (each : ∀ key, (x.get? key).map (· value) = (y.get? key).map (· value)) (name : String) :
    map value x name = map value y name := by
  let written (write : ElementWriting σ ρ) : String → Writing σ Unit := write value
  have sorted : (x.sort.map fun entry => (entry.1, written entry.2)) =
      y.sort.map fun entry => (entry.1, written entry.2) := by
    rw [← Keyed.sort_map, ← Keyed.sort_map]
    refine Keyed.sort_eq_of_get? (distinct.values _) (distinct'.values _) fun key => ?_
    rw [Keyed.get?_map, Keyed.get?_map]
    exact each key
  have pairs : List.Forall₂ Eq (x.sort.map fun entry => (entry.1, written entry.2))
      (y.sort.map fun entry => (entry.1, written entry.2)) := sorted ▸ List.forall₂_refl _
  rw [List.forall₂_map_left_iff, List.forall₂_map_right_iff] at pairs
  have entries : List.Forall₂ (fun one other => entry value one.1 one.2 = entry value other.1 other.2)
      x.sort y.sort := by
    refine pairs.imp fun one other same => ?_
    obtain ⟨keys, writings⟩ := Prod.mk.inj same
    dsimp only [entry]
    rw [keys, show one.2 value = other.2 value from writings]
  rw [map, map, forM_congr entries]

/-- Whoever asks for a type goes on with this very type. -/
theorem request_congr {schema : Schema} {type : Ty} {x y : Ty → Writing Demand Unit} (same : x type = y type) :
    (request schema type >>= x) = request schema type >>= y :=
  funext fun state =>
    congrFun same ⟨{ state.registry with requested := state.registry.requested ++ [type] }, state.writer⟩

theorem items_congr {element : ρ} {name : String} {x y : List (ElementWriting σ ρ)}
    (each : List.Forall₂ (fun write write' => write element name = write' element name) x y) (index : Nat) :
    items element name index x = items element name index y := by
  induction each generalizing index with
  | nil => rfl
  | cons here later ih => rw [items, items, here, ih]

end Writing

/-- Collections of the same keys hold something under a key both or neither. -/
theorem Keyed.get?_or {a : Keyed α} {b : Keyed β} (keys : ∀ key, key ∈ a.keys ↔ key ∈ b.keys) (key : String) :
    (a.get? key = none ∧ b.get? key = none) ∨ ∃ x y, a.get? key = some x ∧ b.get? key = some y := by
  have same := keys key
  rw [← get?_isSome_iff, ← get?_isSome_iff] at same
  cases here : a.get? key with
  | none =>
    rw [here] at same
    exact .inl ⟨rfl, Option.not_isSome_iff_eq_none.1 fun there => Bool.noConfusion (same.2 there)⟩
  | some x =>
    rw [here] at same
    obtain ⟨y, there⟩ := Option.isSome_iff_exists.1 (same.1 rfl)
    exact .inr ⟨x, y, rfl, there⟩

namespace Schema.Reordered
variable {schema : Schema} {type : Ty} {a b : Data}

/-- What two records have in a field, or that they have nothing there. -/
theorem slot {record : String} {a b : Keyed Data}
    (reordered : schema.Reordered (.record record) (.record a) (.record b)) {field : Field}
    (member : field ∈ schema.fields record) (default : Data) :
    schema.Reordered field.type ((a.get? field.name).getD default) ((b.get? field.name).getD default) := by
  cases reordered with
  | same => exact .same _ _
  | record keys each =>
    rcases Keyed.get?_or keys field.name with ⟨none, none'⟩ | ⟨x, y, found, found'⟩
    · simp only [none, none']
      exact .same _ _
    · simp only [found, found']
      exact each field member x y found found'

theorem keys_record {record : String} {a b : Keyed Data}
    (reordered : schema.Reordered (.record record) (.record a) (.record b)) (key : String) :
    key ∈ a.keys ↔ key ∈ b.keys := by
  cases reordered with
  | same => rfl
  | record keys each => exact keys key

/-- What two maps hold under each key. -/
theorem under {value : Ty} {a b : Keyed Data} (reordered : schema.Reordered (.map family key value) (.map a) (.map b)) :
    (∀ name, name ∈ a.keys ↔ name ∈ b.keys) ∧
      ∀ name x y, a.get? name = some x → b.get? name = some y → schema.Reordered value x y := by
  cases reordered with
  | same =>
    refine ⟨fun _ => .rfl, fun name x y found found' => ?_⟩
    cases found.symm.trans found'
    exact .same _ _
  | map distinct keys each => exact ⟨fun name => keys.mem_iff, each⟩

/-- What two arrays hold in each place. -/
theorem places {element : Ty} {a b : List Data}
    (reordered : schema.Reordered (.array element length) (.list a) (.list b)) :
    a.length = b.length ∧
      ∀ (i : Nat) (x y : Data), a[i]? = some x → b[i]? = some y → schema.Reordered element x y := by
  cases reordered with
  | same =>
    refine ⟨rfl, fun i x y found found' => ?_⟩
    cases found.symm.trans found'
    exact .same _ _
  | array lengths each => exact ⟨lengths, each⟩

theorem fieldText {record : String} {a b : Keyed Data}
    (reordered : schema.Reordered (.record record) (.record a) (.record b)) {planned : PlannedField}
    (member : planned ∈ (schema.plan record).fields) : schema.fieldText planned a = schema.fieldText planned b := by
  have same := reordered.slot (mem_plan.1 member).1 .absent
  simp only [Schema.fieldText, same.isEmpty, same.textOf]

theorem child {record : String} {a b : Keyed Data}
    (reordered : schema.Reordered (.record record) (.record a) (.record b)) (keys : ∀ key, key ∈ a.keys ↔ key ∈ b.keys)
    {planned : PlannedField} (member : planned ∈ (schema.plan record).fields)
    (written : ∀ x y, a.get? planned.field.name = some x → b.get? planned.field.name = some y →
      (schema.write x planned.field.type : String → Writing Demand Unit) = schema.write y planned.field.type) :
    (Writing.child a (schema.writeEntries a) ⟨planned, planned.field.type⟩ : Writing Demand Unit) =
      Writing.child b (schema.writeEntries b) ⟨planned, planned.field.type⟩ := by
  have same := reordered.slot (mem_plan.1 member).1 .absent
  unfold Writing.child
  simp only [writeEntries_eq_map, Keyed.get?_map, same.isEmpty]
  split
  · rfl
  · rcases Keyed.get?_or keys planned.field.name with ⟨none, none'⟩ | ⟨x, y, found, found'⟩
    · simp only [none, none', Option.map_none]
    · simp only [found, found', Option.map_some, written x y found found']

theorem items {element : Ty} {a b : List Data} (lengths : a.length = b.length)
    (written : ∀ (i : Nat) (x y : Data), a[i]? = some x → b[i]? = some y →
      (schema.write x element : String → Writing Demand Unit) = schema.write y element) (name : String) :
    (Writing.items element name 0 (schema.writeItems a) : Writing Demand Unit) =
      Writing.items element name 0 (schema.writeItems b) := by
  rw [writeItems_eq_map, writeItems_eq_map]
  refine Writing.items_congr ?_ 0
  rw [List.forall₂_map_left_iff, List.forall₂_map_right_iff, List.forall₂_iff_get]
  refine ⟨lengths, fun i here there => ?_⟩
  exact congrFun (written i _ _ (List.getElem?_eq_getElem here) (List.getElem?_eq_getElem there)) name

/-- Values that differ in the order of entries only are written alike. -/
theorem write (reordered : schema.Reordered type a b) :
    (schema.write a type : String → Writing Demand Unit) = schema.write b type := by
  induction reordered with
  | same => rfl
  | option inside ih => exact ih
  | box inside ih => exact ih
  | @dynamic content a b inside ih =>
    funext name
    show (Writing.request schema content >>= fun link : Ty => schema.write a link name : Writing Demand Unit) =
      Writing.request schema content >>= fun link : Ty => schema.write b link name
    exact Writing.request_congr (congrFun ih name)
  | @native x y distinct distinct' equal =>
    have same := Value.canonical_of_content distinct distinct' ((Value.same_iff_content distinct distinct').1 equal)
    have written (value : Value) (name : String) : (schema.write (.native value) .native name : Writing Demand Unit) =
        Writing.put fun w => w.element name value.canonical := rfl
    funext name
    rw [written, written, same]
  | @record record a b keys each ih =>
    have reordered : schema.Reordered (.record record) (.record a) (.record b) := .record keys each
    funext name
    refine Writing.record_congr (schema.plan record).form ?_ (fun child held => ?_) name
    · rintro planned (held | held | held)
      · exact reordered.fieldText (Plan.mem_attributes.1 held).1
      · exact reordered.fieldText (Plan.mem_characters held).1
      · exact reordered.fieldText (Plan.mem_cdata held).1
    · obtain ⟨planned, member, rfl⟩ := List.mem_map.1 held
      have member := (Plan.mem_withRole.1 member).1
      exact reordered.child keys member (ih _ (mem_plan.1 member).1)
  | @map value family key a b distinct keys each ih =>
    funext name
    by_cases textual : key = .string
    · subst textual
      rw [write_map, write_map, writeEntries_eq_map, writeEntries_eq_map]
      have distinct' : b.Distinct := (keys.nodup_iff).1 distinct
      refine Writing.map_congr (distinct.values _) (distinct'.values _) (fun key => ?_) name
      rw [Keyed.get?_map, Keyed.get?_map]
      rcases Keyed.get?_or (fun key => keys.mem_iff) key with ⟨none, none'⟩ | ⟨x, y, found, found'⟩
      · rw [none, none']
      · rw [found, found']
        exact congrArg some (ih key x y found found')
    · show (schema.writeBy ⟨_, schema.routine (.map family key value)⟩ _ _ name : Writing Demand Unit) =
        schema.writeBy ⟨_, schema.routine (.map family key value)⟩ _ _ name
      rw [routine_keyedMap schema family value textual]
      rfl
  | sequence lengths each ih => exact funext fun name => items lengths ih name
  | array lengths each ih => exact funext fun name => items lengths ih name
  | @custom custom a b alike =>
    have marshaled (data : Data) (name : String) : (schema.write data (.custom custom) name : Writing Demand Unit) =
        Writing.ofExcept (schema.custom custom) >>= fun behaviour =>
          Writing.ofExcept (behaviour.marshal data name) >>= fun xml => Writing.put (·.raw xml) := by
      cases data <;> rfl
    funext name
    rw [marshaled, marshaled]
    cases found : schema.custom custom with
    | error => rfl
    | ok behaviour =>
      show (Writing.ofExcept (behaviour.marshal a name) >>= _ : Writing Demand Unit) = _
      rw [alike behaviour found]
      rfl

end Schema.Reordered

/-- Output does not depend on the order of entries. Equal values are rendered alike, and so are equal trees, and a tree
and a value that are equal; the writing of a tree as it stands gives what the rendering of its value gives. Typed values
that differ in the order of entries only give the same output or the same error, whatever is known about types. -/
theorem output_ignores_order :
    (∀ (a b : Value) (settings : Settings), a.Distinct → b.Distinct → (a == b) = true →
      a.render settings = b.render settings) ∧
    (∀ (a b : Node) (settings : Settings), a.Distinct → b.Distinct → (a == b) = true →
      a.render settings = b.render settings) ∧
    (∀ (node : Node) (value : Value) (settings : Settings), node.Distinct → value.Distinct →
      node.matchesValue value = true → node.render settings = value.render settings) ∧
    (∀ (node : Node) (settings : Settings), node.render settings = node.toValue.render settings ∧
      (Writer.tree node settings.rootTag { layout? := settings.layout? }).finish = node.render settings) ∧
    ∀ (schema : Schema) (registry registry' : Registry) (type : Ty) (a b : Data) (settings : Settings),
      registry.Coherent schema → registry'.Coherent schema → schema.Reordered type a b →
        (registry.marshal schema type a settings).1 = (registry'.marshal schema type b settings).1 := by
  refine ⟨fun a b settings distinct distinct' equal => ?_, fun a b settings distinct distinct' equal => ?_,
    fun node value settings distinct distinct' equal => ?_, fun node settings => ⟨rfl, ?_⟩,
    fun schema registry registry' type a b settings coherent coherent' reordered => ?_⟩
  · exact Value.render_of_equal distinct distinct' equal settings
  · have values : (a.toValue == b.toValue) = true := by
      rwa [show (a == b) = Node.same a b from rfl, Node.same_eq] at equal
    exact Value.render_of_equal distinct distinct' values settings
  · rw [Node.matchesValue_eq] at equal
    exact Value.render_of_equal distinct distinct' equal settings
  · rw [Writer.tree_eq]
    rfl
  · have root (name : String) : (schema.writeRoot type a name : Writing Demand Unit) = schema.writeRoot type b name :=
      Writing.request_congr (congrFun reordered.write name)
    rw [(coherent.marshal type a settings).1, (coherent'.marshal type b settings).1]
    simp only [Schema.marshal, Schema.marshalWith, reordered.rootName, root]

/-- Attributes and children in both orders, in a tree, in a value and under the two bad keys of a map. -/
theorem output_ignores_order_reversed :
    let one : Value := .map [("@x", .string "1"), ("b", .list [.map [], .string "2"])]
    let other : Value := .map [("b", .list [.map [], .string "2"]), ("@x", .string "1")]
    let tree : Node := .object [("b", .array [.object [] .start, .literal "2" ⟨3, 1, 4⟩] .start),
      ("@x", .literal "1" ⟨1, 1, 2⟩)] .start
    let type : Ty := .map "HashMap" .string .native
    let schema : Schema := { records := [], customs := [], typeName := fun _ => "" }
    one.render {} = other.render {} ∧ tree.render {} = one.render {} ∧
      (({} : Registry).marshal schema type (.map [("b c", .native one), ("a b", .native one)]) {}).1 =
        (({} : Registry).marshal schema type (.map [("a b", .native other), ("b c", .native one)]) {}).1 := by
  intro one other tree type schema
  have inner : (Value.list [.map [], .string "2"]).Distinct :=
    .list (List.forall_mem_cons.2 ⟨.nothing, List.forall_mem_singleton.2 (.string _)⟩)
  have distinct : one.Distinct := .pair (by decide) (.string _) inner
  have distinct' : other.Distinct := .pair (by decide) inner (.string _)
  have equal : (one == other) = true := by decide
  obtain ⟨values, -, mixed, -, typed⟩ := output_ignores_order
  have reordered : schema.Reordered type (.map [("b c", .native one), ("a b", .native one)])
      (.map [("a b", .native other), ("b c", .native one)]) := by
    refine .map (List.nodup_iff_pairwise_ne.2 (by decide)) (.swap _ _ _) fun key x y found found' => ?_
    have member := Keyed.mem_of_get? found
    simp only [List.mem_cons, List.not_mem_nil, or_false, Prod.mk.injEq] at member
    rcases member with ⟨rfl, rfl⟩ | ⟨rfl, rfl⟩
    · cases found'
      exact .same _ _
    · cases found'
      exact .native distinct distinct' equal
  exact ⟨values one other {} distinct distinct' equal, mixed tree one {} distinct' distinct (by decide),
    typed schema {} {} type _ _ {} (Registry.empty_coherent _) (Registry.empty_coherent _) reordered⟩

end XmlBinding
