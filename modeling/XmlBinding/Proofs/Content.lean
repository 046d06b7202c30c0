import Mathlib.Data.List.Perm.Subperm
import Mathlib.Tactic.TFAE
import XmlBinding.Proofs.Canonical

/-! What there is to be seen of a value. The entries of a map come in some order, but that says nothing: a map is what
it has under each key. Equality of trees and of native values, each with a recursion of its own, is equality of
content; so it is an equivalence, it does not see positions, and it agrees with the canonical form. -/
namespace XmlBinding

/-- What there is to be seen of a value. -/
inductive Value.Content where
  | string (text : String)
  /-- A map, by what it has under each key. -/
  | map (under : String → Option Content)
  | list (items : List Content)

namespace Keyed

/-- Of two collections of one size, with no key twice, neither has more keys than the other. -/
theorem keys_of_length {a : Keyed α} {b : Keyed β} (distinct : a.Distinct) (sizes : a.length = b.length)
    (inside : ∀ key ∈ a.keys, key ∈ b.keys) : ∀ key ∈ b.keys, key ∈ a.keys := by
  intro key member
  have sub : a.keys.Subperm b.keys := List.subperm_of_subset distinct inside
  have lengths : b.keys.length ≤ a.keys.length := by simp [keys, sizes]
  exact (sub.perm_of_length_le lengths).mem_iff.2 member

end Keyed

namespace Value

mutual

def content : Value → Content
  | string text => .string text
  | map entries => .map (contentUnder entries)
  | list items => .list (contentItems items)

/-- The content of what stands under a key. -/
def contentUnder : List (String × Value) → String → Option Content
  | [], _ => none
  | (k, value) :: rest, key => if key = k then some (content value) else contentUnder rest key

def contentItems : List Value → List Content
  | [] => []
  | item :: rest => content item :: contentItems rest

end

theorem contentUnder_eq (entries : Entries) (key : String) :
    contentUnder entries key = (entries.get? key).map content := by
  induction entries with
  | nil => rfl
  | cons entry rest ih =>
    rw [contentUnder, Keyed.get?_cons, ih]
    split <;> rfl

theorem contentItems_eq_map (items : List Value) : contentItems items = items.map content := by
  induction items with
  | nil => rfl
  | cons item rest ih => exact congrArg (_ :: ·) ih

theorem content_map_iff {a b : Entries} :
    (map a).content = (map b).content ↔ ∀ key, (a.get? key).map content = (b.get? key).map content := by
  simp only [content, Content.map.injEq, funext_iff, contentUnder_eq]

theorem content_list_iff {a b : List Value} :
    (list a).content = (list b).content ↔ a.map content = b.map content := by
  simp only [content, Content.list.injEq, contentItems_eq_map]

/-- What stands under a key of a map stands under it in every map of the same content. -/
theorem found_of_content {a b : Entries} {value : Value} (same : (map a).content = (map b).content)
    (found : a.get? key = some value) : ∃ other, b.get? key = some other ∧ value.content = other.content := by
  have there := content_map_iff.1 same key
  rw [found] at there
  obtain ⟨other, found', here⟩ := Option.map_eq_some_iff.1 there.symm
  exact ⟨other, found', here.symm⟩

theorem keys_of_content {a b : Entries} (same : (map a).content = (map b).content) (key : String) :
    key ∈ a.keys ↔ key ∈ b.keys := by
  rw [← Keyed.get?_isSome_iff, ← Keyed.get?_isSome_iff]
  have there := congrArg Option.isSome (content_map_iff.1 same key)
  rw [Option.isSome_map, Option.isSome_map] at there
  rw [there]

theorem eq_string_of_content {text : String} {value : Value} (same : (string text).content = value.content) :
    value = string text := by
  cases value <;> cases same
  rfl

theorem string?_of_content {a b : Value} (same : a.content = b.content) : a.string? = b.string? := by
  cases a with
  | string text => rw [eq_string_of_content same]
  | map | list =>
    cases b with
    | string => cases same
    | map | list => rfl

/-- A value is empty by its content. -/
theorem isEmpty_of_content {a b : Value} (same : a.content = b.content) : a.isEmpty = b.isEmpty := by
  cases a with
  | string text => rw [eq_string_of_content same]
  | map entries =>
    cases b with
    | string | list => cases same
    | map entries' =>
      have keys := keys_of_content same
      cases entries with
      | nil =>
        cases entries' with
        | nil => rfl
        | cons entry rest => exact absurd ((keys entry.1).2 List.mem_cons_self) List.not_mem_nil
      | cons entry rest =>
        cases entries' with
        | nil => exact absurd ((keys entry.1).1 List.mem_cons_self) List.not_mem_nil
        | cons => rfl
  | list items =>
    cases b with
    | string | map => cases same
    | list items' =>
      have lengths := congrArg List.length (content_list_iff.1 same)
      rw [List.length_map, List.length_map] at lengths
      rw [isEmpty, isEmpty, Bool.eq_iff_iff, List.isEmpty_iff_length_eq_zero, List.isEmpty_iff_length_eq_zero, lengths]

theorem eq_map_of_content {entries : Entries} {value : Value} (same : (map entries).content = value.content) :
    ∃ entries' : Entries, value = map entries' := by
  cases value with
  | map entries' => exact ⟨entries', rfl⟩
  | string | list => cases same

/-- There is one map without entries only. -/
theorem eq_nothing_of_content {value : Value} (same : (map []).content = value.content) : value = map [] := by
  obtain ⟨entries, rfl⟩ := eq_map_of_content same
  rw [List.isEmpty_iff.1 (isEmpty_of_content same).symm]

/-- The text of a value is a part of its content. -/
theorem text_of_content {a b : Value} (same : a.content = b.content) : a.text = b.text := by
  cases a with
  | string text => rw [eq_string_of_content same]
  | list items =>
    cases b with
    | string | map => cases same
    | list => rfl
  | map entries =>
    cases b with
    | string | list => cases same
    | map entries' =>
      have found := content_map_iff.1 same
      have either (key other : String) : ((Keyed.get? entries key).or (Keyed.get? entries other)).map content =
          ((Keyed.get? entries' key).or (Keyed.get? entries' other)).map content := by
        rw [Option.map_or, Option.map_or, found, found]
      have strings {x y : Option Value} (same : x.map content = y.map content) : x.bind string? = y.bind string? := by
        cases x with
        | none => rw [Option.map_eq_none_iff.1 same.symm]
        | some value =>
          obtain ⟨other, rfl, equal⟩ := Option.map_eq_some_iff.1 same.symm
          exact string?_of_content equal.symm
      exact congrArg (Option.getD · "") (strings (either textKey cdataKey))

/-- Values of one content have one canonical form. -/
theorem canonical_of_content (distinct : Distinct a) (distinct' : Distinct b) (same : a.content = b.content) :
    a.canonical = b.canonical := by
  induction distinct generalizing b with
  | string text =>
    cases distinct' with
    | string => cases same; rfl
    | map | list => cases same
  | @map entries keys each ih =>
    cases distinct' with
    | string | list => cases same
    | @map entries' keys' each' =>
      rw [canonical, canonical, canonicalEntries_eq_map, canonicalEntries_eq_map]
      refine congrArg map (Keyed.sort_eq_of_get? (keys.values _) (keys'.values _) fun key => ?_)
      rw [Keyed.get?_map, Keyed.get?_map]
      have under := content_map_iff.1 same key
      cases found : entries.get? key with
      | none =>
        rw [found] at under
        rw [Option.map_eq_none_iff.1 under.symm]
      | some value =>
        obtain ⟨other, found', here⟩ := found_of_content same found
        rw [found', Option.map_some, Option.map_some,
          ih _ (Keyed.mem_of_get? found) (each' _ (Keyed.mem_of_get? found')) here]
  | @list items each ih =>
    cases distinct' with
    | string | map => cases same
    | @list items' each' =>
      rw [canonical, canonical, canonicalItems_eq_map, canonicalItems_eq_map]
      refine congrArg list ?_
      have under := content_list_iff.1 same
      clear same each
      induction items generalizing items' with
      | nil => rw [List.map_eq_nil_iff.1 under.symm]
      | cons item rest ihRest =>
        cases items' with
        | nil => cases under
        | cons item' rest' =>
          obtain ⟨first, others⟩ := List.cons.inj under
          obtain ⟨here, later⟩ := List.forall_mem_cons.1 ih
          obtain ⟨here', later'⟩ := List.forall_mem_cons.1 each'
          rw [List.map_cons, List.map_cons, here here' first, ihRest later later' others]

theorem content_of_sameItems {items items' : List Value}
    (each : ∀ item ∈ items, ∀ other, Distinct other → same item other = true → item.content = other.content)
    (distinct : ∀ item ∈ items', Distinct item) (equal : sameItems items items' = true) :
    items.map content = items'.map content := by
  induction items generalizing items' with
  | nil =>
    cases items' with
    | nil => rfl
    | cons => cases equal
  | cons item rest ih =>
    cases items' with
    | nil => cases equal
    | cons item' rest' =>
      rw [sameItems, Bool.and_eq_true] at equal
      obtain ⟨here, later⟩ := List.forall_mem_cons.1 each
      obtain ⟨here', later'⟩ := List.forall_mem_cons.1 distinct
      rw [List.map_cons, List.map_cons, here _ here' equal.1, ih later later' equal.2]

/-- Equal values have the same content. Equality goes through the entries of the first map only; that the second has
no others is known by counting. -/
theorem content_of_same (distinct : Distinct a) (distinct' : Distinct b) (equal : same a b = true) :
    a.content = b.content := by
  induction distinct generalizing b with
  | string text =>
    cases distinct' with
    | string => rw [same, beq_iff_eq] at equal; rw [equal]
    | map | list => cases equal
  | @map entries keys each ih =>
    cases distinct' with
    | string | list => cases equal
    | @map entries' keys' each' =>
      rw [same, Bool.and_eq_true, beq_iff_eq, sameEntries_eq_all, List.all_eq_true] at equal
      obtain ⟨sizes, inside⟩ := equal
      have found {entry : String × Value} (member : entry ∈ entries) :
          ∃ other, Keyed.get? entries' entry.1 = some other ∧ entry.2.content = other.content := by
        have here := inside entry member
        obtain ⟨other, there, equal⟩ := (Option.any_eq_true _ _).1 here
        exact ⟨other, there, ih entry member (each' _ (Keyed.mem_of_get? there)) equal⟩
      refine content_map_iff.2 fun key => ?_
      cases here : Keyed.get? entries key with
      | some value =>
        obtain ⟨other, there, equal⟩ := found (Keyed.mem_of_get? here)
        rw [there, Option.map_some, Option.map_some, equal]
      | none =>
        have inside : ∀ key ∈ Keyed.keys entries, key ∈ Keyed.keys entries' := by
          intro key member
          obtain ⟨entry, held, rfl⟩ := List.mem_map.1 member
          obtain ⟨other, there, -⟩ := found held
          exact Keyed.get?_isSome_iff.1 (Option.isSome_of_eq_some there)
        have none : key ∉ Keyed.keys entries' := by
          intro member
          exact Keyed.get?_eq_none_iff.1 here (Keyed.keys_of_length keys sizes inside key member)
        rw [Keyed.get?_eq_none_iff.2 none]
  | list each ih =>
    cases distinct' with
    | string | map => cases equal
    | list each' => exact content_list_iff.2 (content_of_sameItems ih each' equal)

/-- Equal values are those of the same content. -/
theorem same_iff_content (distinct : Distinct a) (distinct' : Distinct b) :
    same a b = true ↔ a.content = b.content := by
  constructor
  · exact content_of_same distinct distinct'
  · intro equal
    exact same_of_canonical distinct distinct' (canonical_of_content distinct distinct' equal)

end Value

namespace Node

mutual

/-- A tree is compared with a native value by its content. -/
theorem matchesValue_eq : ∀ (node : Node) (value : Value), node.matchesValue value = node.toValue.same value
  | object properties _, .map entries => by
    rw [matchesValue, toValue, Value.same, matchesEntries_eq properties entries, toEntries_eq_map properties,
      List.length_map]
  | literal _ _, .string _ => rfl
  | array items _, .list values => matchesItems_eq items values
  | object _ _, .string _ => rfl
  | object _ _, .list _ => rfl
  | literal _ _, .map _ => rfl
  | literal _ _, .list _ => rfl
  | array _ _, .string _ => rfl
  | array _ _, .map _ => rfl

theorem matchesEntries_eq : ∀ (properties : List (String × Node)) (entries : List (String × Value)),
    matchesEntries properties entries = Value.sameEntries (toEntries properties) entries
  | [], _ => rfl
  | (key, node) :: rest, entries => by
    rw [matchesEntries, toEntries, Value.sameEntries, matchesEntries_eq rest entries]
    cases entries.lookup key with
    | none => rfl
    | some value => exact congrArg (· && _) (matchesValue_eq node value)

theorem matchesItems_eq : ∀ (items : List Node) (values : List Value),
    matchesItems items values = Value.sameItems (toItems items) values
  | [], [] => rfl
  | [], _ :: _ => rfl
  | _ :: _, [] => rfl
  | node :: rest, value :: values => by
    rw [matchesItems, toItems, Value.sameItems, matchesValue_eq node value, matchesItems_eq rest values]

end

mutual

/-- The tree with all positions forgotten. -/
def unplaced : Node → Node
  | object properties _ => object (unplacedProperties properties) .start
  | literal value _ => literal value .start
  | array items _ => array (unplacedItems items) .start

def unplacedProperties : List (String × Node) → List (String × Node)
  | [] => []
  | (key, node) :: rest => (key, node.unplaced) :: unplacedProperties rest

def unplacedItems : List Node → List Node
  | [] => []
  | node :: rest => node.unplaced :: unplacedItems rest

end

mutual

/-- Positions are no part of the content. -/
theorem toValue_unplaced : ∀ node : Node, node.unplaced.toValue = node.toValue
  | object properties _ => congrArg Value.map (toEntries_unplaced properties)
  | literal _ _ => rfl
  | array items _ => congrArg Value.list (toItems_unplaced items)

theorem toEntries_unplaced : ∀ properties : List (String × Node),
    toEntries (unplacedProperties properties) = toEntries properties
  | [] => rfl
  | (key, node) :: rest => by
    rw [unplacedProperties, toEntries, toEntries, toValue_unplaced node, toEntries_unplaced rest]

theorem toItems_unplaced : ∀ items : List Node, toItems (unplacedItems items) = toItems items
  | [] => rfl
  | node :: rest => by rw [unplacedItems, toItems, toItems, toValue_unplaced node, toItems_unplaced rest]

end

/-- No key occurs twice, neither in the tree nor in anything that it holds. -/
def Distinct (node : Node) : Prop := node.toValue.Distinct

theorem equal_iff_content {a b : Node} (distinct : a.Distinct) (distinct' : b.Distinct) :
    (a == b) = true ↔ a.toValue.content = b.toValue.content := by
  rw [show (a == b) = same a b from rfl, same_eq]
  exact Value.same_iff_content distinct distinct'

/-- Trees that differ in positions only are compared alike. -/
theorem toValue_of_unplaced {moved node : Node} (same : moved.unplaced = node.unplaced) :
    moved.toValue = node.toValue := by
  rw [← toValue_unplaced moved, same, toValue_unplaced]

/-- Trees are equal exactly when their contents are, so equality is an equivalence, and it does not see positions. A
tree is equal to a native value, from either side, exactly when the value is what the tree holds. -/
theorem equality_by_content {a b c : Node} {value : Value} (distinctA : a.Distinct) (distinctB : b.Distinct)
    (distinctC : c.Distinct) (distinct : value.Distinct) :
    [(a == b) = true, (a.toValue == b.toValue) = true, a.toValue.content = b.toValue.content].TFAE ∧
      ((a == a) = true ∧ ((a == b) = true → (b == a) = true) ∧
        ((a == b) = true → (b == c) = true → (a == c) = true)) ∧
      (∀ moved : Node, moved.unplaced = a.unplaced → (moved == b) = (a == b) ∧ (b == moved) = (b == a) ∧
        moved.matchesValue value = a.matchesValue value) ∧
      [a.matchesValue value = true, value.matchesNode a = true, (a.toValue == value) = true,
        a.toValue.content = value.content].TFAE := by
  refine ⟨?_, ⟨?_, ?_, ?_⟩, ?_, ?_⟩
  · have trees := equal_iff_content distinctA distinctB
    have values : (a.toValue == b.toValue) = true ↔ _ := Value.same_iff_content distinctA distinctB
    tfae_have 1 ↔ 3 := trees
    tfae_have 2 ↔ 3 := values
    tfae_finish
  · exact (equal_iff_content distinctA distinctA).2 rfl
  · intro equal
    exact (equal_iff_content distinctB distinctA).2 ((equal_iff_content distinctA distinctB).1 equal).symm
  · intro first second
    have left := (equal_iff_content distinctA distinctB).1 first
    have right := (equal_iff_content distinctB distinctC).1 second
    exact (equal_iff_content distinctA distinctC).2 (left.trans right)
  · intro moved same
    have content := toValue_of_unplaced same
    change Node.same moved b = Node.same a b ∧ Node.same b moved = Node.same b a ∧ _
    rw [same_eq, same_eq, same_eq, same_eq, matchesValue_eq, matchesValue_eq, content]
    exact ⟨rfl, rfl, rfl⟩
  · have values : (a.toValue == value) = true ↔ _ := Value.same_iff_content distinctA distinct
    have mixed : a.matchesValue value = (a.toValue == value) := matchesValue_eq a value
    have swapped : value.matchesNode a = a.matchesValue value := rfl
    tfae_have 1 ↔ 3 := by rw [mixed]
    tfae_have 2 ↔ 1 := by rw [swapped]
    tfae_have 3 ↔ 4 := values
    tfae_finish

/-- Properties in another order and at other positions. -/
theorem equality_by_content_reordered :
    let a : Node := .object [("@x", .literal "1" ⟨3, 1, 4⟩), ("y", .array [.object [] ⟨9, 2, 1⟩] ⟨9, 2, 1⟩)] ⟨0, 1, 1⟩
    let b : Node := .object [("y", .array [.object [] .start] .start), ("@x", .literal "1" .start)] .start
    let value : Value := .map [("y", .list [.map []]), ("@x", .string "1")]
    a.Distinct ∧ b.Distinct ∧ value.Distinct ∧ (a == b) = true ∧ (b == a) = true ∧
      a.toValue.content = b.toValue.content ∧ value.matchesNode a = true ∧ a.toValue.content = value.content := by
  intro a b value
  have inner : (Value.list [.map []]).Distinct :=
    .list (List.forall_mem_singleton.2 .nothing)
  have distinct : value.Distinct := .pair (by decide) inner (.string _)
  have distinctA : a.Distinct := Value.Distinct.pair (by decide) (.string _) inner
  have distinctB : b.Distinct := distinct
  obtain ⟨trees, ⟨-, swap, -⟩, -, mixed⟩ := equality_by_content distinctA distinctB distinctB distinct
  have equal : (a == b) = true := by decide
  have matched : a.matchesValue value = true := by decide
  exact ⟨distinctA, distinctB, distinct, equal, swap equal, (trees.out 0 2).1 equal, (mixed.out 0 1).1 matched,
    (mixed.out 0 3).1 matched⟩

end Node

end XmlBinding
