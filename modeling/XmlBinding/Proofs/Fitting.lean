import XmlBinding.Proofs.Whole

/-! Values that have the form of an element: under every key stands what the writer makes markup of there. What was
read from a document is one of them, and the order of entries makes no difference. -/
namespace XmlBinding
open Text Grammar

namespace Value

/-- What may stand under a key, by what children may be. -/
inductive Stands (fitting : Value → Prop) : String → Value → Prop where
  | named (marked : attributeOfKey? key = some tag) (name : IsName tag.toList) (body : String) :
      Stands fitting key (.string body)
  | text (body : String) : Stands fitting textKey (.string body)
  | cdata (body : String) : Stands fitting cdataKey (.string body)
  | child (name : IsName key.toList) (fits : fitting value) : Stands fitting key value

/-- What may be a child, in a list of children or alone. -/
inductive Fitting : (inList : Bool) → Value → Prop where
  | string (text : String) : Fitting inList (.string text)
  | map (each : ∀ entry ∈ entries, Stands (Fitting false) entry.1 entry.2) : Fitting inList (.map entries)
  | list (each : ∀ item ∈ items, Fitting true item) : Fitting false (.list items)

mutual

/-- How deep the elements nest that a value is written as. -/
def depth : Value → Nat
  | string _ => 1
  | map entries => entriesDepth entries + 1
  | list items => itemsDepth items

def entriesDepth : List (String × Value) → Nat
  | [] => 0
  | (key, value) :: rest => if isChildKey key then max (depth value) (entriesDepth rest) else entriesDepth rest

def itemsDepth : List Value → Nat
  | [] => 0
  | item :: rest => max (depth item) (itemsDepth rest)

end

theorem Stands.attribute_named (stands : Stands p key value) (found : attributeOfKey? key = some tag) :
    IsName tag.toList := by
  cases stands with
  | named marked name body =>
    obtain rfl := Option.some.inj (marked.symm.trans found)
    exact name
  | text => cases (show attributeOfKey? textKey = none by decide).symm.trans found
  | cdata => cases (show attributeOfKey? cdataKey = none by decide).symm.trans found
  | child name =>
    have child := name.isChildKey
    rw [attributeKey_of_attributeOfKey? found, isChildKey_attributeKey] at child
    cases child

theorem Stands.attributes_named {entries : Entries} (each : ∀ entry ∈ entries, Stands p entry.1 entry.2) :
    ∀ written ∈ entries.attributes, IsName written.1.toList := by
  intro written member
  obtain ⟨entry, held, same⟩ := List.mem_flatMap.1 member
  split at same
  · rename_i found _
    rw [List.mem_singleton.1 same]
    exact (each entry held).attribute_named found
  · cases same

/-- Under the key of a child stands a child. -/
theorem Stands.name_fits (stands : Stands p key value) (child : isChildKey key = true) :
    IsName key.toList ∧ p value := by
  cases stands with
  | named marked =>
    rw [attributeKey_of_attributeOfKey? marked, isChildKey_attributeKey] at child
    cases child
  | text => cases (show isChildKey textKey = false by decide).symm.trans child
  | cdata => cases (show isChildKey cdataKey = false by decide).symm.trans child
  | child name fits => exact ⟨name, fits⟩

theorem Stands.canonical (stands : Stands p key value) (each : p value → p value.canonical) :
    Stands p key value.canonical := by
  cases stands with
  | named marked name body => exact .named marked name body
  | text body => exact .text body
  | cdata body => exact .cdata body
  | child name fits => exact .child name (each fits)

theorem stands_canonical {entries : Entries} (each : ∀ entry ∈ entries, Stands p entry.1 entry.2)
    (inside : ∀ entry ∈ entries, p entry.2 → p entry.2.canonical) :
    ∀ entry ∈ (canonicalEntries entries).sort, Stands p entry.1 entry.2 := by
  rw [canonicalEntries_eq_map, Keyed.sort_map]
  intro entry member
  obtain ⟨old, held, rfl⟩ := List.mem_map.1 member
  have held := (Keyed.sort_perm entries).mem_iff.1 held
  exact (each old held).canonical (inside old held)

mutual

theorem fitting_canonical : ∀ (value : Value) {inList : Bool}, Fitting inList value → Fitting inList value.canonical
  | .string text, _, _ => .string text
  | .map entries, _, .map each => .map (stands_canonical each (entries_fitting_canonical entries))
  | .list items, _, .list each => .list (items_fitting_canonical items each)

theorem entries_fitting_canonical : ∀ entries : List (String × Value),
    ∀ entry ∈ entries, Fitting false entry.2 → Fitting false entry.2.canonical
  | [] => List.forall_mem_nil _
  | (_, value) :: rest => List.forall_mem_cons.2 ⟨fitting_canonical value, entries_fitting_canonical rest⟩

theorem items_fitting_canonical : ∀ items : List Value, (∀ item ∈ items, Fitting true item) →
    ∀ item ∈ canonicalItems items, Fitting true item
  | [], _ => List.forall_mem_nil _
  | item :: rest, each =>
    have here := List.forall_mem_cons.1 each
    List.forall_mem_cons.2 ⟨fitting_canonical item here.1, items_fitting_canonical rest here.2⟩

end

/-- The elements that some entries hold nest no deeper than each of the children does. -/
theorem entriesDepth_le {entries : Keyed Value} :
    entriesDepth entries ≤ n ↔ ∀ entry ∈ entries, isChildKey entry.1 = true → entry.2.depth ≤ n := by
  induction entries with
  | nil => simp [entriesDepth]
  | cons entry rest ih =>
    rw [entriesDepth, List.forall_mem_cons, ← ih]
    split
    · rename_i child
      rw [Nat.max_le, forall_prop_of_true child]
    · rename_i child
      exact ⟨fun rest => ⟨fun same => absurd same child, rest⟩, And.right⟩

theorem itemsDepth_le {items : List Value} : itemsDepth items ≤ n ↔ ∀ item ∈ items, item.depth ≤ n := by
  induction items with
  | nil => simp [itemsDepth]
  | cons item rest ih => rw [itemsDepth, Nat.max_le, ih, List.forall_mem_cons]

theorem entriesDepth_sort (entries : Keyed Value) : entriesDepth entries.sort = entriesDepth entries := by
  refine Nat.le_antisymm ?_ ?_ <;> refine entriesDepth_le.2 fun entry member => ?_
  · exact entriesDepth_le.1 (Nat.le_refl _) entry ((Keyed.sort_perm entries).mem_iff.1 member)
  · exact entriesDepth_le.1 (Nat.le_refl _) entry ((Keyed.sort_perm entries).mem_iff.2 member)

mutual

/-- The order of entries makes no difference to the depth. -/
theorem depth_canonical : ∀ value : Value, value.canonical.depth = value.depth
  | string _ => rfl
  | map entries => by rw [canonical, depth, depth, entriesDepth_sort, entriesDepth_canonical entries]
  | list items => itemsDepth_canonical items

theorem entriesDepth_canonical : ∀ entries : List (String × Value),
    entriesDepth (canonicalEntries entries) = entriesDepth entries
  | [] => rfl
  | (key, value) :: rest => by
    rw [canonicalEntries, entriesDepth, entriesDepth, depth_canonical value, entriesDepth_canonical rest]

theorem itemsDepth_canonical : ∀ items : List Value, itemsDepth (canonicalItems items) = itemsDepth items
  | [] => rfl
  | item :: rest => by rw [canonicalItems, itemsDepth, itemsDepth, depth_canonical item, itemsDepth_canonical rest]

end

theorem Distinct.canonical {value : Value} (distinct : value.Distinct) : value.canonical.Distinct := by
  induction distinct with
  | string text => exact .string text
  | map keys each ih =>
    rw [Value.canonical, canonicalEntries_eq_map, Keyed.sort_map]
    refine .map (keys.sort.values _) fun entry member => ?_
    obtain ⟨old, held, rfl⟩ := List.mem_map.1 member
    exact ih old ((Keyed.sort_perm _).mem_iff.1 held)
  | list each ih =>
    rw [Value.canonical, canonicalItems_eq_map]
    refine .list fun item member => ?_
    obtain ⟨old, held, rfl⟩ := List.mem_map.1 member
    exact ih old held

theorem Holds.stands (holds : Holds p key value) (each : ∀ value, p value → ∀ inList, Fitting inList value) :
    Stands (Fitting false) key value := by
  cases holds with
  | named marked name body => exact .named marked name body
  | text => exact .text _
  | cdata body => exact .cdata body
  | child name alone => exact .child name (each _ alone false)
  | children name several all => exact .child name (.list fun item held => each item (all item held) true)

theorem Holds.depth_le (holds : Holds p key value) (child : isChildKey key = true)
    (each : ∀ value, p value → value.depth ≤ n) :
    value.depth ≤ n := by
  cases holds with
  | named marked =>
    rw [attributeKey_of_attributeOfKey? marked, isChildKey_attributeKey] at child
    cases child
  | text => cases (show isChildKey textKey = false by decide).symm.trans child
  | cdata => cases (show isChildKey cdataKey = false by decide).symm.trans child
  | child name alone => exact each _ alone
  | children name several all => exact itemsDepth_le.2 fun item held => each item (all item held)

/-- What was read has the form of an element. -/
theorem Whole.fitting (whole : Whole levels value) (inList : Bool) : Fitting inList value := by
  induction levels generalizing value inList with
  | zero => cases whole
  | succ levels ih =>
    obtain ⟨entries, rfl, -, each⟩ := whole
    exact .map fun entry member => (each entry member).stands fun value => ih

theorem Whole.depth_le (whole : Whole levels value) : value.depth ≤ levels := by
  induction levels generalizing value with
  | zero => cases whole
  | succ levels ih =>
    obtain ⟨entries, rfl, -, each⟩ := whole
    rw [depth]
    exact Nat.succ_le_succ (entriesDepth_le.2 fun entry member child => (each entry member).depth_le child fun _ => ih)

end Value

end XmlBinding
