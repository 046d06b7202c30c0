import XmlBinding.Document.Equality
import XmlBinding.Native.Convert
import XmlBinding.Proofs.Keyed

/-! One order for every collection. Sorting keeps the entries of a collection and puts collections that agree under
every key in the same order; so values that have the same canonical form are equal, and so are trees with such
contents. -/
namespace XmlBinding

namespace Keyed

/-- The keys do not decrease. -/
def Sorted (entries : Keyed α) : Prop := entries.Pairwise fun a b => a.1 ≤ b.1

theorem insertSorted_perm (entry : String × α) (entries : Keyed α) :
    (insertSorted entry entries).Perm (entry :: entries) := by
  induction entries with
  | nil => exact .refl _
  | cons other rest ih =>
    rw [insertSorted]
    split
    · exact .refl _
    · exact (ih.cons other).trans (.swap entry other rest)

theorem sort_perm (entries : Keyed α) : entries.sort.Perm entries := by
  induction entries with
  | nil => exact .refl _
  | cons entry rest ih => exact (insertSorted_perm entry (sort rest)).trans (ih.cons entry)

theorem insertSorted_sorted {entry : String × α} {entries : Keyed α} (sorted : Sorted entries) :
    Sorted (insertSorted entry entries) := by
  induction entries with
  | nil => exact List.pairwise_singleton _ _
  | cons other rest ih =>
    obtain ⟨least, sorted'⟩ := List.pairwise_cons.1 sorted
    rw [insertSorted]
    split
    · rename_i below
      refine List.pairwise_cons.2 ⟨List.forall_mem_cons.2 ⟨below, ?_⟩, sorted⟩
      exact fun later member => String.le_trans below (least later member)
    · rename_i above
      refine List.pairwise_cons.2 ⟨fun later member => ?_, ih sorted'⟩
      rcases List.mem_cons.1 ((insertSorted_perm entry rest).mem_iff.1 member) with rfl | member
      · exact (String.le_total _ _).resolve_left above
      · exact least later member

theorem sort_sorted (entries : Keyed α) : Sorted entries.sort := by
  induction entries with
  | nil => exact List.Pairwise.nil
  | cons entry rest ih => exact insertSorted_sorted ih

/-- What is sorted stays as it is. -/
theorem sort_of_sorted {entries : Keyed α} (sorted : Sorted entries) : entries.sort = entries := by
  induction entries with
  | nil => rfl
  | cons entry rest ih =>
    obtain ⟨least, sorted⟩ := List.pairwise_cons.1 sorted
    rw [sort, ih sorted]
    cases rest with
    | nil => rfl
    | cons other rest => rw [insertSorted, if_pos (least other List.mem_cons_self)]

/-- The keys increase. -/
def Ascending (entries : Keyed α) : Prop := entries.Pairwise fun a b => a.1 < b.1

theorem Ascending.distinct {entries : Keyed α} (ascending : entries.Ascending) : entries.Distinct := by
  rw [Distinct, keys, List.nodup_iff_pairwise_ne, List.pairwise_map]
  refine ascending.imp fun {a b} less same => ?_
  rw [same] at less
  exact String.lt_irrefl _ less

theorem Ascending.sorted {entries : Keyed α} (ascending : entries.Ascending) : Sorted entries :=
  ascending.imp fun less => (String.le_total _ _).resolve_right (String.not_le.2 less)

theorem get?_place (entries : Keyed α) (key other : String) (value : α) :
    (entries.place key value).get? other = if other = key then some value else entries.get? other := by
  induction entries with
  | nil => exact get?_cons key value [] other
  | cons entry rest ih =>
    obtain ⟨k, old⟩ := entry
    rw [Keyed.place]
    split
    · exact get?_cons key value _ other
    · split
      · rename_i same
        rw [get?_cons, get?_cons, same]
        by_cases here : other = k <;> simp [here]
      · rename_i apart
        rw [get?_cons, get?_cons, ih]
        by_cases here : other = k
        · subst here
          simp [Ne.symm apart]
        · simp [here]

theorem mem_place {entries : Keyed α} {value : α} (member : entry ∈ entries.place key value) :
    entry = (key, value) ∨ entry ∈ entries := by
  induction entries with
  | nil => exact .inl (List.mem_singleton.1 member)
  | cons first rest ih =>
    obtain ⟨k, old⟩ := first
    rw [Keyed.place] at member
    split at member
    · exact List.mem_cons.1 member
    · split at member
      · exact (List.mem_cons.1 member).imp_right (List.mem_cons_of_mem _)
      · rcases List.mem_cons.1 member with here | later
        · exact .inr (here ▸ List.mem_cons_self)
        · exact (ih later).imp_right (List.mem_cons_of_mem _)

/-- A key is placed where it belongs. -/
theorem Ascending.place {entries : Keyed α} (ascending : entries.Ascending) (key : String) (value : α) :
    (entries.place key value).Ascending := by
  induction entries with
  | nil => exact List.pairwise_singleton _ _
  | cons entry rest ih =>
    obtain ⟨k, old⟩ := entry
    obtain ⟨least, ascending'⟩ := List.pairwise_cons.1 ascending
    rw [Keyed.place]
    split
    · rename_i below
      refine List.pairwise_cons.2 ⟨List.forall_mem_cons.2 ⟨below, fun later member => ?_⟩, ascending⟩
      exact String.lt_trans below (least later member)
    · split
      · rename_i same
        subst same
        exact List.pairwise_cons.2 ⟨least, ascending'⟩
      · rename_i above apart
        refine List.pairwise_cons.2 ⟨fun later member => ?_, ih ascending'⟩
        rcases mem_place member with rfl | member
        · exact String.not_le.1 fun below => apart (String.le_antisymm below (String.not_lt.1 above))
        · exact least later member

theorem sort_map (f : α → β) (entries : Keyed α) :
    sort (entries.map fun entry => (entry.1, f entry.2)) = entries.sort.map fun entry => (entry.1, f entry.2) := by
  have insert (entry : String × α) (entries : Keyed α) :
      insertSorted (entry.1, f entry.2) (entries.map fun entry => (entry.1, f entry.2)) =
        (insertSorted entry entries).map fun entry => (entry.1, f entry.2) := by
    induction entries with
    | nil => rfl
    | cons other rest ih =>
      rw [List.map_cons, insertSorted, insertSorted]
      split
      · rfl
      · rw [ih, List.map_cons]
  induction entries with
  | nil => rfl
  | cons entry rest ih => rw [List.map_cons, sort, ih, insert, sort]

theorem Distinct.perm {a b : Keyed α} (distinct : a.Distinct) (perm : a.Perm b) : b.Distinct :=
  (perm.map Prod.fst).nodup distinct

theorem Distinct.sort {entries : Keyed α} (distinct : entries.Distinct) : entries.sort.Distinct :=
  distinct.perm (sort_perm entries).symm

/-- Distinct keys hold the same in any order of the entries. -/
theorem get?_perm {a b : Keyed α} (distinct : a.Distinct) (perm : a.Perm b) (key : String) :
    a.get? key = b.get? key := by
  apply Option.ext
  intro value
  rw [get?_eq_some_iff distinct, get?_eq_some_iff (distinct.perm perm), perm.mem_iff]

theorem get?_sort {entries : Keyed α} (distinct : entries.Distinct) (key : String) :
    entries.sort.get? key = entries.get? key :=
  (get?_perm distinct (sort_perm entries).symm key).symm

/-- Sorted collections with distinct keys are equal if they agree under every key. -/
theorem eq_of_get? {a b : Keyed α} (sorted : Sorted a) (sorted' : Sorted b) (distinct : a.Distinct)
    (distinct' : b.Distinct) (same : ∀ key, a.get? key = b.get? key) : a = b := by
  have perm : a.keys.Perm b.keys := by
    refine (List.perm_ext_iff_of_nodup distinct distinct').2 fun key => ?_
    rw [← get?_isSome_iff, ← get?_isSome_iff, same]
  refine eq_of_keys distinct' (perm.eq_of_pairwise (fun key key' _ _ => String.le_antisymm) ?_ ?_) same
  · exact List.pairwise_map.2 sorted
  · exact List.pairwise_map.2 sorted'

theorem sort_eq_of_get? {a b : Keyed α} (distinct : a.Distinct) (distinct' : b.Distinct)
    (same : ∀ key, a.get? key = b.get? key) : a.sort = b.sort :=
  eq_of_get? (sort_sorted a) (sort_sorted b) distinct.sort distinct'.sort fun key => by
    rw [get?_sort distinct, get?_sort distinct', same]

end Keyed

namespace Value

theorem canonicalEntries_eq_map (entries : Entries) :
    canonicalEntries entries = entries.map fun entry => (entry.1, entry.2.canonical) := by
  induction entries with
  | nil => rfl
  | cons entry rest ih => exact congrArg (_ :: ·) ih

theorem canonicalEntries_append (first second : Entries) :
    canonicalEntries (first ++ second) = canonicalEntries first ++ canonicalEntries second := by
  rw [canonicalEntries_eq_map, canonicalEntries_eq_map, canonicalEntries_eq_map, List.map_append]

theorem canonicalItems_eq_map (items : List Value) : canonicalItems items = items.map canonical := by
  induction items with
  | nil => rfl
  | cons item rest ih => exact congrArg (_ :: ·) ih

theorem canonicalEntries_sort (entries : Entries) :
    canonicalEntries entries.sort = (canonicalEntries entries).sort := by
  rw [canonicalEntries_eq_map, canonicalEntries_eq_map, Keyed.sort_map]

mutual

/-- The canonical form is its own canonical form. -/
theorem canonical_canonical : ∀ value : Value, value.canonical.canonical = value.canonical
  | string text => rfl
  | map entries => by
    rw [canonical, canonical, canonicalEntries_sort, canonicalEntries_canonicalEntries entries,
      Keyed.sort_of_sorted (Keyed.sort_sorted _)]
  | list items => by rw [canonical, canonical, canonicalItems_canonicalItems items]

theorem canonicalEntries_canonicalEntries :
    ∀ entries : List (String × Value), canonicalEntries (canonicalEntries entries) = canonicalEntries entries
  | [] => rfl
  | (key, value) :: rest => by
    rw [canonicalEntries, canonicalEntries, canonical_canonical value, canonicalEntries_canonicalEntries rest]

theorem canonicalItems_canonicalItems :
    ∀ items : List Value, canonicalItems (canonicalItems items) = canonicalItems items
  | [] => rfl
  | item :: rest => by
    rw [canonicalItems, canonicalItems, canonical_canonical item, canonicalItems_canonicalItems rest]

end

/-- No key occurs twice, neither in the value nor in anything that it holds. -/
inductive Distinct : Value → Prop where
  | string (text : String) : Distinct (.string text)
  | map (keys : Keyed.Distinct entries) (each : ∀ entry ∈ entries, Distinct entry.2) : Distinct (.map entries)
  | list (each : ∀ item ∈ items, Distinct item) : Distinct (.list items)

theorem Distinct.nothing : Distinct (.map []) := .map Keyed.distinct_nil (List.forall_mem_nil _)

theorem Distinct.cons {rest : Entries} (fresh : key ∉ rest.keys) (here : Distinct value)
    (others : Distinct (.map rest)) : Distinct (.map ((key, value) :: rest)) := by
  cases others with | map keys each =>
  exact .map (Keyed.distinct_cons.2 ⟨fresh, keys⟩) (List.forall_mem_cons.2 ⟨here, each⟩)

theorem Distinct.pair (apart : key ≠ key') (here : Distinct value) (there : Distinct value') :
    Distinct (.map [(key, value), (key', value')]) :=
  .cons (apart ∘ List.mem_singleton.1) here (.cons List.not_mem_nil there .nothing)

theorem sameEntries_eq_all (entries other : Entries) :
    sameEntries entries other = entries.all fun entry => (other.get? entry.1).any (same entry.2) := by
  induction entries with
  | nil => rfl
  | cons entry rest ih =>
    rw [sameEntries, ih, List.all_cons, ← Keyed.get?]
    cases other.get? entry.1 <;> rfl

theorem sameItems_of_canonical {items items' : List Value} (each : ∀ item ∈ items, ∀ other, Distinct other →
      item.canonical = other.canonical → same item other = true)
    (distinct : ∀ item ∈ items', Distinct item) (equal : items.map canonical = items'.map canonical) :
    sameItems items items' = true := by
  induction items generalizing items' with
  | nil =>
    cases items' with
    | nil => rfl
    | cons => cases equal
  | cons item rest ih =>
    cases items' with
    | nil => cases equal
    | cons item' rest' =>
      obtain ⟨first, others⟩ := List.cons.inj equal
      obtain ⟨here, onward⟩ := List.forall_mem_cons.1 each
      obtain ⟨here', onward'⟩ := List.forall_mem_cons.1 distinct
      rw [sameItems, here _ here' first, ih onward onward' others]
      rfl

/-- Values that differ in the order of their entries only are equal. -/
theorem same_of_canonical (distinct : Distinct a) (distinct' : Distinct b) (equal : a.canonical = b.canonical) :
    same a b = true := by
  induction distinct generalizing b with
  | string text =>
    cases distinct' with
    | string => cases equal; exact beq_self_eq_true text
    | map => cases equal
    | list => cases equal
  | map keys each ih =>
    cases distinct' with
    | string => cases equal
    | list => cases equal
    | @map entries' keys' each' =>
      rename_i entries
      have sorted := Value.map.inj equal
      rw [canonicalEntries_eq_map, canonicalEntries_eq_map, Keyed.sort_map, Keyed.sort_map] at sorted
      have found (key : String) : (entries.get? key).map canonical = (entries'.get? key).map canonical := by
        rw [← Keyed.get?_sort keys, ← Keyed.get?_sort keys', ← Keyed.get?_map, ← Keyed.get?_map, sorted]
      have lengths := congrArg List.length sorted
      rw [List.length_map, List.length_map, (Keyed.sort_perm _).length_eq, (Keyed.sort_perm _).length_eq] at lengths
      rw [same, lengths, beq_self_eq_true, Bool.true_and, sameEntries_eq_all, List.all_eq_true]
      intro entry member
      have here := found entry.1
      rw [Keyed.get?_of_mem keys member] at here
      cases there : entries'.get? entry.1 with
      | none => rw [there] at here; cases here
      | some value =>
        rw [there] at here
        exact ih entry member (each' _ (Keyed.mem_of_get? there)) (Option.some.inj here)
  | list each ih =>
    cases distinct' with
    | string => cases equal
    | map => cases equal
    | @list items' each' =>
      rename_i items
      have mapped := Value.list.inj equal
      rw [canonicalItems_eq_map, canonicalItems_eq_map] at mapped
      exact sameItems_of_canonical ih each' mapped

end Value

namespace Node

theorem toEntries_eq_map (properties : Properties) :
    toEntries properties = properties.map fun entry => (entry.1, entry.2.toValue) := by
  induction properties with
  | nil => rfl
  | cons entry rest ih => exact congrArg (_ :: ·) ih

theorem toItems_eq_map (items : List Node) : toItems items = items.map toValue := by
  induction items with
  | nil => rfl
  | cons item rest ih => exact congrArg (_ :: ·) ih

mutual

/-- Trees are compared by their content. -/
theorem same_eq : ∀ a b : Node, same a b = Value.same a.toValue b.toValue
  | object a _, object b _ => by
    rw [same, toValue, toValue, Value.same, sameProperties_eq a b, toEntries_eq_map a, toEntries_eq_map b,
      List.length_map, List.length_map]
  | literal _ _, literal _ _ => rfl
  | array a _, array b _ => sameItems_eq a b
  | object _ _, literal _ _ => rfl
  | object _ _, array _ _ => rfl
  | literal _ _, object _ _ => rfl
  | literal _ _, array _ _ => rfl
  | array _ _, object _ _ => rfl
  | array _ _, literal _ _ => rfl

theorem sameProperties_eq : ∀ a b : List (String × Node),
    sameProperties a b = Value.sameEntries (toEntries a) (toEntries b)
  | [], _ => rfl
  | (key, node) :: rest, b => by
    have found := Keyed.get?_map toValue b key
    rw [← toEntries_eq_map, Keyed.get?, Keyed.get?] at found
    rw [sameProperties, toEntries, Value.sameEntries, found, sameProperties_eq rest b]
    cases b.lookup key with
    | none => rfl
    | some other => exact congrArg (· && _) (same_eq node other)

theorem sameItems_eq : ∀ a b : List Node, sameItems a b = Value.sameItems (toItems a) (toItems b)
  | [], [] => rfl
  | [], _ :: _ => rfl
  | _ :: _, [] => rfl
  | node :: rest, other :: others => by
    rw [sameItems, toItems, toItems, Value.sameItems, same_eq node other, sameItems_eq rest others]

end

end Node

end XmlBinding
