import XmlBinding.Proofs.Normal

/-! Values that stand for elements as they are read. Such a value says under every key what only a document can say
there; it comes back as it is when it is written, and so does its canonical form. -/
namespace XmlBinding
open Text Grammar

namespace Value

/-- What an element may hold under a key, by what its child elements are. -/
inductive Holds (whole : Value → Prop) : String → Value → Prop where
  | named (marked : attributeOfKey? key = some tag) (name : IsName tag.toList) (body : String) :
      Holds whole key (.string body)
  | text (some : body ≠ "") : Holds whole textKey (.string body)
  | cdata (body : String) : Holds whole cdataKey (.string body)
  | child (name : IsName key.toList) (alone : whole value) : Holds whole key value
  | children (name : IsName key.toList) (several : 2 ≤ items.length) (each : ∀ item ∈ items, whole item) :
      Holds whole key (.list items)

/-- The content of an element in which elements nest at most so many levels deep, itself included. -/
def Whole : (levels : Nat) → Value → Prop
  | 0 => fun _ => False
  | levels + 1 => fun value => ∃ entries : Entries, value = .map entries ∧ Keyed.Distinct entries ∧
      ∀ entry ∈ entries, Holds (Whole levels) entry.1 entry.2

theorem Holds.canonical (holds : Holds p key value) (each : ∀ value, p value → q value.canonical) :
    Holds q key value.canonical := by
  cases holds with
  | named marked name body => exact .named marked name body
  | text some => exact .text some
  | cdata body => exact .cdata body
  | child name alone => exact .child name (each _ alone)
  | children name several all =>
    rw [Value.canonical, canonicalItems_eq_map]
    refine .children name (by rwa [List.length_map]) fun item member => ?_
    obtain ⟨old, held, rfl⟩ := List.mem_map.1 member
    exact each old (all old held)

namespace Whole

theorem isMap (whole : Whole levels value) : ∃ entries, value = .map entries := by
  cases levels with
  | zero => cases whole
  | succ levels =>
    obtain ⟨entries, rfl, -⟩ := whole
    exact ⟨entries, rfl⟩

theorem plain (whole : Whole levels value) : value.items? = none := by
  obtain ⟨entries, rfl⟩ := whole.isMap
  rfl

theorem distinct (whole : Whole levels value) : value.Distinct := by
  induction levels generalizing value with
  | zero => cases whole
  | succ levels ih =>
    obtain ⟨entries, rfl, keys, each⟩ := whole
    refine .map keys ?_
    rintro ⟨key, value⟩ member
    cases each _ member with
    | named | text | cdata => exact .string _
    | child name alone => exact ih alone
    | children name several all => exact .list fun item held => ih (all item held)

theorem canonical (whole : Whole levels value) : Whole levels value.canonical := by
  induction levels generalizing value with
  | zero => cases whole
  | succ levels ih =>
    obtain ⟨entries, rfl, keys, each⟩ := whole
    rw [Value.canonical, canonicalEntries_eq_map, Keyed.sort_map]
    refine ⟨_, rfl, keys.sort.values _, fun entry member => ?_⟩
    obtain ⟨old, held, rfl⟩ := List.mem_map.1 member
    exact (each old ((Keyed.sort_perm entries).mem_iff.1 held)).canonical fun value => ih

theorem itemContents_eq_self {items : List Value} (each : ∀ item ∈ items, item.contents = [item]) :
    itemContents items = items := by
  induction items with
  | nil => rfl
  | cons item rest ih =>
    obtain ⟨here, later⟩ := List.forall_mem_cons.1 each
    rw [itemContents, here, ih later]
    rfl

/-- What was read comes back as it is. -/
theorem contents (whole : Whole levels value) : value.contents = [value] := by
  induction levels generalizing value with
  | zero => cases whole
  | succ levels ih =>
    obtain ⟨entries, rfl, keys, each⟩ := whole
    have kept : ∀ entry ∈ entries, normalEntry entry.1 entry.2 = some entry.2 := by
      rintro ⟨key, value⟩ member
      cases each _ member with
      | named marked name body =>
        obtain rfl := attributeKey_of_attributeOfKey? marked
        exact normalEntry_attribute _ _
      | text some => exact (normalEntry_text _).trans (if_neg some)
      | cdata body => exact normalEntry_cdata _
      | child name alone => rw [normalEntry, if_pos name.isChildKey, ih alone, gathered]
      | @children items _ name several all =>
        have same := itemContents_eq_self fun item held => ih (all item held)
        rw [normalEntry, if_pos name.isChildKey, Value.contents, same, gathered_several several]
    rw [Value.contents, normalEntries_eq, Keyed.choose_eq_self kept]

end Whole

/-- The parts of an element as it is read. -/
theorem whole_ofParts {attributes : Keyed String} {elements : Keyed Value}
    (each : ∀ entry ∈ attributes, IsName entry.1.toList)
    (inside : ∀ child ∈ elements, IsName child.1.toList ∧ Whole levels child.2) (body : String)
    (cdata? : Option String) :
    Whole (levels + 1) (ofParts attributes elements body cdata?) := by
  refine ⟨_, rfl, Parts.entries_distinct _ _, ?_⟩
  rintro ⟨key, value⟩ member
  have found := Keyed.get?_of_mem (Parts.entries_distinct _ _) member
  have named : Parts.Named {
      attributes := attributes.map fun entry => (entry.1, string entry.2)
      children := elements
      text? := if body = "" then none else some (string body)
      cdata? := cdata?.map string } := fun child held => (inside child held).1.isChildKey
  rcases Parts.kind_of_mem _ named (List.mem_map_of_mem member) with ⟨name, same⟩ | same | same | child
  · obtain rfl : key = _ := same
    rw [Parts.get?_attribute _ named] at found
    obtain ⟨entry, held, same⟩ := List.mem_map.1 (Keyed.mem_under.1 (List.mem_of_getLast? found))
    obtain ⟨rfl, rfl⟩ := Prod.mk.inj same
    exact .named (attributeOfKey?_attributeKey _) (each entry held) entry.2
  · obtain rfl : key = _ := same
    rw [Parts.get?_text _ named] at found
    dsimp only at found
    split at found
    · cases found
    · rename_i some
      cases found
      exact .text some
  · obtain rfl : key = _ := same
    rw [Parts.get?_cdata _ named] at found
    obtain ⟨body, -, rfl⟩ := Option.map_eq_some_iff.1 found
    exact .cdata body
  · have all : ∀ content ∈ elements.under key, IsName key.toList ∧ Whole levels content :=
      fun content held => inside _ (Keyed.mem_under.1 held)
    rw [Parts.get?_child _ child, joinOnto_coalesce _ fun content held => (all content held).2.plain] at found
    match contents : elements.under key with
    | [] => rw [contents] at found; cases found
    | [alone] =>
      rw [contents] at found all
      cases found
      obtain ⟨name, whole⟩ := all _ (List.mem_singleton_self _)
      exact .child name whole
    | first :: second :: more =>
      rw [contents] at found all
      cases found
      exact .children (all first List.mem_cons_self).1 (by simp) fun content held => (all content held).2

end Value

namespace Grammar

theorem Contents.whole (child : ∀ {c tag inside d}, nested c tag inside d → IsName tag.name.toList ∧
      Value.Whole levels (tag.node inside).toValue) (contents : Contents nested c body d) :
    ∀ child ∈ body.children.map fun child => (child.1, child.2.toValue), IsName child.1.toList ∧
      Value.Whole levels child.2 := by
  induction contents with
  | done => exact List.forall_mem_nil _
  | text some plain spelled rest ih => exact ih
  | comment enclosed rest ih => exact ih
  | cdata enclosed rest ih => exact ih
  | element inner rest ih => exact List.forall_mem_cons.2 ⟨child inner, ih⟩

theorem Opening.whole (opening : Opening isEmpty c tag d) {inside : Body}
    (children : ∀ child ∈ inside.children.map fun child => (child.1, child.2.toValue),
      IsName child.1.toList ∧ Value.Whole levels child.2) : Value.Whole (levels + 1) (tag.node inside).toValue := by
  obtain ⟨opens, name, attributes, space, ends⟩ := opening
  rw [Tag.toValue_parts]
  refine Value.whole_ofParts ?_ children _ _
  intro entry member
  obtain ⟨written, held, rfl⟩ := List.mem_map.1 member
  exact attributes.named written held

/-- What is read from an element is whole. -/
theorem Element.whole (read : Element levels c tag inside d) : Value.Whole levels (tag.node inside).toValue := by
  induction levels generalizing c tag inside d with
  | zero => cases read
  | succ levels ih =>
    rcases read with opening | ⟨opening, contents, closing⟩
    · exact opening.whole (List.forall_mem_nil _)
    · exact opening.whole (contents.whole fun inner => ⟨inner.named, ih inner⟩)

theorem Document.whole (document : Document input tag inside) : Value.Whole maxDepth (tag.node inside).toValue := by
  obtain ⟨space, prolog, before, root, after, ended⟩ := document
  exact root.whole

end Grammar

end XmlBinding
