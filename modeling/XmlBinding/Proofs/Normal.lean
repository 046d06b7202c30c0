import XmlBinding.Proofs.Passages

/-! What comes back when a value is written and read again. Strings become elements that hold text, lists of one item
lose their brackets and empty lists and empty texts vanish; up to the order of its entries, the content of an element
that is written for a map is the map after these changes. -/
namespace XmlBinding
open Text

namespace Entries

/-- The attributes among some entries. -/
def attributes (entries : Entries) : Keyed String :=
  entries.flatMap fun entry =>
    match attributeOfKey? entry.1, entry.2 with
    | some name, .string text => [(name, text)]
    | _, _ => []

/-- The text among some entries. -/
def text (entries : Entries) : String :=
  ((entries.get? textKey).bind Value.string?).getD ""

/-- The CDATA among some entries. -/
def cdata? (entries : Entries) : Option String :=
  (entries.get? cdataKey).bind Value.string?

end Entries

namespace Value

/-- What stands under a name that elements with these contents have. -/
def gathered : List Value → Option Value
  | [] => none
  | [content] => some content
  | first :: more => some (.list (first :: more))

theorem gathered_eq_none_iff {contents : List Value} : gathered contents = none ↔ contents = [] := by
  rcases contents with _ | ⟨first, _ | ⟨second, more⟩⟩ <;> simp [gathered]

theorem gathered_several {contents : List Value} (several : 2 ≤ contents.length) :
    gathered contents = some (.list contents) := by
  rcases contents with _ | ⟨first, _ | ⟨second, more⟩⟩
  · cases several
  · simp at several
  · rfl

/-- What is left of an entry that is not a child. -/
def literal? (key : String) : Value → Option Value
  | string text =>
    if (attributeOfKey? key).isSome ∨ key = cdataKey ∨ key = textKey ∧ text ≠ "" then some (string text) else none
  | _ => none

mutual

/-- The contents of the elements that a value is written as. -/
def contents : Value → List Value
  | string text => [map (if text = "" then [] else [(textKey, string text)])]
  | map entries => [map (normalEntries entries)]
  | list items => itemContents items

/-- The contents of the elements that some items are written as. -/
def itemContents : List Value → List Value
  | [] => []
  | item :: rest => contents item ++ itemContents rest

/-- The entries that come back. -/
def normalEntries : List (String × Value) → Keyed Value
  | [] => []
  | (key, value) :: rest =>
    match if isChildKey key then gathered (contents value) else literal? key value with
    | some left => (key, left) :: normalEntries rest
    | none => normalEntries rest

end

/-- What comes back under a key. -/
def normalEntry (key : String) (value : Value) : Option Value :=
  if isChildKey key then gathered (contents value) else literal? key value

theorem normalEntries_eq (entries : Entries) : normalEntries entries = entries.choose normalEntry := by
  induction entries with
  | nil => rfl
  | cons entry rest ih =>
    obtain ⟨key, value⟩ := entry
    rw [normalEntries, ih, Keyed.choose_cons, ← normalEntry]
    cases normalEntry key value <;> rfl

theorem normalEntry_text (value : Value) :
    normalEntry textKey value = value.string?.bind fun text => if text = "" then none else some (string text) := by
  rw [normalEntry, if_neg (by decide)]
  cases value with
  | string text => by_cases none : text = "" <;> simp [literal?, string?, none, textKey, cdataKey, attributeOfKey?]
  | map | list => rfl

theorem normalEntry_cdata (value : Value) : normalEntry cdataKey value = value.string?.map string := by
  rw [normalEntry, if_neg (by decide)]
  cases value with
  | string text => simp [literal?, string?]
  | map | list => rfl

theorem normalEntry_attribute (name : String) (value : Value) :
    normalEntry (attributeKey name) value = value.string?.map string := by
  rw [normalEntry, isChildKey_attributeKey, if_neg Bool.false_ne_true]
  cases value with
  | string text => simp [literal?, string?]
  | map | list => rfl

/-- Nothing comes back under a key without a meaning. -/
theorem normalEntry_other {key : String} (child : ¬ isChildKey key = true) (noAttribute : attributeOfKey? key = none)
    (text : key ≠ textKey) (cdata : key ≠ cdataKey) (value : Value) : normalEntry key value = none := by
  rw [normalEntry, if_neg child]
  cases value with
  | string => simp [literal?, noAttribute, text, cdata]
  | map | list => rfl

mutual

/-- What an element holds is not a list. -/
theorem contents_plain : ∀ value : Value, ∀ content ∈ value.contents, content.items? = none
  | string _ => List.forall_mem_singleton.2 rfl
  | map _ => List.forall_mem_singleton.2 rfl
  | list items => itemContents_plain items

theorem itemContents_plain : ∀ items : List Value, ∀ content ∈ itemContents items, content.items? = none
  | [] => List.forall_mem_nil _
  | item :: rest => List.forall_mem_append.2 ⟨contents_plain item, itemContents_plain rest⟩

end

/-- Contents that come under a name one after another are gathered there. -/
theorem joinOnto_coalesce (contents : List Value) (plain : ∀ content ∈ contents, content.items? = none) :
    Keyed.joinOnto coalesce none contents = gathered contents := by
  cases contents with
  | nil => rfl
  | cons first more =>
    have pair (content : Value) : coalesce first content = .list [first, content] := by
      cases first with
      | string | map => rfl
      | list items => cases plain _ List.mem_cons_self
    rw [Keyed.joinOnto_group (fun taken => .list (first :: taken)) pair fun _ _ => rfl]
    cases more <;> rfl

theorem canonical_coalesce (old child : Value) :
    (coalesce old child).canonical = coalesce old.canonical child.canonical := by
  cases old with
  | list items => simp [coalesce, canonical, canonicalItems_eq_map]
  | string | map => rfl

end Value

namespace Entries
open Value

/-- The contents of the child elements that some entries are written as. -/
def children (entries : Entries) : Keyed Value :=
  entries.flatMap fun entry => if isChildKey entry.1 then entry.2.contents.map (entry.1, ·) else []

/-- The parts of an element that is written for some entries. -/
def parts (entries : Entries) : Parts Value where
  attributes := entries.attributes.map fun entry => (entry.1, .string entry.2)
  children := entries.children
  text? := if entries.text = "" then none else some (.string entries.text)
  cdata? := entries.cdata?.map .string

variable {entries : Entries} (distinct : Keyed.Distinct entries)

theorem parts_named (entries : Entries) : entries.parts.Named := by
  intro child member
  obtain ⟨entry, -, written⟩ := List.mem_flatMap.1 member
  split at written
  · rename_i child
    obtain ⟨content, -, rfl⟩ := List.mem_map.1 written
    exact child
  · cases written

include distinct

theorem attributes_under (name : String) :
    Keyed.under entries.attributes name = ((entries.get? (attributeKey name)).bind string?).toList := by
  rw [attributes, Keyed.under_flatMap distinct _ (attributeKey name)]
  · cases entries.get? (attributeKey name) with
    | none => rfl
    | some value => cases value <;> simp [Keyed.under, string?]
  · intro entry member other
    split
    · rename_i name' text found value
      rw [attributeKey_of_attributeOfKey? found] at other
      rw [Keyed.under_cons, if_neg (mt (congrArg attributeKey) other)]
      rfl
    · rfl

theorem children_under {key : String} (child : isChildKey key = true) :
    Keyed.under entries.children key = (entries.get? key).elim [] Value.contents := by
  have all (k : String) (contents : List Value) : Keyed.under (contents.map (k, ·)) k = contents := by
    simp [Keyed.under, List.filter_eq_self.2, Function.comp_def]
  rw [children, Keyed.under_flatMap distinct _ key]
  · cases entries.get? key with
    | none => rfl
    | some value => rw [Option.elim, Option.elim, if_pos child, all]
  · intro entry member other
    split
    · rw [Keyed.under, List.filter_eq_nil_iff.2, List.map_nil]
      rintro written held same
      obtain ⟨content, -, rfl⟩ := List.mem_map.1 held
      exact other (of_decide_eq_true same)
    · rfl

/-- The element that is written for a map holds under each key what comes back of the map there. -/
theorem get?_parts (key : String) :
    (entries.parts.entries coalesce).get? key = (entries.choose normalEntry).get? key := by
  have named := entries.parts_named
  rw [Keyed.get?_choose distinct]
  by_cases child : isChildKey key = true
  · rw [Parts.get?_child _ child, parts, children_under distinct child]
    cases entries.get? key with
    | none => rfl
    | some value =>
      exact (joinOnto_coalesce _ (contents_plain value)).trans (if_pos child).symm
  by_cases text : key = textKey
  · subst text
    rw [Parts.get?_text _ named, parts, Entries.text]
    cases entries.get? textKey with
    | none => rfl
    | some value =>
      rw [Option.bind_some, Option.bind_some, normalEntry_text]
      cases value <;> rfl
  by_cases cdata : key = cdataKey
  · subst cdata
    rw [Parts.get?_cdata _ named, parts, cdata?]
    cases entries.get? cdataKey with
    | none => rfl
    | some value => exact (normalEntry_cdata value).symm
  cases found : attributeOfKey? key with
  | some name =>
    obtain rfl := attributeKey_of_attributeOfKey? found
    rw [Parts.get?_attribute _ named, parts, Keyed.under_map, attributes_under distinct]
    cases entries.get? (attributeKey name) with
    | none => rfl
    | some value =>
      rw [Option.bind_some, Option.bind_some, normalEntry_attribute]
      cases value <;> rfl
  | none =>
    have nothing : (entries.parts.entries coalesce).get? key = none := by
      rw [Keyed.get?_eq_none_iff]
      intro member
      rcases Parts.kind_of_mem _ named member with ⟨name, rfl⟩ | same | same | same
      · simp at found
      · exact text same
      · exact cdata same
      · exact child same
    rw [nothing]
    cases entries.get? key with
    | none => rfl
    | some value => exact (normalEntry_other child found text cdata value).symm

/-- Up to the order of its entries, the content of the element that is written for a map is what comes back. -/
theorem canonical_parts :
    (Value.map (entries.parts.entries coalesce)).canonical = (Value.map (normalEntries entries)).canonical := by
  rw [normalEntries_eq, canonical, canonical, ← canonicalEntries_sort, ← canonicalEntries_sort,
    Keyed.sort_eq_of_get? (entries.parts.entries_distinct coalesce) (distinct.choose _) (get?_parts distinct)]

omit distinct

/-- Child elements count up to the order of the entries in them. -/
theorem canonical_ofParts {elements : Keyed Value}
    (same : canonicalEntries elements = canonicalEntries entries.children) :
    (Value.ofParts entries.attributes elements entries.text entries.cdata?).canonical =
      (Value.map (entries.parts.entries coalesce)).canonical := by
  rw [canonicalEntries_eq_map, canonicalEntries_eq_map] at same
  rw [ofParts, canonical, canonical, canonicalEntries_eq_map, canonicalEntries_eq_map,
    ← Parts.map_entries _ canonical canonical_coalesce,
    ← Parts.map_entries _ canonical canonical_coalesce, Parts.map, same]
  rfl

end Entries

end XmlBinding
