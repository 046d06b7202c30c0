import XmlBinding.Document.Node
import XmlBinding.Proofs.Keyed
import XmlBinding.Proofs.Names

/-! The parts of an element. Attributes, child elements, text and CDATA stand under keys of different kinds, so
entries that are made of them part by part hold under each key what the one part gives that the key belongs to. -/
namespace XmlBinding

/-! Keys of different kinds differ. -/

theorem isChildKey_attributeKey (name : String) : isChildKey (attributeKey name) = false := by
  simp [isChildKey, attributeKey, attributeMark]

theorem attributeKey_injective {a b : String} (same : attributeKey a = attributeKey b) : a = b := by
  have chars := congrArg String.toList same
  simpa [attributeKey, String.toList_inj] using chars

@[simp] theorem attributeOfKey?_attributeKey (name : String) : attributeOfKey? (attributeKey name) = some name := by
  simp [attributeOfKey?, attributeKey, attributeMark]

theorem attributeKey_of_attributeOfKey? {key : String} (found : attributeOfKey? key = some name) :
    key = attributeKey name := by
  unfold attributeOfKey? at found
  split at found
  · rename_i chars
    cases found
    rw [attributeKey, attributeMark, String.toList_ofList, ← chars, String.ofList_toList]
  · cases found

theorem attributeKey_ne {key : String} (other : key.toList.head? ≠ some '@') (name : String) :
    attributeKey name ≠ key := by
  rintro rfl
  exact other (by simp [attributeKey, attributeMark])

theorem attributeKey_ne_textKey (name : String) : attributeKey name ≠ textKey := attributeKey_ne (by decide) name

theorem attributeKey_ne_cdataKey (name : String) : attributeKey name ≠ cdataKey := attributeKey_ne (by decide) name

theorem isChildKey_ne {key other : String} (child : isChildKey key = true) (special : isChildKey other = false) :
    key ≠ other := by
  rintro rfl
  exact Bool.false_ne_true (special.symm.trans child)

theorem attributeKey_ne_child {key : String} (child : isChildKey key = true) (name : String) :
    attributeKey name ≠ key :=
  (isChildKey_ne child (isChildKey_attributeKey name)).symm

/-- A name is the key of a child. -/
theorem Text.IsName.isChildKey {name : String} (named : IsName name.toList) : isChildKey name = true := by
  unfold XmlBinding.isChildKey
  cases chars : name.toList with
  | nil => rfl
  | cons first more =>
    rw [chars] at named
    obtain ⟨begins, -⟩ := named
    split
    · rename_i same
      obtain ⟨rfl, -⟩ := List.cons.inj same
      exact absurd begins (by unfold NameStart; decide)
    · rename_i same
      obtain ⟨rfl, -⟩ := List.cons.inj same
      exact absurd begins (by unfold NameStart; decide)
    · rfl

/-- What an element is made of, the attributes and the children under their names. -/
structure Parts (α : Type u) where
  attributes : Keyed α
  children : Keyed α
  text? : Option α
  cdata? : Option α

namespace Parts

/-- The entries of an element, in which a further child of a name is joined to those before it. -/
def entries (join : α → α → α) (parts : Parts α) : Keyed α :=
  let attributes := Keyed.insertAll (fun _ new => new) []
    (parts.attributes.map fun entry => (attributeKey entry.1, entry.2))
  let elements := Keyed.insertAll join attributes parts.children
  let texts := parts.text?.elim elements (elements.put textKey)
  parts.cdata?.elim texts (texts.put cdataKey)

/-- The parts with everything in them changed alike. -/
def map (f : α → β) (parts : Parts α) : Parts β where
  attributes := parts.attributes.map fun entry => (entry.1, f entry.2)
  children := parts.children.map fun entry => (entry.1, f entry.2)
  text? := parts.text?.map f
  cdata? := parts.cdata?.map f

/-- Every child stands under the key of a child. -/
def Named (parts : Parts α) : Prop := ∀ entry ∈ parts.children, isChildKey entry.1 = true

variable (join : α → α → α) (parts : Parts α)

theorem entries_distinct : (parts.entries join).Distinct := by
  have elements := (Keyed.distinct_nil.insertAll (fun _ new => new)
    (parts.attributes.map fun entry => (attributeKey entry.1, entry.2))).insertAll join parts.children
  unfold entries
  cases parts.text? <;> cases parts.cdata?
  · exact elements
  · exact elements.put _ _
  · exact elements.put _ _
  · exact (elements.put _ _).put _ _

theorem get?_entries (key : String) : (parts.entries join).get? key =
    if key = cdataKey ∧ parts.cdata?.isSome then parts.cdata?
    else if key = textKey ∧ parts.text?.isSome then parts.text?
    else Keyed.joinOnto join
      (Keyed.under (parts.attributes.map fun entry => (attributeKey entry.1, entry.2)) key).getLast?
      (parts.children.under key) := by
  have last := Keyed.get?_insertAll (fun _ new => new) []
    (parts.attributes.map fun entry => (attributeKey entry.1, entry.2)) key
  rw [Keyed.joinOnto_last, Keyed.get?_nil, Option.or_none] at last
  unfold entries
  cases parts.text? <;> cases parts.cdata? <;>
    simp only [Option.elim, Keyed.get?_put, Keyed.get?_insertAll, last] <;> simp

/-- No attribute stands under a key that is not the key of an attribute. -/
theorem attributes_under_other {key : String} (other : ∀ name, attributeKey name ≠ key) :
    Keyed.under (parts.attributes.map fun entry => (attributeKey entry.1, entry.2)) key = [] := by
  rw [Keyed.under, List.filter_eq_nil_iff.2, List.map_nil]
  rintro entry member same
  obtain ⟨written, -, rfl⟩ := List.mem_map.1 member
  exact other _ (of_decide_eq_true same)

theorem attributes_under (name : String) :
    Keyed.under (parts.attributes.map fun entry => (attributeKey entry.1, entry.2)) (attributeKey name) =
      parts.attributes.under name := by
  have same : ∀ entry : String × α, decide (attributeKey entry.1 = attributeKey name) = decide (entry.1 = name) :=
    fun entry => decide_eq_decide.2 ⟨attributeKey_injective, congrArg attributeKey⟩
  simp only [Keyed.under, List.filter_map, List.map_map, Function.comp_def, same]

variable {parts}

theorem Named.under (named : parts.Named) {key : String} (special : isChildKey key = false) :
    parts.children.under key = [] := by
  rw [Keyed.under, List.filter_eq_nil_iff.2, List.map_nil]
  intro entry member same
  exact isChildKey_ne (named entry member) special (of_decide_eq_true same)

theorem get?_text (named : parts.Named) : (parts.entries join).get? textKey = parts.text? := by
  rw [get?_entries, parts.attributes_under_other attributeKey_ne_textKey, named.under (by decide),
    if_neg fun cdata => absurd cdata.1 (by decide)]
  cases parts.text? <;> rfl

theorem get?_cdata (named : parts.Named) : (parts.entries join).get? cdataKey = parts.cdata? := by
  rw [get?_entries, parts.attributes_under_other attributeKey_ne_cdataKey, named.under (by decide)]
  cases parts.cdata? with
  | none => rw [if_neg (by simp), if_neg fun text => absurd text.1 (by decide)]; rfl
  | some body => rw [if_pos ⟨rfl, rfl⟩]

/-- The last attribute of a name counts. -/
theorem get?_attribute (named : parts.Named) (name : String) :
    (parts.entries join).get? (attributeKey name) = (parts.attributes.under name).getLast? := by
  rw [get?_entries, attributes_under, named.under (isChildKey_attributeKey name),
    if_neg fun cdata => attributeKey_ne_cdataKey name cdata.1, if_neg fun text => attributeKey_ne_textKey name text.1]
  rfl

theorem get?_child {key : String} (child : isChildKey key = true) :
    (parts.entries join).get? key = Keyed.joinOnto join none (parts.children.under key) := by
  rw [get?_entries, parts.attributes_under_other (attributeKey_ne_child child),
    if_neg fun cdata => isChildKey_ne child (by decide) cdata.1,
    if_neg fun text => isChildKey_ne child (by decide) text.1]
  rfl

/-- Nothing stands under any other key. -/
theorem kind_of_mem (named : parts.Named) {key : String} (member : key ∈ (parts.entries join).keys) :
    (∃ name, key = attributeKey name) ∨ key = textKey ∨ key = cdataKey ∨ isChildKey key = true := by
  by_cases text : key = textKey
  · exact .inr (.inl text)
  by_cases cdata : key = cdataKey
  · exact .inr (.inr (.inl cdata))
  by_cases attribute' : ∃ name, key = attributeKey name
  · exact .inl attribute'
  by_cases child : isChildKey key = true
  · exact .inr (.inr (.inr child))
  rw [← Keyed.get?_isSome_iff, get?_entries, if_neg fun both => cdata both.1, if_neg fun both => text both.1,
    parts.attributes_under_other fun name same => attribute' ⟨name, same.symm⟩,
    named.under (Bool.eq_false_iff.2 child)] at member
  cases member

/-- Parts that are changed alike make entries that are changed alike. -/
theorem map_entries {join' : β → β → β} (f : α → β)
    (joins : ∀ old value, f (join old value) = join' (f old) (f value))
    (parts : Parts α) :
    (parts.map f).entries join' = (parts.entries join).map fun entry => (entry.1, f entry.2) := by
  have attributes : _ = Keyed.insertAll (fun _ new => new) _ _ := Keyed.map_insertAll f (fun _ _ => rfl) []
    (parts.attributes.map fun entry => (attributeKey entry.1, entry.2))
  have elements := Keyed.map_insertAll f joins (Keyed.insertAll (fun _ new => new) []
    (parts.attributes.map fun entry => (attributeKey entry.1, entry.2))) parts.children
  rw [attributes, List.map_nil, List.map_map] at elements
  unfold entries map
  cases parts.text? <;> cases parts.cdata? <;>
    simp only [Option.map, Option.elim, Keyed.map_put, elements, List.map_map] <;> rfl

variable {join} in
/-- Only of no parts there are no entries. -/
theorem entries_eq_nil (none : parts.entries join = []) :
    parts.attributes = [] ∧ parts.children = [] ∧ parts.text? = .none ∧ parts.cdata? = .none := by
  have put (entries : Keyed α) (key : String) (value : α) : entries.put key value ≠ [] := by
    intro none
    have same : Keyed.insertAll (fun _ new => new) entries [(key, value)] = [] := none
    cases (Keyed.insertAll_eq_nil same).2
  unfold entries at none
  cases cdata : parts.cdata? with
  | some value => rw [cdata] at none; exact absurd none (put _ _ _)
  | none =>
    cases text : parts.text? with
    | some value => rw [cdata, text] at none; exact absurd none (put _ _ _)
    | none =>
      rw [cdata, text] at none
      obtain ⟨attributes, children⟩ := Keyed.insertAll_eq_nil none
      exact ⟨List.map_eq_nil_iff.1 (Keyed.insertAll_eq_nil attributes).2, children, rfl, rfl⟩

end Parts

end XmlBinding
