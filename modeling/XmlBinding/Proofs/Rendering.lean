import XmlBinding.Markup.Render
import XmlBinding.Proofs.Agreement
import XmlBinding.Proofs.Fitting
import XmlBinding.Proofs.Forest

/-! Rendering and reading. A value is written as the elements that it stands for, and what is read of them is what
comes back of the value; so a tree that was read survives being written, whatever the layout. -/
namespace XmlBinding
open Text Grammar

namespace Forest

mutual

/-- The elements that a value is written as, with others behind them. -/
def ofValue (name : String) : Value → Forest → Forest
  | .string text, more => element name [] text none nil more
  | .map entries, more =>
    element name (Entries.attributes entries) (Entries.text entries) (Entries.cdata? entries) (ofEntries entries) more
  | .list items, more => ofItems name items more

/-- The child elements that some entries are written as. -/
def ofEntries : List (String × Value) → Forest
  | [] => nil
  | (key, value) :: rest => if isChildKey key then ofValue key value (ofEntries rest) else ofEntries rest

/-- The elements that some items are written as, with others behind them. -/
def ofItems (name : String) : List Value → Forest → Forest
  | [], more => more
  | item :: rest, more => ofValue name item (ofItems name rest more)

end

theorem putAttributes_eq (w : Writer) (entries : Entries) : w.putAttributes entries =
    entries.attributes.foldl (fun w entry => w.putAttribute entry.1 entry.2) w := by
  rw [Writer.putAttributes, Entries.attributes, List.foldl_flatMap]
  congr 1
  funext w entry
  cases attributeOfKey? entry.1 <;> cases entry.2 <;> rfl

theorem putCharacters_eq (w : Writer) (entries : Entries) :
    w.putCharacters entries = w.putTexts entries.text entries.cdata? := by
  rw [Writer.putCharacters, Writer.putTexts, Entries.text, Entries.cdata?]
  rcases entries.get? textKey with _ | (_ | _ | _) <;> rcases entries.get? cdataKey with _ | (_ | _ | _) <;> rfl

mutual

/-- A value is written as its elements. -/
theorem write_ofValue (name : String) : ∀ (value : Value) (more : Forest) (w : Writer),
    (ofValue name value more).write w = more.write (w.element name value)
  | .string text, more, w => rfl
  | .map entries, more, w => by
    rw [ofValue, write, write_ofEntries entries, Writer.element, putCharacters_eq, putAttributes_eq]
    rfl
  | .list items, more, w => write_ofItems name items more w

theorem write_ofEntries : ∀ (entries : List (String × Value)) (w : Writer),
    (ofEntries entries).write w = w.children entries
  | [], w => rfl
  | (key, value) :: rest, w => by
    rw [ofEntries, Writer.children]
    split
    · rw [write_ofValue key value, write_ofEntries rest]
    · exact write_ofEntries rest w

theorem write_ofItems (name : String) : ∀ (items : List Value) (more : Forest) (w : Writer),
    (ofItems name items more).write w = more.write (w.elements name items)
  | [], more, w => rfl
  | item :: rest, more, w => by
    rw [ofItems, write_ofValue name item, write_ofItems name rest, Writer.elements]

end

mutual

/-- Up to the order of entries, the elements that a value is written as have its contents. -/
theorem children_ofValue (name : String) : ∀ (value : Value) (more : Forest), value.Distinct →
    Value.canonicalEntries (ofValue name value more).children =
      Value.canonicalEntries (value.contents.map (name, ·)) ++ Value.canonicalEntries more.children
  | .string text, more, _ => by
    rw [ofValue, children, Value.canonicalEntries, Value.ofParts, Value.contents]
    by_cases none : text = "" <;> simp only [none, if_true, if_false] <;> rfl
  | .map entries, more, .map keys each => by
    have inside := Entries.canonical_ofParts (children_ofEntries entries each)
    rw [ofValue, children, Value.canonicalEntries, inside, Entries.canonical_parts keys]
    rfl
  | .list items, more, .list each => children_ofItems name items more each

theorem children_ofEntries : ∀ entries : List (String × Value), (∀ entry ∈ entries, entry.2.Distinct) →
    Value.canonicalEntries (ofEntries entries).children = Value.canonicalEntries (Entries.children entries)
  | [], _ => rfl
  | (key, value) :: rest, each => by
    obtain ⟨here, later⟩ := List.forall_mem_cons.1 each
    have behind := children_ofEntries rest later
    rw [ofEntries, Entries.children, List.flatMap_cons, ← Entries.children, Value.canonicalEntries_append]
    split
    · rw [children_ofValue key value _ here, behind]
    · exact behind

theorem children_ofItems (name : String) : ∀ (items : List Value) (more : Forest), (∀ item ∈ items, item.Distinct) →
    Value.canonicalEntries (ofItems name items more).children =
      Value.canonicalEntries ((Value.itemContents items).map (name, ·)) ++ Value.canonicalEntries more.children
  | [], more, _ => rfl
  | item :: rest, more, each => by
    obtain ⟨here, later⟩ := List.forall_mem_cons.1 each
    rw [ofItems, children_ofValue name item _ here, children_ofItems name rest more later, Value.itemContents,
      List.map_append, Value.canonicalEntries_append, List.append_assoc]

end

/-- The elements have names and nest no deeper than they may. -/
structure Fits (levels : Nat) (forest : Forest) : Prop where
  named : forest.Named
  deep : forest.depth ≤ levels

theorem Fits.element {inside more : Forest} (name : IsName tag.toList)
    (each : ∀ entry ∈ attributes, IsName entry.1.toList)
    (inner : inside.Fits levels) (fits : more.Fits (levels + 1)) (text : String) (cdata? : Option String) :
    (Forest.element tag attributes text cdata? inside more).Fits (levels + 1) where
  named := .element name each inner.named fits.named
  deep := Nat.max_le.2 ⟨Nat.succ_le_succ inner.deep, fits.deep⟩

mutual

/-- The elements that a value of limited depth is written as. -/
theorem fits_ofValue {levels : Nat} : ∀ (value : Value) {inList : Bool} {name : String} {more : Forest},
    Value.Fitting inList value → value.depth ≤ levels → IsName name.toList → more.Fits levels →
      (ofValue name value more).Fits levels
  | .string text, _, _, _, _, deep, name, fits => by
    cases levels with
    | zero => cases deep
    | succ levels => exact .element name (List.forall_mem_nil _) ⟨.nil, Nat.zero_le _⟩ fits _ _
  | .map entries, _, _, _, .map each, deep, name, fits => by
    cases levels with
    | zero => cases deep
    | succ levels =>
      have inside := fits_ofEntries entries each (Nat.le_of_succ_le_succ deep)
      exact .element name (Value.Stands.attributes_named each) inside fits _ _
  | .list items, _, _, _, .list each, deep, name, fits => fits_ofItems items each deep name fits

theorem fits_ofEntries {levels : Nat} : ∀ entries : List (String × Value),
    (∀ entry ∈ entries, Value.Stands (Value.Fitting false) entry.1 entry.2) → Value.entriesDepth entries ≤ levels →
      (ofEntries entries).Fits levels
  | [], _, _ => ⟨.nil, Nat.zero_le _⟩
  | (key, value) :: rest, each, deep => by
    obtain ⟨here, later⟩ := List.forall_mem_cons.1 each
    rw [Value.entriesDepth] at deep
    rw [ofEntries]
    split
    · rename_i child
      rw [if_pos child, Nat.max_le] at deep
      obtain ⟨name, fits⟩ := here.name_fits child
      exact fits_ofValue value fits deep.1 name (fits_ofEntries rest later deep.2)
    · rename_i special
      rw [if_neg special] at deep
      exact fits_ofEntries rest later deep

theorem fits_ofItems {levels : Nat} : ∀ (items : List Value) {name : String} {more : Forest},
    (∀ item ∈ items, Value.Fitting true item) → Value.itemsDepth items ≤ levels → IsName name.toList →
      more.Fits levels → (ofItems name items more).Fits levels
  | [], _, _, _, _, _, fits => fits
  | item :: rest, _, _, each, deep, name, fits => by
    obtain ⟨here, later⟩ := List.forall_mem_cons.1 each
    obtain ⟨deep, deeper⟩ := Nat.max_le.1 deep
    exact fits_ofValue item here deep name (fits_ofItems rest later deeper name fits)

end

end Forest

/-- A value whose elements fit into a document is written as one, and what is read of it is, up to the order of
entries, what comes back of the value. -/
theorem Value.render_document {value : Value} {entries : Entries} {settings : Settings}
    (same : value.canonical = .map entries) (distinct : (map entries).Distinct)
    (fits : (Forest.ofValue settings.rootTag (.map entries) .nil).Fits maxDepth)
    (blank : ∀ layout ∈ settings.layout?, layout.Blank) :
    ∃ tag inside, Document (value.render settings) tag inside ∧
      (tag.node inside).toValue.canonical = (map (normalEntries entries)).canonical := by
  rw [Value.render, Writer.value, same]
  have written := Forest.write_ofValue settings.rootTag (.map entries) .nil { layout? := settings.layout? }
  rw [Forest.ofValue] at fits written
  rw [Forest.write] at written
  obtain ⟨tag, inside, document, read⟩ := Forest.write_document fits.named fits.deep blank
  rw [written] at document
  refine ⟨tag, inside, document, ?_⟩
  cases distinct with
  | map keys each =>
    rw [read, Entries.canonical_ofParts (Forest.children_ofEntries entries each), Entries.canonical_parts keys]

/-- What is read of a rendered value is what the value was, if the value is that of an element. -/
theorem Value.Whole.render {value : Value} {settings : Settings} (whole : Whole maxDepth value)
    (root : Text.isName settings.rootTag = true) (blank : ∀ layout ∈ settings.layout?, layout.Blank) :
    ∃ tag inside, Document (value.render settings) tag inside ∧
      (tag.node inside).toValue.canonical = value.canonical := by
  have sorted := whole.canonical
  obtain ⟨entries, same⟩ := sorted.isMap
  rw [same] at sorted
  have fits := Forest.fits_ofValue _ (sorted.fitting false) sorted.depth_le (isName_iff.1 root) ⟨.nil, Nat.zero_le _⟩
  obtain ⟨tag, inside, document, read⟩ := render_document same sorted.distinct fits blank
  have settled := sorted.contents
  rw [Value.contents] at settled
  refine ⟨tag, inside, document, ?_⟩
  rw [read, List.singleton_inj.1 settled, ← same, canonical_canonical]

/-- A tree that was read is read again from what it is rendered as, and rendering it again changes nothing. -/
theorem Node.reparse_render {input : List UInt8} {node : Node} (settings : Settings)
    (parsed : ofBytes input = .ok node)
    (root : Text.isName settings.rootTag = true) (blank : ∀ layout ∈ settings.layout?, layout.Blank) :
    ∃ again, ofBytes (node.render settings) = .ok again ∧ (again == node) = true ∧
      again.render settings = node.render settings := by
  obtain ⟨tag, inside, document, rfl⟩ := ofBytes_eq_ok_iff.1 parsed
  obtain ⟨tag', inside', document', read⟩ := document.whole.render root blank
  refine ⟨tag'.node inside', ofBytes_eq_ok_iff.2 ⟨tag', inside', document', rfl⟩, ?_, ?_⟩
  · rw [show (tag'.node inside' == tag.node inside) = same _ _ from rfl, same_eq]
    exact Value.same_of_canonical document'.whole.distinct document.whole.distinct read
  · rw [render, render, Value.render, Value.render, Writer.value, Writer.value, read]

/-- Children of one name with text between them, rendered with a tab for each level. -/
theorem Node.reparse_render_indented : ∃ node, ofBytes (bytes "<a x='1'><b/>t<b/></a>") = .ok node ∧
    ∃ again, ofBytes (node.render ⟨"r", some ⟨"", "\t"⟩⟩) = .ok again ∧ (again == node) = true ∧
      again.render ⟨"r", some ⟨"", "\t"⟩⟩ = node.render ⟨"r", some ⟨"", "\t"⟩⟩ := by
  have parsed : ofBytes (bytes "<a x='1'><b/>t<b/></a>") = .ok (.object [("@x", .literal "1" ⟨5, 1, 6⟩),
      ("b", .array [.object [] ⟨9, 1, 10⟩, .object [] ⟨14, 1, 15⟩] ⟨9, 1, 10⟩), ("#text", .literal "t" ⟨13, 1, 14⟩)]
      ⟨0, 1, 1⟩) := by rfl
  refine ⟨_, parsed, reparse_render _ parsed (by decide) ?_⟩
  rintro _ ⟨⟩
  exact ⟨by simp, by simp [isSpace]⟩

end XmlBinding
