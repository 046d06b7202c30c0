import XmlBinding.Proofs.Escaping
import XmlBinding.Proofs.Meaning
import XmlBinding.Proofs.Measure

/-! Texts that the grammar reads in one way wherever they stand. Each piece of markup that a writer puts down is such
a passage, and passages one after another are again a passage that means what they mean together. -/
namespace XmlBinding
open Text

/-- The content of an element with these attributes, children, text and CDATA, of which empty text does not count. -/
def Value.ofParts (attributes : Keyed String) (children : Keyed Value) (text : String) (cdata? : Option String) :
    Value :=
  .map (Parts.entries coalesce {
    attributes := attributes.map fun entry => (entry.1, .string entry.2)
    children
    text? := if text = "" then none else some (.string text)
    cdata? := cdata?.map .string })

/-- An element of children only holds them as they are, if their names differ. -/
theorem Value.ofParts_children {children : Keyed Value} (distinct : children.Distinct) :
    ofParts [] children "" none = .map children := by
  rw [← List.nil_append children] at distinct
  exact congrArg map (Keyed.insertAll_eq_append distinct coalesce)

namespace Grammar

/-- A body with another behind it. -/
def Body.append : Body → Body → Body
  | done, last => last
  | text run place more, last => text run place (more.append last)
  | comment more, last => comment (more.append last)
  | cdata body place more, last => cdata body place (more.append last)
  | element tag inside more, last => element tag inside (more.append last)

theorem Contents.append (first : Contents nested c body d) (second : Contents nested d last e) :
    Contents nested c (body.append last) e := by
  induction first with
  | done => exact second
  | text some plain spelled rest ih => exact .text some plain spelled (ih second)
  | comment enclosed rest ih => exact .comment enclosed (ih second)
  | cdata enclosed rest ih => exact .cdata enclosed (ih second)
  | element inner rest ih => exact .element inner (ih second)

theorem Body.written_append (body last : Body) : (body.append last).written = body.written ++ last.written := by
  induction body with
  | done => exact String.empty_append.symm
  | text run place more ih => rw [append, written, written, ih, String.append_assoc]
  | comment more ih => exact ih
  | cdata body place more ih => exact ih
  | element tag inside more _ ih => exact ih

theorem Body.cdata?_append (body last : Body) : (body.append last).cdata?.map Prod.fst =
    (body.cdata?.map Prod.fst).merge (· ++ ·) (last.cdata?.map Prod.fst) := by
  induction body with
  | done => cases h : last.cdata? <;> simp [append, cdata?, h]
  | text run place more ih => exact ih
  | comment more ih => exact ih
  | cdata body place more ih =>
    rw [append, cdata?, cdata?, Option.map_some, Option.map_some]
    cases h : (more.append last).cdata? <;> cases h' : more.cdata? <;> cases h'' : last.cdata? <;>
      simp_all [String.append_assoc]
  | element tag inside more _ ih => exact ih

theorem Body.children_append (body last : Body) : (body.append last).children = body.children ++ last.children := by
  induction body with
  | done => rfl
  | text run place more ih => exact ih
  | comment more ih => exact ih
  | cdata body place more ih => exact ih
  | element tag inside more _ ih => exact congrArg (_ :: ·) ih

/-- Wherever it stands, a text is content with this text, these sections and these children. -/
structure Passage (levels : Nat) (passage text : String) (cdata? : Option String) (children : Keyed Value) :
    Prop where
  reads : Spells c passage d → ∃ body, Contents (Element levels) c body d ∧ body.written = text ∧
    body.cdata?.map Prod.fst = cdata? ∧ body.children.map (fun child => (child.1, child.2.toValue)) = children

/-- Wherever it stands, a text is an element of this name and with this content. -/
structure Rendition (levels : Nat) (text name : String) (value : Value) : Prop where
  reads : Spells c text d → ∃ tag inside, Element levels c tag inside d ∧ tag.name = name ∧
    (tag.node inside).toValue = value

namespace Passage

theorem empty (levels : Nat) : Passage levels "" "" none [] := by
  refine ⟨fun {c d} spelled => ?_⟩
  obtain rfl : d = c := spelled.past
  exact ⟨.done, .done, rfl, rfl, rfl⟩

theorem append (first : Passage levels passage text cdata? children)
    (second : Passage levels passage' text' cdata?' children') :
    Passage levels (passage ++ passage') (text ++ text') (cdata?.merge (· ++ ·) cdata?') (children ++ children') := by
  refine ⟨fun {c e} spelled => ?_⟩
  obtain ⟨d, before, after⟩ := spelled.split
  obtain ⟨body, contents, rfl, rfl, rfl⟩ := first.reads before
  obtain ⟨last, contents', rfl, rfl, rfl⟩ := second.reads after
  exact ⟨body.append last, contents.append contents', body.written_append last, body.cdata?_append last,
    by rw [Body.children_append, List.map_append]⟩

theorem run (levels : Nat) (plain : '<' ∉ text.toList) : Passage levels text text none [] := by
  refine ⟨fun {c d} spelled => ?_⟩
  by_cases none : text = ""
  · subst none
    exact (empty levels).reads spelled
  · exact ⟨.text text c.place .done, .text none plain spelled .done, String.append_empty, rfl, rfl⟩

theorem cdataSection (levels : Nat) (free : ¬ Section.cdata.terminator.toList <:+: body.toList) :
    Passage levels (Section.cdata.opening ++ body ++ Section.cdata.terminator) "" (some body) [] := by
  refine ⟨fun {c d} spelled => ?_⟩
  exact ⟨.cdata body c.place .done, .cdata ⟨free, spelled⟩ .done, rfl, by simp [Body.cdata?], rfl⟩

/-- Written CDATA is read as sections that together hold the text. -/
theorem cdata (levels : Nat) (text : String) :
    Passage levels (Section.cdata.opening ++ String.ofList (splitCData text.toList) ++ Section.cdata.terminator) ""
      (some text) [] := by
  obtain ⟨first, more, whole, written, free⟩ := splitCData_eq text.toList
  rw [written, ← String.ofList_toList (s := text), ← whole]
  clear written whole
  induction more generalizing first with
  | nil =>
    have here : ¬ Section.cdata.terminator.toList <:+: (String.ofList first).toList := by
      simpa using free first List.mem_cons_self
    simpa using cdataSection levels here
  | cons next more ih =>
    obtain ⟨here, free⟩ := List.forall_mem_cons.1 free
    rw [← String.toList_ofList (l := first)] at here
    have both := (cdataSection levels here).append (ih next free)
    simpa [String.ofList_append, String.append_assoc] using both

theorem element (rendition : Rendition levels text name value) : Passage levels text "" none [(name, value)] := by
  refine ⟨fun {c d} spelled => ?_⟩
  obtain ⟨tag, inside, read, rfl, rfl⟩ := rendition.reads spelled
  exact ⟨.element tag inside .done, .element read .done, rfl, rfl, rfl⟩

end Passage

/-- The content of an element, by its parts. -/
theorem Tag.toValue_parts (tag : Tag) (inside : Body) : (tag.node inside).toValue = .ofParts
    (tag.attributes.map fun written => (written.name, decodeAttribute written.inside))
    (inside.children.map fun child => (child.1, child.2.toValue)) (unescape (trimSpace inside.written))
    (inside.cdata?.map Prod.fst) := by
  rw [toValue_node, Value.ofParts, Parts.map, parts, List.map_map, List.map_map, Option.map_map, Option.map_map]
  by_cases blank : trimSpace inside.written = ""
  · rw [if_pos blank, if_pos (unescape_eq_empty_iff.2 blank)]
    rfl
  · rw [if_neg blank, if_neg (mt unescape_eq_empty_iff.1 blank)]
    rfl

/-- The attributes of a tag as they are written. -/
def attributesText : Keyed String → String
  | [] => ""
  | (name, value) :: rest =>
    " " ++ (name ++ ("=" ++ (String.ofList ('"' :: (attributeValue value).toList ++ ['"']) ++ attributesText rest)))

/-- A tag as it is written, up to its end. -/
def tagText (name : String) (attributes : Keyed String) : String :=
  "<" ++ (name ++ attributesText attributes)

/-- A name ends where a character stands that may not go on with it. -/
theorem name_spelled (named : IsName name.toList) (spelled : Spells c name d) (next : Spells d text e)
    (first : text.toList.head? = some ch) (ends : ¬ NameChar ch) : Name c name d := by
  refine ⟨spelled, named, ?_⟩
  rintro ⟨ch', more, nameChar, ahead⟩
  cases chars : text.toList with
  | nil => rw [chars] at first; cases first
  | cons head rest =>
    rw [chars] at first
    cases first
    rw [next.ahead, bytes_eq_spell, chars, spell_cons, List.append_assoc] at ahead
    obtain ⟨rfl, -⟩ := spelling_unique ahead
    exact ends nameChar

theorem not_nameChar : ¬ NameChar ' ' ∧ ¬ NameChar '=' ∧ ¬ NameChar '/' ∧ ¬ NameChar '>' := by
  unfold NameChar NameStart
  decide

theorem attributes_spelled (named : ∀ entry ∈ attributes, IsName entry.1.toList)
    (spelled : Spells c (attributesText attributes) d) : ∃ list, Attributes c list d ∧
      list.map (fun written => (written.name, decodeAttribute written.inside)) = attributes := by
  induction attributes generalizing c with
  | nil =>
    obtain rfl : d = c := spelled.past
    exact ⟨[], .nil, rfl⟩
  | cons entry rest ih =>
    obtain ⟨name, value⟩ := entry
    obtain ⟨here, named⟩ := List.forall_mem_cons.1 named
    obtain ⟨c₁, space, spelled⟩ := spelled.split
    obtain ⟨c₂, name', spelled⟩ := spelled.split
    obtain ⟨c₃, equals, spelled⟩ := spelled.split
    obtain ⟨c₄, quoted, spelled⟩ := spelled.split
    obtain ⟨list, attributes, same⟩ := ih named spelled
    have quotable := (protect_written (.inl rfl) value.toList).quotable
    refine ⟨⟨name, attributeValue value, c₃.place⟩ :: list, .cons ⟨" ", by simp [isSpace], space⟩ (.intro
      (name_spelled here name' equals rfl not_nameChar.2.1) (.refl _) equals (.refl _)
      ⟨'"', .inl rfl, by rwa [attributeValue, String.toList_ofList], quoted⟩) attributes, ?_⟩
    rw [List.map_cons, same, decodeAttribute_attributeValue]

theorem opening_spelled (isEmpty : Bool) (named : IsName name.toList)
    (each : ∀ entry ∈ attributes, IsName entry.1.toList)
    (spelled : Spells c (tagText name attributes ++ ending isEmpty) d) :
      ∃ tag, Opening isEmpty c tag d ∧ tag.name = name ∧
      tag.attributes.map (fun written => (written.name, decodeAttribute written.inside)) = attributes := by
  obtain ⟨c₃, front, ends⟩ := spelled.split
  obtain ⟨c₁, opens, front⟩ := front.split
  obtain ⟨c₂, name', rest⟩ := front.split
  obtain ⟨list, read, same⟩ := attributes_spelled each rest
  refine ⟨⟨name, list, c.place⟩, .intro opens ?_ read (.refl _) ends, rfl, same⟩
  cases attributes with
  | nil =>
    obtain rfl : c₃ = c₂ := rest.past
    cases isEmpty
    · exact name_spelled named name' ends rfl not_nameChar.2.2.2
    · exact name_spelled named name' ends rfl not_nameChar.2.2.1
  | cons entry more =>
    obtain ⟨_, space, -⟩ := rest.split
    exact name_spelled named name' space rfl not_nameChar.1

theorem closing_spelled (named : IsName name.toList) (spelled : Spells c ("</" ++ (name ++ ">")) d) :
    Closing c name d := by
  obtain ⟨c₁, opens, spelled⟩ := spelled.split
  obtain ⟨c₂, spelled, ends⟩ := spelled.split
  exact .intro opens (name_spelled named spelled ends rfl not_nameChar.2.2.2) (.refl _) ends

namespace Rendition
variable {name : String} {attributes : Keyed String} (named : IsName name.toList)
    (each : ∀ entry ∈ attributes, IsName entry.1.toList)
include named each

/-- An element that ends with its tag. -/
theorem empty (levels : Nat) :
    Rendition (levels + 1) (tagText name attributes ++ "/>") name (.ofParts attributes [] "" none) := by
  refine ⟨fun {c d} spelled => ?_⟩
  obtain ⟨tag, opening, rfl, rfl⟩ := opening_spelled true named each spelled
  exact ⟨tag, .done, .empty opening, rfl, tag.toValue_parts .done⟩

/-- An element with a closing tag, whose text may have spaces around it. -/
theorem full {before after : String} (front : ∀ ch ∈ before.toList, isSpace ch = true)
    (behind : ∀ ch ∈ after.toList, isSpace ch = true)
    (content : Passage levels passage (before ++ characterData text ++ after) cdata? children) :
    Rendition (levels + 1) (tagText name attributes ++ ">" ++ passage ++ ("</" ++ (name ++ ">"))) name
      (.ofParts attributes children text cdata?) := by
  refine ⟨fun {c d} spelled => ?_⟩
  obtain ⟨c₂, spelled, closes⟩ := spelled.split
  obtain ⟨c₁, opens, inner⟩ := spelled.split
  obtain ⟨tag, opening, rfl, rfl⟩ := opening_spelled false named each opens
  obtain ⟨inside, contents, written, rfl, rfl⟩ := content.reads inner
  refine ⟨tag, inside, .full opening contents (closing_spelled named closes), rfl, ?_⟩
  rw [tag.toValue_parts, written, unescape_characterData front behind]

end Rendition

end Grammar

end XmlBinding
