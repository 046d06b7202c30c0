import XmlBinding.Proofs.Agreement
import XmlBinding.Proofs.Passages

/-! Character data in an element. A text is written so that no tag begins in it and nothing of it is trimmed. With
spaces around it, it is the one run of text that its element holds, and both readers make the text of that run, wherever
the element stands. -/
namespace XmlBinding
open Text

/-- What is written for a text resolves to it. -/
theorem Text.unescape_written (text : String) : unescape (characterData text) = text := by
  have around : unescape (trimSpace ("" ++ characterData text ++ "")) = text :=
    unescape_characterData (by simp) (by simp)
  have trimmed : trimChars isSpace ([] ++ characterDataChars text.toList ++ []) = characterDataChars text.toList :=
    trimChars_padded (by simp) (characterDataChars_trimmed text.toList) (by simp)
  rw [List.nil_append, List.append_nil] at trimmed
  rwa [String.empty_append, String.append_empty, trimSpace, characterData, String.toList_ofList, trimmed,
    ← characterData] at around

namespace Grammar

/-- An element whose content is a text as it is written, with spaces around it. -/
inductive Holding (text : String) (c : Cursor) (tag : Tag) (d : Cursor) : Prop where
  | intro (opening : Opening false c tag c₁) (before : Space c₁ c₂) (written : Spells c₂ (characterData text) c₃)
      (after : Space c₃ c₄) (closing : Closing c₄ tag.name d)

/-- Such an element is derived, whatever might be nested in it, and its text is the one that was written. -/
theorem Holding.element (holding : Holding text c tag d) (some : text ≠ "") (levels : Nat) :
    ∃ inside, Element (levels + 1) c tag inside d ∧ unescape (trimSpace inside.written) = text := by
  obtain ⟨opening, ⟨before, front, first⟩, written, ⟨after, behind, last⟩, closing⟩ := holding
  have resolved : unescape (trimSpace (before ++ characterData text ++ after)) = text :=
    unescape_characterData front behind
  refine ⟨_, .full opening (.text ?_ ?_ ((first.trans written).trans last) .done) closing, ?_⟩
  · intro none
    rw [none, trimSpace_empty] at resolved
    exact some resolved.symm
  · have blank {space : String} (all : ∀ c ∈ space.toList, isSpace c = true) : '<' ∉ space.toList :=
      fun member => Bool.false_ne_true (all '<' member)
    rw [String.toList_append, String.toList_append, List.mem_append, List.mem_append]
    rintro ((inside | inside) | inside)
    · exact blank front inside
    · exact characterData_plain text inside
    · exact blank behind inside
  · rwa [Body.written, Body.written, String.append_empty]

/-- The tree of an element with text, and the map that is made of it, hold that text. -/
theorem Element.holds_text (read : Element levels c tag inside d)
    (resolved : unescape (trimSpace inside.written) = text) (some : text ≠ "") :
    (∃ (properties : Properties) (place : Position), tag.node inside = .object properties tag.place ∧
      properties.get? textKey = .some (.literal text place)) ∧
    (Builder.entries.made tag inside).get? textKey = .some (.string text) := by
  subst resolved
  have denotes := read.denotes
  have content := tag.node_toValue inside
  generalize tag.node inside = node at denotes content ⊢
  obtain ⟨nested, described⟩ := denotes
  have found := described.text
  rw [if_neg (mt unescape_eq_empty_iff.2 some)] at found
  rw [Node.toValue, Node.toEntries_eq_map] at content
  refine ⟨⟨_, _, rfl, found⟩, ?_⟩
  rw [← Value.map.inj content, Keyed.get?_map, found]
  rfl

end Grammar
open Grammar

/-- Character data survives being written and read. No tag begins in what is written for a text, no space stands at its
ends, and it resolves to the text. So an element that holds it with spaces around is read as an element with that text,
by the parser of tokens and by the direct reader, as deep in a document as may be; and a document that has it as its
root is read so as a tree and as a value. -/
theorem characterData_survives (text : String) :
    '<' ∉ (characterData text).toList ∧ Trimmed (characterData text).toList ∧ unescape (characterData text) = text ∧
    (text ≠ "" → ∀ c tag d, Holding text c tag d →
      (∀ (p : Parsing Unit) (parts levels : Nat), Reads .content c p.tokens → p.left ≤ parts →
        ∃ (properties : Properties) (place : Position), properties.get? textKey = some (.literal text place) ∧
          Parse.Passes (Parse.element .fresh parts (levels + 1)) p (tag.name, .object properties tag.place)
            .content d) ∧
      (∀ (s : Stream) (parts levels : Nat), s.At c → c.ahead.length ≤ parts →
        ∃ (entries : Entries) (s' : Stream), entries.get? textKey = some (.string text) ∧ s'.At d ∧
          Reading.element .entries parts (levels + 1) s = .ok ((tag.name, entries), s')) ∧
      ∀ (input : List UInt8) c₁ c₂ e, Space (.start input) c₁ → Prolog c₁ c₂ → Misc c₂ c → Misc d e → e.ahead = [] →
        (∃ (properties : Properties) (place : Position), properties.get? textKey = some (.literal text place) ∧
          Node.ofBytes input = .ok (.object properties tag.place)) ∧
        ∃ entries : Entries, entries.get? textKey = some (.string text) ∧
          Value.ofStream (.ofBytes input) = .ok (.map entries)) := by
  refine ⟨characterData_plain text, ?_, unescape_written text, fun some c tag d holding => ?_⟩
  · rw [characterData, String.toList_ofList]
    exact characterDataChars_trimmed text.toList
  refine ⟨fun p parts levels here bound => ?_, fun s parts levels here bound => ?_,
    fun input c₁ c₂ e space prolog before after ended => ?_⟩
  · obtain ⟨inside, read, resolved⟩ := holding.element some levels
    obtain ⟨⟨properties, place, node, found⟩, -⟩ := read.holds_text resolved some
    have passes := Parse.element_complete parts (levels + 1) here bound read
    rw [node] at passes
    exact ⟨properties, place, found, passes⟩
  · obtain ⟨inside, read, resolved⟩ := holding.element some levels
    obtain ⟨-, found⟩ := read.holds_text resolved some
    obtain ⟨s', ran, there⟩ := Reading.element_complete .entries parts (levels + 1) here bound read
    exact ⟨_, s', found, there, ran⟩
  · obtain ⟨inside, read, resolved⟩ := holding.element some (maxDepth - 1)
    obtain ⟨⟨properties, place, node, found⟩, found'⟩ := read.holds_text resolved some
    have document : Document input tag inside := .intro space prolog before read after ended
    exact ⟨⟨properties, place, found, node ▸ Node.ofBytes_eq_ok_iff.2 ⟨tag, inside, document, rfl⟩⟩,
      _, found', Value.ofStream_eq_ok_iff.2 ⟨tag, inside, document, rfl⟩⟩

/-- Text that begins and ends with a space and looks like a reference in between. -/
theorem characterData_survives_padded :
    (∃ (properties : Properties) (place : Position),
      properties.get? textKey = some (.literal "\t&lt;\n" place) ∧
        Node.ofBytes (bytes "<a> &#9;&amp;lt;&#10;\r\n</a>") = .ok (.object properties .start)) ∧
    ∃ entries : Entries, entries.get? textKey = some (.string "\t&lt;\n") ∧
      Value.ofStream (.ofBytes (bytes "<a> &#9;&amp;lt;&#10;\r\n</a>")) = .ok (.map entries) := by
  have named : IsName "a".toList := isName_iff.1 (by decide +kernel)
  have whole : "<a> &#9;&amp;lt;&#10;\r\n</a>" =
      (tagText "a" [] ++ ending false) ++
        (" " ++ (characterData "\t&lt;\n" ++ ("\r\n" ++ ("</" ++ ("a" ++ ">"))))) := by
    decide +kernel
  have spelled : Spells (.start (bytes "<a> &#9;&amp;lt;&#10;\r\n</a>")) "<a> &#9;&amp;lt;&#10;\r\n</a>" _ :=
    .ofAhead (List.append_nil _).symm
  rw [whole] at spelled
  obtain ⟨c₁, opens, spelled⟩ := spelled.split
  obtain ⟨c₂, before, spelled⟩ := spelled.split
  obtain ⟨c₃, written, spelled⟩ := spelled.split
  obtain ⟨c₄, after, closes⟩ := spelled.split
  obtain ⟨tag, opening, name, -⟩ := opening_spelled false named (List.forall_mem_nil _) opens
  have closing := closing_spelled named closes
  rw [← name] at closing
  have holding : Holding "\t&lt;\n" _ tag _ :=
    .intro opening ⟨" ", List.all_eq_true.1 (by decide), before⟩ written
      ⟨"\r\n", List.all_eq_true.1 (by decide), after⟩ closing
  have place : tag.place = .start := by
    cases opening
    rfl
  have survives := (characterData_survives "\t&lt;\n").2.2.2 (by decide) _ tag _ holding
  have read := survives.2.2 _ _ _ _ (.refl _) .none .done .done List.drop_length
  rw [place] at read
  exact read

end XmlBinding
