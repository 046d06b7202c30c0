import XmlBinding.Proofs.Meaning
import XmlBinding.Proofs.ParsingComplete
import XmlBinding.Proofs.Reading

/-! Both readers against the grammar, and so against each other. Each reads a document exactly if the grammar derives
it, and what each makes is what the derivation means: the tree, or its content as a native value. -/
namespace XmlBinding
open Text Grammar

namespace Node

theorem toEntries_put (properties : Properties) (key : String) (node : Node) :
    toEntries (properties.put key node) = Keyed.put (toEntries properties) key node.toValue := by
  simp only [toEntries_eq_map]
  exact Keyed.map_put toValue properties key node

theorem toEntries_insertChild (properties : Properties) (name : String) (child : Node) :
    toEntries (properties.insertChild name child) =
      Entries.insertChild (toEntries properties) name child.toValue := by
  simp only [toEntries_eq_map]
  exact Keyed.map_insertWith toValue toValue_coalesce properties name child

/-- An element is ended alike in a tree and in a map. -/
theorem toEntries_finish (content : Content) (place : Position) : toEntries (content.finish place) =
    Reading.finish .entries (toEntries content.properties) content.text (content.cdata?.map Prod.fst) := by
  unfold Content.finish Reading.finish
  cases content.cdata? with
  | none =>
    dsimp only [Option.map]
    split
    · rfl
    · exact toEntries_put _ _ _
  | some sections =>
    dsimp only [Option.map]
    rw [toEntries_put]
    split
    · rfl
    · rw [toEntries_put]
      rfl

end Node

namespace Grammar

theorem toEntries_addAttributes (list : List Attribute) (properties : Properties) :
    Node.toEntries (addAttributes properties list) =
      Builder.entries.addAttributes (Node.toEntries properties) list := by
  induction list generalizing properties with
  | nil => rfl
  | cons written rest ih => exact (ih _).trans (by rw [Node.toEntries_put]; rfl)

/-- Whatever a body is added to, the tree and the map that come of it have the same content. -/
theorem Body.toEntries_addTo (body : Body) (soFar : Content) (place : Position) :
    Node.toEntries ((body.addTo soFar).finish place) =
      Builder.entries.complete body (Node.toEntries soFar.properties) soFar.text (soFar.cdata?.map Prod.fst) := by
  induction body generalizing soFar place with
  | done => exact Node.toEntries_finish soFar place
  | text run at' more ih => exact ih _ place
  | comment more ih => exact ih soFar place
  | cdata body at' more ih =>
    rw [addTo, ih, Builder.complete, Content.addCData]
    cases soFar.cdata? <;> simp [Builder.kept, Builder.entries]
  | element tag inside more inner ih =>
    rw [addTo, ih, Builder.complete, Node.toEntries_insertChild, Node.toValue, inner, toEntries_addAttributes]
    rfl

/-- The content of the tree of an element is the map that is made of the element. -/
theorem Tag.node_toValue (tag : Tag) (inside : Body) :
    (tag.node inside).toValue = .map (Builder.entries.made tag inside) := by
  rw [node, Node.toValue, Body.toEntries_addTo, toEntries_addAttributes]
  rfl

end Grammar

/-- The tree of some input is that of a derivation of it. -/
theorem Node.ofBytes_eq_ok_iff {input : List UInt8} {node : Node} :
    ofBytes input = .ok node ↔ ∃ tag inside, Document input tag inside ∧ node = tag.node inside := by
  have here := ofBytes_reads input
  constructor
  · intro ran
    unfold ofBytes ofTokens at ran
    split at ran
    · rename_i root p' parsed
      cases ran
      exact Parse.document_sound (p := ⟨(Lexer.ofBytes input).tokens, ()⟩) here parsed
    · cases ran
  · rintro ⟨tag, inside, document, rfl⟩
    obtain ⟨p', parsed⟩ := Parse.document_complete (p := ⟨(Lexer.ofBytes input).tokens, ()⟩) here document
    unfold ofBytes ofTokens
    rw [parsed]

/-- What a builder makes of some input is what it makes of a derivation of it. -/
theorem Reading.document_eq_ok_iff (builder : Builder ε) {input : List UInt8} {made : ε} :
    (∃ s', document builder (.ofBytes input) = .ok (made, s')) ↔
      ∃ tag inside, Document input tag inside ∧ made = builder.made tag inside := by
  constructor
  · rintro ⟨s', ran⟩
    exact document_sound builder ran
  · rintro ⟨tag, inside, document, rfl⟩
    exact document_complete builder document

theorem validate_eq_ok_iff {input : List UInt8} :
    validate (.ofBytes input) = .ok () ↔ ∃ tag inside, Document input tag inside := by
  have read : (∃ s', Reading.document .nothing (.ofBytes input) = .ok ((), s')) ↔ _ := Reading.document_eq_ok_iff _
  simp only [and_true] at read
  rw [← read, validate]
  cases Reading.document .nothing (.ofBytes input) with
  | error error => simp [Except.map]
  | ok result => exact ⟨fun _ => ⟨result.2, rfl⟩, fun _ => rfl⟩

theorem Value.ofStream_eq_ok_iff {input : List UInt8} {value : Value} :
    ofStream (.ofBytes input) = .ok value ↔
      ∃ tag inside, Document input tag inside ∧ value = .map (Builder.entries.made tag inside) := by
  unfold ofStream
  constructor
  · intro ran
    cases read : Reading.document .entries (.ofBytes input) with
    | error error => rw [read] at ran; cases ran
    | ok result =>
      rw [read] at ran
      cases ran
      obtain ⟨tag, inside, document, made⟩ := Reading.document_sound .entries read
      exact ⟨tag, inside, document, congrArg Value.map made⟩
  · rintro ⟨tag, inside, document, rfl⟩
    obtain ⟨s', read⟩ := Reading.document_complete .entries document
    rw [read]
    rfl

theorem Except.isOk_iff {result : Except ε α} : result.isOk = true ↔ ∃ a, result = .ok a := by
  cases result <;> simp [Except.isOk, Except.toBool]

/-- The tree is read, the input is found valid and its value is read for the same inputs, whatever these are. -/
theorem readers_accept_alike (input : List UInt8) :
    (Node.ofBytes input).isOk = (validate (.ofBytes input)).isOk ∧
      (Node.ofBytes input).isOk = (Value.ofStream (.ofBytes input)).isOk := by
  have tree : (Node.ofBytes input).isOk = true ↔ ∃ tag inside, Document input tag inside := by
    simp only [Except.isOk_iff, Node.ofBytes_eq_ok_iff]
    exact ⟨fun ⟨_, tag, inside, document, _⟩ => ⟨tag, inside, document⟩,
      fun ⟨tag, inside, document⟩ => ⟨_, tag, inside, document, rfl⟩⟩
  have valid : (validate (.ofBytes input)).isOk = true ↔ ∃ tag inside, Document input tag inside := by
    rw [Except.isOk_iff, ← validate_eq_ok_iff]
    exact ⟨fun ⟨_, ok⟩ => ok, fun ok => ⟨(), ok⟩⟩
  have value : (Value.ofStream (.ofBytes input)).isOk = true ↔ ∃ tag inside, Document input tag inside := by
    simp only [Except.isOk_iff, Value.ofStream_eq_ok_iff]
    exact ⟨fun ⟨_, tag, inside, document, _⟩ => ⟨tag, inside, document⟩,
      fun ⟨tag, inside, document⟩ => ⟨_, tag, inside, document, rfl⟩⟩
  exact ⟨Bool.eq_iff_iff.2 (tree.trans valid.symm), Bool.eq_iff_iff.2 (tree.trans value.symm)⟩

/-- The value that is read from some input is the content of the tree that is read from it. -/
theorem Value.ofStream_toOption (input : List UInt8) :
    (ofStream (.ofBytes input)).toOption = (Node.ofBytes input).toOption.map Node.toValue := by
  cases parsed : Node.ofBytes input with
  | ok node =>
    obtain ⟨tag, inside, document, rfl⟩ := Node.ofBytes_eq_ok_iff.1 parsed
    rw [ofStream_eq_ok_iff.2 ⟨tag, inside, document, rfl⟩, ← Tag.node_toValue]
    rfl
  | error error =>
    cases read : ofStream (.ofBytes input) with
    | error => rfl
    | ok value =>
      obtain ⟨tag, inside, document, -⟩ := ofStream_eq_ok_iff.1 read
      cases parsed.symm.trans (Node.ofBytes_eq_ok_iff.2 ⟨tag, inside, document, rfl⟩)

/-- A tree is read from some input exactly if the input is text that the grammar derives, and then it is the tree
that the derivation denotes. -/
theorem Node.ofBytes_denotes (input : List UInt8) (node : Node) :
    ofBytes input = .ok node ↔ (∃ text, bytes text = input) ∧
      ∃ tag inside, Document input tag inside ∧ Denotes tag inside node ∧ node = tag.node inside := by
  rw [ofBytes_eq_ok_iff]
  constructor
  · rintro ⟨tag, inside, document, rfl⟩
    exact ⟨document.spelled, tag, inside, document, document.denotes, rfl⟩
  · rintro ⟨-, tag, inside, document, -, same⟩
    exact ⟨tag, inside, document, same⟩

end XmlBinding
