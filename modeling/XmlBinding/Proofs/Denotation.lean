import XmlBinding.Native.Convert
import XmlBinding.Native.Reader
import XmlBinding.Proofs.Measure

/-! What a derivation means: the tree that it stands for, and what a builder makes of it. Neither depends on how
text is cut into runs, so a derivation may be assumed to have joined runs that touch. -/
namespace XmlBinding
open Text

theorem Text.trimSpace_empty : trimSpace "" = "" := rfl

namespace Grammar

/-- The properties of an element with further attributes, of which the last of a name counts. -/
def addAttributes (properties : Properties) (attributes : List Attribute) : Properties :=
  attributes.foldl (fun properties written =>
    properties.put (attributeKey written.name) (.literal (decodeAttribute written.inside) written.place)) properties

/-- Content with everything that a body adds to it. -/
def Body.addTo : Body → Content → Content
  | done, soFar => soFar
  | text run place more, soFar => more.addTo (soFar.addText run place)
  | comment more, soFar => more.addTo soFar
  | cdata body place more, soFar => more.addTo (soFar.addCData body place)
  | element tag inside more, soFar =>
    let own := inside.addTo { properties := addAttributes [] tag.attributes }
    let node := .object (own.finish tag.place) tag.place
    more.addTo { soFar with properties := soFar.properties.insertChild tag.name node }

/-- The tree of an element. -/
def Tag.node (tag : Tag) (inside : Body) : Node :=
  .object ((inside.addTo { properties := addAttributes [] tag.attributes }).finish tag.place) tag.place

/-- An element without content has no properties besides its attributes. -/
theorem finish_nothing (properties : Properties) (place : Position) :
    Content.finish { properties } place = properties := by
  rw [Content.finish, trimSpace_empty, if_pos rfl]

end Grammar

namespace Builder
open Grammar
variable (builder : Builder ε)

/-- What is left of a text that may not be wanted. -/
def kept (text : String) : String :=
  if builder.keepsText then text else ""

theorem getD_kept (text : String) : (if builder.keepsText then some text else none).getD "" = builder.kept text := by
  unfold kept
  split <;> rfl

/-- An element with further attributes. -/
def addAttributes (element : ε) (attributes : List Attribute) : ε :=
  attributes.foldl (fun element written =>
    if builder.keepsText then builder.addAttribute element written.name (decodeAttribute written.inside)
    else element) element

/-- An element that is complete after a body, with the text and the CDATA before it. -/
def complete : Body → ε → (text : String) → (cdata? : Option String) → ε
  | .done, element, text, cdata? => Reading.finish builder element text cdata?
  | .text run _ more, element, text, cdata? => complete more element (text ++ builder.kept run) cdata?
  | .comment more, element, text, cdata? => complete more element text cdata?
  | .cdata body _ more, element, text, cdata? =>
    complete more element text (some (cdata?.getD "" ++ builder.kept body))
  | .element tag inside more, element, text, cdata? =>
    let inner := complete inside (builder.addAttributes builder.element tag.attributes) "" none
    complete more (builder.addChild element tag.name inner) text cdata?

theorem finish_nothing (element : ε) : Reading.finish builder element "" none = element := by
  rw [Reading.finish, trimSpace_empty, if_pos rfl]

/-- What is made of a whole element. -/
def made (tag : Tag) (inside : Body) : ε :=
  builder.complete inside (builder.addAttributes builder.element tag.attributes) "" none

end Builder

namespace Grammar

/-- The body with runs of text that touch joined into one. -/
def Body.joined : Body → Body
  | done => done
  | text run place more =>
    match more.joined with
    | text next _ rest => text (run ++ next) place rest
    | other => text run place other
  | comment more => comment more.joined
  | cdata body place more => cdata body place more.joined
  | element tag inside more => element tag inside more.joined

/-- No two runs of text touch. -/
inductive Body.Joined : Body → Prop where
  | done : Joined .done
  | text (apart : ∀ next place' rest, more ≠ .text next place' rest) (rest : Joined more) :
      Joined (.text run place more)
  | comment (rest : Joined more) : Joined (.comment more)
  | cdata (rest : Joined more) : Joined (.cdata body place more)
  | element (rest : Joined more) : Joined (.element tag inside more)

theorem Body.joined_joined (body : Body) : body.joined.Joined := by
  induction body with
  | done => exact .done
  | text run place more ih =>
    rw [joined]
    split
    · rename_i next place' rest same
      rw [same] at ih
      cases ih with
      | text apart rest => exact .text apart rest
    · rename_i other apart
      exact .text apart ih
  | comment more ih => exact .comment ih
  | cdata body place more ih => exact .cdata ih
  | element tag inside more _ ih => exact .element ih

theorem Contents.joined (contents : Contents nested c body d) : Contents nested c body.joined d := by
  induction contents with
  | done => exact .done
  | text some plain spelled rest ih =>
    rw [Body.joined]
    split
    · rename_i next place' more same
      rw [same] at ih
      cases ih with
      | text some' plain' spelled' rest' =>
        refine .text ?_ ?_ (spelled.trans spelled') rest'
        · simp [some]
        · simp [plain, plain']
    · exact .text some plain spelled ih
  | comment enclosed rest ih => exact .comment enclosed ih
  | cdata enclosed rest ih => exact .cdata enclosed ih
  | element inner rest ih => exact .element inner ih

theorem addText_addText (content : Content) (first second : String) (place place' : Position) :
    (content.addText first place).addText second place' = content.addText (first ++ second) place := by
  simp only [Content.addText, String.append_assoc, Content.mk.injEq, true_and, and_true]
  cases content.textPosition? <;> rfl

@[simp] theorem Body.addTo_joined (body : Body) (soFar : Content) : body.joined.addTo soFar = body.addTo soFar := by
  induction body generalizing soFar with
  | done => rfl
  | text run place more ih =>
    rw [joined, Body.addTo, ← ih]
    split
    · rename_i next place' rest same
      rw [same, Body.addTo, Body.addTo, addText_addText]
    · rfl
  | comment more ih => exact ih soFar
  | cdata body place more ih => exact ih _
  | element tag inside more _ ih => exact ih _

end Grammar

@[simp] theorem Builder.complete_joined (builder : Builder ε) (body : Grammar.Body) (element : ε) (text : String)
    (cdata? : Option String) :
    builder.complete body.joined element text cdata? = builder.complete body element text cdata? := by
  induction body generalizing element text cdata? with
  | done => rfl
  | text run place more ih =>
    rw [Grammar.Body.joined, complete, ← ih]
    split
    · rename_i next place' rest same
      rw [same, complete, complete, String.append_assoc]
      simp only [kept]
      split <;> simp
    · rfl
  | comment more ih => exact ih _ _ _
  | cdata body place more ih => exact ih _ _ _
  | element tag inside more _ ih => exact ih _ _ _

end XmlBinding
