import XmlBinding.Proofs.Passages

/-! Elements as a writer puts them down. What is written into an element that is still open is followed as a passage
that grows from step to step, and the tag that closes the element makes a whole of it; the lines that a layout adds
are spaces around the text, and so they change nothing. -/
namespace XmlBinding
open Text Grammar

/-- Nothing but spaces is added by a layout. -/
structure Layout.Blank (layout : Layout) : Prop where
  lineStart : ∀ ch ∈ layout.lineStart.toList, isSpace ch = true
  indent : ∀ ch ∈ layout.indent.toList, isSpace ch = true

namespace Writer

/-- Between two states of a writer some text is put down, and no tag is ended. -/
structure Adds (w : Writer) (text : String) (w' : Writer) : Prop where
  out : w'.out.toList = w.out.toList ++ bytes text
  tagOpen : w'.tagOpen = w.tagOpen
  layout : w'.layout? = w.layout?

theorem Adds.refl (w : Writer) : Adds w "" w := ⟨by simp, rfl, rfl⟩

theorem Adds.trans (first : Adds w a w') (second : Adds w' b w'') : Adds w (a ++ b) w'' where
  out := by rw [second.out, first.out, bytes_append, List.append_assoc]
  tagOpen := second.tagOpen.trans first.tagOpen
  layout := second.layout.trans first.layout

theorem put_adds (w : Writer) (text : String) : Adds w text (w.put text) := ⟨by simp [put], rfl, rfl⟩

/-- Some spaces are put down between two states of a writer. -/
def AddsBlank (w w' : Writer) : Prop := ∃ blank : String, (∀ ch ∈ blank.toList, isSpace ch = true) ∧ Adds w blank w'

theorem AddsBlank.trans (first : AddsBlank w w') (second : AddsBlank w' w'') : AddsBlank w w'' := by
  obtain ⟨a, all, first⟩ := first
  obtain ⟨b, all', second⟩ := second
  exact ⟨a ++ b, forall_mem_append all all', first.trans second⟩

theorem AddsBlank.refl (w : Writer) : AddsBlank w w := ⟨"", by simp, .refl w⟩

theorem put_addsBlank (w : Writer) {text : String} (all : ∀ ch ∈ text.toList, isSpace ch = true) :
    AddsBlank w (w.put text) := ⟨text, all, w.put_adds text⟩

theorem newLine_addsBlank {w : Writer} (blank : ∀ layout ∈ w.layout?, layout.Blank) : AddsBlank w w.newLine := by
  have indents (layout : Layout) (spaced : layout.Blank) (parents : List Bool) (w : Writer) :
      AddsBlank w (parents.foldl (fun w _ => w.put layout.indent) w) := by
    induction parents generalizing w with
    | nil => exact .refl w
    | cons _ parents ih => exact (w.put_addsBlank spaced.indent).trans (ih _)
  unfold newLine
  cases chosen : w.layout? with
  | none => exact .refl w
  | some layout =>
    have spaced := blank layout chosen
    exact (put_addsBlank w (by simp [isSpace])).trans
      ((put_addsBlank _ spaced.lineStart).trans (indents layout spaced w.parents _))

theorem endTag_layout (w : Writer) : w.endTag.layout? = w.layout? := by
  unfold endTag
  split <;> rfl

theorem endTag_closed (w : Writer) : w.endTag.tagOpen = false := by
  unfold endTag
  split
  · rfl
  · rename_i closed
    exact Bool.eq_false_iff.2 closed

theorem line_addsBlank {w : Writer} (blank : ∀ layout ∈ w.layout?, layout.Blank) : AddsBlank w
    (if w.begun then w.newLine else match w.layout? with
      | none => w
      | some layout => w.put layout.lineStart) := by
  split
  · exact newLine_addsBlank blank
  · split
    · exact .refl w
    · rename_i layout chosen
      exact w.put_addsBlank (blank layout chosen).lineStart

/-- Before a child element nothing but spaces is put down. -/
theorem beginChild_addsBlank {w : Writer} (blank : ∀ layout ∈ w.layout?, layout.Blank) :
    AddsBlank w.endTag w.beginChild := by
  rw [← w.endTag_layout] at blank
  have line (parents : List Bool) : AddsBlank w.endTag { (if w.endTag.begun then newLine { w.endTag with parents }
      else match w.endTag.layout? with
        | none => { w.endTag with parents }
        | some layout => put { w.endTag with parents } layout.lineStart) with begun := true } := by
    obtain ⟨text, all, added⟩ := line_addsBlank (w := { w.endTag with parents }) blank
    exact ⟨text, all, added.out, added.tagOpen, added.layout⟩
  exact line _

/-- A tag with attributes that is left open. -/
def openTag (w : Writer) (name : String) (attributes : Keyed String) : Writer :=
  attributes.foldl (fun w entry => w.putAttribute entry.1 entry.2) (w.start name)

theorem putAttributes_adds (w : Writer) (attributes : Keyed String) :
    Adds w (attributesText attributes) (attributes.foldl (fun w entry => w.putAttribute entry.1 entry.2) w) := by
  induction attributes generalizing w with
  | nil => exact .refl w
  | cons entry rest ih =>
    obtain ⟨name, value⟩ := entry
    have quoted : " " ++ (name ++ ("=" ++ (String.ofList ('"' :: (attributeValue value).toList ++ ['"']) ++
        attributesText rest))) = " " ++ name ++ "=\"" ++ attributeValue value ++ "\"" ++ attributesText rest := by
      simp [← String.toList_inj]
    have here := ((((w.put_adds " ").trans (put_adds _ name)).trans (put_adds _ "=\"")).trans
      (put_adds _ (attributeValue value))).trans (put_adds _ "\"")
    rw [attributesText, quoted]
    exact here.trans (ih (w.putAttribute name value))

/-- After what stands before the tag, a tag that is left open has put down its name and its attributes. -/
theorem openTag_out (w : Writer) (name : String) (attributes : Keyed String) :
    (w.openTag name attributes).out.toList = w.beginChild.out.toList ++ bytes (tagText name attributes) ∧
      (w.openTag name attributes).tagOpen = true ∧ (w.openTag name attributes).layout? = w.beginChild.layout? := by
  have added := putAttributes_adds (w.start name) attributes
  have begun := (w.beginChild.put_adds "<").trans (put_adds _ name)
  refine ⟨?_, added.tagOpen, added.layout.trans begun.layout⟩
  rw [openTag, added.out, tagText]
  have front : (w.start name).out.toList = _ := begun.out
  rw [front, List.append_assoc, ← bytes_append, String.append_assoc]

theorem endTag_of_closed {w : Writer} (closed : w.tagOpen = false) : w.endTag = w := by
  rw [endTag, closed]
  rfl

/-- Writes the text of an element, and then its CDATA if it has any. -/
def putTexts (w : Writer) (text : String) (cdata? : Option String) : Writer :=
  cdata?.elim (w.text text) (w.text text).cdata

/-- Since a tag was opened, content with this text, these sections and these children has been put down. -/
structure Filled (levels : Nat) (opened w : Writer) (text : String) (cdata? : Option String)
    (children : Keyed Value) :
    Prop where
  layout : w.layout? = opened.layout?
  /-- As long as the tag is open there is no content. -/
  untouched : w.tagOpen = true → w.out = opened.out ∧ text = "" ∧ cdata? = none ∧ children = []
  content : ∃ passage before after, (∀ ch ∈ before.toList, isSpace ch = true) ∧
    (∀ ch ∈ after.toList, isSpace ch = true) ∧
    w.endTag.out.toList = opened.out.toList ++ bytes (">" ++ passage) ∧
    Passage levels passage (before ++ characterData text ++ after) cdata? children

namespace Filled
variable {levels : Nat} {opened w w' : Writer} {text name : String} {cdata? section? : Option String}
  {children elements : Keyed Value} {value : Value}

theorem start (levels : Nat) (isOpen : opened.tagOpen = true) : Filled levels opened opened "" none [] where
  layout := rfl
  untouched _ := ⟨rfl, rfl, rfl, rfl⟩
  content := by
    refine ⟨"", "", "", by simp, by simp, ?_, Passage.empty levels⟩
    rw [endTag, isOpen]
    exact (opened.put_adds ">").out

/-- A passage without any text but spaces that is put down is part of the content. -/
theorem add {spaces : String} (filled : Filled levels opened w text cdata? children)
    (all : ∀ ch ∈ spaces.toList, isSpace ch = true) (more : Passage levels passage spaces section? elements)
    (added : Adds w.endTag passage w') :
    Filled levels opened w' text (cdata?.merge (· ++ ·) section?) (children ++ elements) := by
  have closed := added.tagOpen.trans w.endTag_closed
  obtain ⟨inside, before, after, front, behind, soFar, content⟩ := filled.content
  refine ⟨added.layout.trans (w.endTag_layout.trans filled.layout),
    fun isOpen => absurd isOpen (by rw [closed]; exact Bool.false_ne_true),
    inside ++ passage, before, after ++ spaces, front, forall_mem_append behind all, ?_, ?_⟩
  · rw [endTag_of_closed closed, added.out, soFar, List.append_assoc, ← bytes_append, String.append_assoc]
  · rw [← String.append_assoc]
    exact content.append more

/-- Text is written before anything else, and nothing is put down for empty text. -/
theorem addText (filled : Filled levels opened w "" none []) (text : String) :
    Filled levels opened (w.text text) text none [] := by
  unfold Writer.text
  by_cases none : text = ""
  · subst none
    rwa [if_pos rfl]
  · rw [if_neg none]
    have added := w.endTag.put_adds (characterData text)
    have closed := added.tagOpen.trans w.endTag_closed
    obtain ⟨inside, before, after, front, behind, soFar, content⟩ := filled.content
    refine ⟨added.layout.trans (w.endTag_layout.trans filled.layout),
      fun isOpen => absurd isOpen (by rw [closed]; exact Bool.false_ne_true),
      inside ++ characterData text, before ++ after, "", forall_mem_append front behind, by simp, ?_, ?_⟩
    · rw [endTag_of_closed closed, added.out, soFar, List.append_assoc, ← bytes_append, String.append_assoc]
    · have both := content.append (Passage.run levels (characterData_plain text))
      rw [show characterData "" = "" from rfl, String.append_empty] at both
      rw [String.append_empty]
      exact both

/-- Written CDATA is part of the content. -/
theorem addCData (filled : Filled levels opened w text none []) (body : String) :
    Filled levels opened (w.cdata body) text (some body) [] := by
  have opened := (w.endTag.put_adds Section.cdata.opening).trans (put_adds _ (String.ofList (splitCData body.toList)))
  have added := opened.trans (put_adds _ Section.cdata.terminator)
  exact filled.add (by simp) (Passage.cdata levels body) added

theorem addTexts (filled : Filled levels opened w "" none []) (text : String) (cdata? : Option String) :
    Filled levels opened (w.putTexts text cdata?) text cdata? [] := by
  cases cdata? with
  | none => exact filled.addText text
  | some body => exact (filled.addText text).addCData body

/-- A whole element, on a line of its own, is part of the content. -/
theorem addChild (filled : Filled levels opened w text cdata? children) (blank : ∀ layout ∈ w.layout?, layout.Blank)
    (rendition : Rendition levels written name value) (added : Adds w.beginChild written w') :
    Filled levels opened w' text cdata? (children ++ [(name, value)]) := by
  obtain ⟨spaces, all, line⟩ := beginChild_addsBlank blank
  have plain : '<' ∉ spaces.toList := fun member => by cases all _ member
  have both := (Passage.run levels plain).append (Passage.element rendition)
  rw [String.append_empty] at both
  have whole := filled.add all both (line.trans added)
  rwa [show Option.merge (· ++ ·) cdata? (Option.merge (· ++ ·) none none) = cdata? by cases cdata? <;> rfl] at whole

/-- Closing an element makes a whole of its tag and its content. -/
theorem close {start : Writer} {attributes : Keyed String}
    (filled : Filled levels (start.openTag name attributes) w text cdata? children)
    (blank : ∀ layout ∈ start.layout?, layout.Blank) (named : IsName name.toList)
    (each : ∀ entry ∈ attributes, IsName entry.1.toList) :
    ∃ written, Rendition (levels + 1) written name (.ofParts attributes children text cdata?) ∧
      Adds start.beginChild written (w.close name) := by
  obtain ⟨front, -, sameLayout⟩ := start.openTag_out name attributes
  obtain ⟨_, -, first⟩ := beginChild_addsBlank blank
  have layout := filled.layout.trans sameLayout
  unfold Writer.close
  dsimp only
  split
  · rename_i isOpen
    obtain ⟨untouched, rfl, rfl, rfl⟩ := filled.untouched isOpen
    refine ⟨_, Rendition.empty named each levels, ?_, ?_, layout⟩
    · rw [bytes_append, ← List.append_assoc, ← front, ← untouched]
      exact (put_adds { w with parents := w.parents.tail } "/>").out
    · exact (first.tagOpen.trans start.endTag_closed).symm
  · rename_i isClosed
    have closed : w.tagOpen = false := Bool.eq_false_iff.2 isClosed
    have blank' : ∀ layout ∈ w.layout?, layout.Blank := by
      rw [layout, first.layout, endTag_layout]
      exact blank
    have line : AddsBlank { w with parents := w.parents.tail } (if w.parents.headD false = true then
        newLine { w with parents := w.parents.tail } else { w with parents := w.parents.tail }) := by
      split
      · exact newLine_addsBlank blank'
      · exact .refl _
    obtain ⟨spaces, all, added⟩ := line
    obtain ⟨inside, before, after, front', behind, soFar, content⟩ := filled.content
    have plain : '<' ∉ spaces.toList := fun member => by cases all _ member
    have whole := content.append (Passage.run levels plain)
    rw [String.append_assoc, List.append_nil,
      show Option.merge (· ++ ·) cdata? none = cdata? by cases cdata? <;> rfl] at whole
    have ending := ((added.trans (put_adds _ "</")).trans (put_adds _ name)).trans (put_adds _ ">")
    refine ⟨_, Rendition.full named each front' (forall_mem_append behind all) whole, ?_, ?_, ?_⟩
    · rw [endTag_of_closed closed, front] at soFar
      rw [ending.out, show Array.toList _ = _ from soFar]
      simp [bytes_append, List.append_assoc]
    · exact ending.tagOpen.trans (closed.trans (first.tagOpen.trans start.endTag_closed).symm)
    · exact ending.layout.trans layout

end Filled

end Writer

/-- Elements one after another, as they are to be written. -/
inductive Forest where
  | nil
  | element (name : String) (attributes : Keyed String) (text : String) (cdata? : Option String)
      (inside more : Forest)

namespace Forest

/-- What the elements hold, each under its name. -/
def children : Forest → Keyed Value
  | nil => []
  | element name attributes text cdata? inside more =>
    (name, .ofParts attributes inside.children text cdata?) :: more.children

theorem children_eq_nil_iff {forest : Forest} : forest.children = [] ↔ forest = .nil := by
  cases forest <;> simp [children]

/-- An element without content is written in one way only. -/
theorem eq_of_empty {forest : Forest} (same : forest.children = [(name, .map [])]) :
    forest = .element name [] "" none .nil .nil := by
  cases forest with
  | nil => cases same
  | element name' attributes text cdata? inside more =>
    obtain ⟨first, none⟩ := List.cons.inj same
    obtain ⟨rfl, content⟩ := Prod.mk.inj first
    obtain ⟨attributes, children, noText, noCData⟩ := Parts.entries_eq_nil (Value.map.inj content)
    obtain rfl := List.map_eq_nil_iff.1 attributes
    obtain rfl := children_eq_nil_iff.1 children
    obtain rfl := children_eq_nil_iff.1 none
    obtain rfl := Option.map_eq_none_iff.1 noCData
    dsimp only at noText
    split at noText
    · rename_i empty
      rw [empty]
    · cases noText

/-- How deep the elements nest. -/
def depth : Forest → Nat
  | nil => 0
  | element _ _ _ _ inside more => max (inside.depth + 1) more.depth

/-- The elements and their attributes have names. -/
inductive Named : Forest → Prop where
  | nil : Named nil
  | element (name : IsName tag.toList) (each : ∀ entry ∈ attributes, IsName entry.1.toList) (inside : Named forest)
      (more : Named rest) : Named (element tag attributes text cdata? forest rest)

/-- Writes the elements one after another. -/
def write : Forest → Writer → Writer
  | nil, w => w
  | element name attributes text cdata? inside more, w =>
    more.write ((inside.write ((w.openTag name attributes).putTexts text cdata?)).close name)

/-- Whatever is written goes into the content of the element that is open. -/
structure Fills (forest : Forest) (levels : Nat) : Prop where
  filled : (∀ layout ∈ opened.layout?, Layout.Blank layout) → Writer.Filled levels opened w text cdata? elements →
    Writer.Filled levels opened (forest.write w) text cdata? (elements ++ forest.children)

/-- The tag of an element, what is written inside and the closing tag are an element together. -/
theorem Fills.element {inside : Forest} {w : Writer} {name : String} {attributes : Keyed String}
    (fills : inside.Fills levels)
    (blank : ∀ layout ∈ w.layout?, layout.Blank) (named : IsName name.toList)
    (each : ∀ entry ∈ attributes, IsName entry.1.toList) (text : String) (cdata? : Option String) :
    ∃ written, Rendition (levels + 1) written name (.ofParts attributes inside.children text cdata?) ∧
      w.beginChild.Adds written ((inside.write ((w.openTag name attributes).putTexts text cdata?)).close name) := by
  obtain ⟨_, -, line⟩ := Writer.beginChild_addsBlank blank
  obtain ⟨-, isOpen, layout⟩ := w.openTag_out name attributes
  have blankInside : ∀ layout ∈ (w.openTag name attributes).layout?, layout.Blank := by
    rwa [layout, line.layout, Writer.endTag_layout]
  have texts := (Writer.Filled.start levels isOpen).addTexts text cdata?
  exact (fills.filled blankInside texts).close blank named each

theorem fills {forest : Forest} (named : forest.Named) (deep : forest.depth ≤ levels) : forest.Fills levels := by
  induction forest generalizing levels with
  | nil => exact ⟨fun _ filled => by rwa [Forest.children, List.append_nil]⟩
  | element name attributes text section? inside more ihInside ihMore =>
    cases named with
    | element named each namedInside namedMore =>
      rw [depth] at deep
      obtain ⟨levels, rfl⟩ : ∃ n, levels = n + 1 := ⟨levels - 1, by omega⟩
      refine ⟨fun blank filled => ?_⟩
      rw [← filled.layout] at blank
      have inner : inside.Fills levels := ihInside namedInside (by omega)
      obtain ⟨written, rendition, added⟩ := inner.element blank named each text section?
      rw [filled.layout] at blank
      have behind : more.Fills (levels + 1) := ihMore namedMore (by omega)
      have grown := behind.filled blank (filled.addChild (by rwa [filled.layout]) rendition added)
      rw [List.append_assoc] at grown
      exact grown

/-- An element that is written as a document is read as one. -/
theorem write_document {name : String} {attributes : Keyed String} {text : String} {cdata? : Option String}
    {inside : Forest} {layout? : Option Layout}
    (named : (element name attributes text cdata? inside nil).Named)
    (deep : (element name attributes text cdata? inside nil).depth ≤ maxDepth)
    (blank : ∀ layout ∈ layout?, layout.Blank) :
    ∃ tag body, Document ((element name attributes text cdata? inside nil).write { layout? }).finish tag body ∧
      (tag.node body).toValue = .ofParts attributes inside.children text cdata? := by
  cases named with
  | element named each namedInside _ =>
    have inner : inside.Fills 127 := fills namedInside (by rw [depth, maxDepth] at deep; omega)
    let w : Writer := { layout? }
    obtain ⟨spaces, all, line⟩ := Writer.beginChild_addsBlank (w := w) blank
    obtain ⟨written, rendition, added⟩ := inner.element (w := w) blank named each text cdata?
    have whole := line.trans added
    have output : ((element name attributes text cdata? inside nil).write w).finish = bytes (spaces ++ written) := by
      rw [Writer.finish, write, write, Writer.endTag_of_closed (whole.tagOpen.trans (Writer.endTag_closed _)),
        whole.out]
      rfl
    rw [output]
    have spelled : Spells (.start (bytes (spaces ++ written))) (spaces ++ written) _ :=
      .ofAhead (List.append_nil _).symm
    obtain ⟨c, before, after⟩ := spelled.split
    obtain ⟨tag, body, read, -, value⟩ := rendition.reads after
    exact ⟨tag, body, .intro ⟨spaces, all, before⟩ .none .done read .done List.drop_length, value⟩

end Forest

end XmlBinding
