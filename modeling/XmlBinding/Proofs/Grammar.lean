import XmlBinding.Document.OfTokens
import XmlBinding.Proofs.Scanning

/-! The grammar of documents, as derivations between places in the input. A derivation also gives the tag and
the content that it reads, so that what a document means can be said without a parser. Every stretch that is
derived spells a text. -/
namespace XmlBinding
open Text

/-- A place in the input, with the bytes from there on. -/
structure Cursor where
  place : Position
  ahead : List UInt8

namespace Cursor

def start (input : List UInt8) : Cursor := ⟨.start, input⟩

/-- The place after the next `n` bytes. -/
def past (c : Cursor) (n : Nat) : Cursor := ⟨c.place.advance (c.ahead.take n), c.ahead.drop n⟩

/-- No space character is next. -/
def Unspaced (c : Cursor) : Prop := ∀ b more, c.ahead = b :: more → isSpaceByte b = false

end Cursor

namespace Grammar

/-- An attribute as it is written. -/
structure Attribute where
  name : String
  /-- What stands between the quotes. -/
  inside : String
  /-- Where the opening quote stands. -/
  place : Position

/-- The tag that opens an element. -/
structure Tag where
  name : String
  attributes : List Attribute
  place : Position

/-- The content of an element, part by part. -/
inductive Body where
  | done
  | text (run : String) (place : Position) (more : Body)
  | comment (more : Body)
  | cdata (body : String) (place : Position) (more : Body)
  | element (tag : Tag) (inside more : Body)

/-- The input from one place to another spells a text. -/
structure Spells (c : Cursor) (text : String) (d : Cursor) : Prop where
  ahead : c.ahead = bytes text ++ d.ahead
  place : d.place = c.place.advance (bytes text)

/-- Any number of space characters. -/
def Space (c d : Cursor) : Prop :=
  ∃ blank : String, (∀ ch ∈ blank.toList, isSpace ch = true) ∧ Spells c blank d

/-- A name, as long as it goes on. -/
structure Name (c : Cursor) (name : String) (d : Cursor) : Prop where
  spelled : Spells c name d
  named : IsName name.toList
  longest : ¬ GoesOn d.ahead

/-- A quoted string, which ends at the first quote of its kind that no backslash escapes. -/
inductive Quoted (c : Cursor) (inside : String) (d : Cursor) : Prop where
  | intro (quote : Char) (kind : quote = '"' ∨ quote = '\'') (quotable : Scan.Quotable quote inside.toList)
      (spelled : Spells c (String.ofList (quote :: inside.toList ++ [quote])) d)

/-- One attribute: a name and, after an equals sign, its value. -/
inductive Attr : Cursor → Attribute → Cursor → Prop where
  | intro (named : Name c name c₁) (before : Space c₁ c₂) (equals : Spells c₂ "=" c₃) (after : Space c₃ c₄)
      (value : Quoted c₄ inside d) : Attr c ⟨name, inside, c₄.place⟩ d

inductive Attributes : Cursor → List Attribute → Cursor → Prop where
  | nil : Attributes c [] c
  | cons (space : Space c c₁) (first : Attr c₁ written c₂) (more : Attributes c₂ rest d) :
      Attributes c (written :: rest) d

/-- How the tag of an element ends, according to whether the element ends with it. -/
def ending (isEmpty : Bool) : String := if isEmpty then "/>" else ">"

/-- A tag that begins an element. -/
inductive Opening (isEmpty : Bool) : Cursor → Tag → Cursor → Prop where
  | intro (opens : Spells c "<" c₁) (named : Name c₁ name c₂) (attributes : Attributes c₂ list c₃)
      (space : Space c₃ c₄) (ends : Spells c₄ (ending isEmpty) d) : Opening isEmpty c ⟨name, list, c.place⟩ d

/-- A tag that ends an element. -/
inductive Closing (c : Cursor) (name : String) (d : Cursor) : Prop where
  | intro (opens : Spells c "</" c₁) (named : Name c₁ name c₂) (space : Space c₂ c₃) (ends : Spells c₃ ">" d)

/-- A section, whose body ends at its first terminator. -/
structure Enclosed (sec : Section) (c : Cursor) (body : String) (d : Cursor) : Prop where
  first : ¬ sec.terminator.toList <:+: body.toList
  spelled : Spells c (sec.opening ++ body ++ sec.terminator) d

/-- The content of an element, by the derivations of its child elements. Text may be cut into runs at will. -/
inductive Contents (child : Cursor → Tag → Body → Cursor → Prop) : Cursor → Body → Cursor → Prop where
  | done : Contents child c .done c
  | text (some : run ≠ "") (plain : '<' ∉ run.toList) (spelled : Spells c run d) (rest : Contents child d more e) :
      Contents child c (.text run c.place more) e
  | comment (enclosed : Enclosed .comment c body d) (rest : Contents child d more e) :
      Contents child c (.comment more) e
  | cdata (enclosed : Enclosed .cdata c body d) (rest : Contents child d more e) :
      Contents child c (.cdata body c.place more) e
  | element (inner : child c tag inside d) (rest : Contents child d more e) :
      Contents child c (.element tag inside more) e

/-- An element, by the derivations of its child elements. -/
inductive ElementOf (child : Cursor → Tag → Body → Cursor → Prop) : Cursor → Tag → Body → Cursor → Prop where
  | empty (opening : Opening true c tag d) : ElementOf child c tag .done d
  | full (opening : Opening false c tag c₁) (contents : Contents child c₁ inside c₂)
      (closing : Closing c₂ tag.name d) : ElementOf child c tag inside d

/-- An element in which elements nest at most so many levels deep, itself included. -/
def Element : (levels : Nat) → Cursor → Tag → Body → Cursor → Prop
  | 0 => fun _ _ _ _ => False
  | levels + 1 => ElementOf (Element levels)

/-- Spaces and comments outside the root element. -/
inductive Misc : Cursor → Cursor → Prop where
  | done : Misc c c
  | space (space : Space c c₁) (more : Misc c₁ d) : Misc c d
  | comment (enclosed : Enclosed .comment c body c₁) (more : Misc c₁ d) : Misc c d

/-- The declaration that may begin a document. -/
inductive Prolog (c : Cursor) : Cursor → Prop where
  | none : Prolog c c
  | declaration (enclosed : Enclosed .declaration c body d) : Prolog c d

/-- A document up to the end of its root element. -/
inductive Rooted (input : List UInt8) (tag : Tag) (inside : Body) (d : Cursor) : Prop where
  | intro (space : Space (.start input) c₁) (prolog : Prolog c₁ c₂) (before : Misc c₂ c₃)
      (root : Element maxDepth c₃ tag inside d)

/-- A whole document: its root element, with what may stand before and after it. -/
inductive Document (input : List UInt8) (tag : Tag) (inside : Body) : Prop where
  | intro (space : Space (.start input) c₁) (prolog : Prolog c₁ c₂) (before : Misc c₂ c₃)
      (root : Element maxDepth c₃ tag inside c₄) (after : Misc c₄ d) (ended : d.ahead = [])

namespace Spells

theorem refl (c : Cursor) : Spells c "" c := ⟨by simp, by simp⟩

theorem trans (first : Spells c a d) (second : Spells d b e) : Spells c (a ++ b) e where
  ahead := by rw [first.ahead, second.ahead, bytes_append, List.append_assoc]
  place := by rw [second.place, first.place, bytes_append, Position.advance_append]

theorem past (spelled : Spells c text d) : d = c.past (bytes text).length := by
  obtain ⟨place, ahead⟩ := d
  rw [Cursor.past, spelled.ahead, List.take_left, List.drop_left, ← spelled.place]

theorem ofAhead (ahead : c.ahead = bytes text ++ rest) : Spells c text (c.past (bytes text).length) where
  ahead := by simp [Cursor.past, ahead]
  place := by simp [Cursor.past, ahead]

theorem split (spelled : Spells c (a ++ b) e) : ∃ d, Spells c a d ∧ Spells d b e := by
  have ahead := spelled.ahead
  rw [bytes_append, List.append_assoc] at ahead
  refine ⟨c.past (bytes a).length, ofAhead ahead, ?_, ?_⟩
  · simp [Cursor.past, ahead]
  · rw [spelled.place, (ofAhead ahead).place, bytes_append, Position.advance_append]

theorem length (spelled : Spells c text d) : c.ahead.length = (bytes text).length + d.ahead.length := by
  rw [spelled.ahead, List.length_append]

theorem shorter (spelled : Spells c text d) (some : text ≠ "") : d.ahead.length < c.ahead.length := by
  have positive := List.length_pos_iff.2 (mt bytes_eq_nil_iff.1 some)
  rw [spelled.length]
  omega

end Spells

/-- The input from one place to another spells some text. -/
def Reaches (c d : Cursor) : Prop := ∃ text, Spells c text d

namespace Reaches

theorem refl (c : Cursor) : Reaches c c := ⟨"", .refl c⟩

theorem trans (first : Reaches c d) (second : Reaches d e) : Reaches c e := by
  obtain ⟨a, first⟩ := first
  obtain ⟨b, second⟩ := second
  exact ⟨a ++ b, first.trans second⟩

theorem length (reaches : Reaches c d) : d.ahead.length ≤ c.ahead.length := by
  obtain ⟨text, spelled⟩ := reaches
  rw [spelled.length]
  omega

end Reaches

theorem Spells.reaches (spelled : Spells c text d) : Reaches c d := ⟨text, spelled⟩

theorem Space.reaches (space : Space c d) : Reaches c d := by
  obtain ⟨blank, -, spelled⟩ := space
  exact spelled.reaches

theorem Space.refl (c : Cursor) : Space c c := ⟨"", by simp, .refl c⟩

theorem Space.trans (first : Space c d) (second : Space d e) : Space c e := by
  obtain ⟨a, all, spelled⟩ := first
  obtain ⟨b, all', spelled'⟩ := second
  exact ⟨a ++ b, forall_mem_append all all', spelled.trans spelled'⟩

theorem Quoted.reaches (quoted : Quoted c inside d) : Reaches c d := by
  obtain ⟨quote, -, -, spelled⟩ := quoted
  exact spelled.reaches

theorem Attr.reaches (read : Attr c written d) : Reaches c d := by
  obtain ⟨named, before, equals, after, value⟩ := read
  exact named.spelled.reaches.trans (before.reaches.trans (equals.reaches.trans
    (after.reaches.trans value.reaches)))

theorem Attr.named (read : Attr c written d) : ∃ c₁, Name c written.name c₁ := by
  obtain ⟨named⟩ := read
  exact ⟨_, named⟩

theorem Attr.shorter (read : Attr c written d) : d.ahead.length < c.ahead.length := by
  obtain ⟨named, before, equals, after, value⟩ := read
  have first := (named.spelled.reaches.trans before.reaches).length
  have second := equals.shorter (by decide)
  have third := (after.reaches.trans value.reaches).length
  omega

theorem Attributes.reaches (list : Attributes c attributes d) : Reaches c d := by
  induction list with
  | nil => exact .refl _
  | cons space first more ih => exact space.reaches.trans (first.reaches.trans ih)

theorem Attributes.named (list : Attributes c attributes d) : ∀ written ∈ attributes, IsName written.name.toList := by
  induction list with
  | nil => exact List.forall_mem_nil _
  | cons space first more ih =>
    obtain ⟨_, name⟩ := first.named
    exact List.forall_mem_cons.2 ⟨name.named, ih⟩

theorem Opening.reaches (opening : Opening isEmpty c tag d) : Reaches c d := by
  obtain ⟨opens, named, attributes, space, ends⟩ := opening
  exact opens.reaches.trans (named.spelled.reaches.trans (attributes.reaches.trans
    (space.reaches.trans ends.reaches)))

theorem Opening.shorter (opening : Opening isEmpty c tag d) : d.ahead.length < c.ahead.length := by
  obtain ⟨opens, named, attributes, space, ends⟩ := opening
  have first := opens.shorter (by decide)
  have second := (named.spelled.reaches.trans (attributes.reaches.trans (space.reaches.trans ends.reaches))).length
  omega

theorem Closing.reaches (closing : Closing c name d) : Reaches c d := by
  obtain ⟨opens, named, space, ends⟩ := closing
  exact opens.reaches.trans (named.spelled.reaches.trans (space.reaches.trans ends.reaches))

theorem Closing.shorter (closing : Closing c name d) : d.ahead.length < c.ahead.length := by
  obtain ⟨opens, named, space, ends⟩ := closing
  have first := opens.shorter (by decide)
  have second := (named.spelled.reaches.trans (space.reaches.trans ends.reaches)).length
  omega

theorem Closing.opens (closing : Closing c name d) : ∃ c₁, Spells c "</" c₁ := by
  obtain ⟨opens⟩ := closing
  exact ⟨_, opens⟩

theorem Enclosed.reaches (enclosed : Enclosed sec c body d) : Reaches c d := enclosed.spelled.reaches

theorem Enclosed.shorter (enclosed : Enclosed sec c body d) : d.ahead.length < c.ahead.length := by
  apply enclosed.spelled.shorter
  cases sec <;> simp [Section.opening]

theorem Contents.reaches (child : ∀ {c tag inside d}, nested c tag inside d → Reaches c d)
    (contents : Contents nested c body d) : Reaches c d := by
  induction contents with
  | done => exact .refl _
  | text some plain spelled rest ih => exact spelled.reaches.trans ih
  | comment enclosed rest ih => exact enclosed.reaches.trans ih
  | cdata enclosed rest ih => exact enclosed.reaches.trans ih
  | element inner rest ih => exact (child inner).trans ih

theorem Element.reaches (read : Element levels c tag inside d) : Reaches c d := by
  induction levels generalizing c tag inside d with
  | zero => cases read
  | succ levels ih =>
    rcases read with opening | ⟨opening, contents, closing⟩
    · exact opening.reaches
    · exact opening.reaches.trans ((contents.reaches ih).trans closing.reaches)

theorem Element.shorter (read : Element levels c tag inside d) : d.ahead.length < c.ahead.length := by
  cases levels with
  | zero => cases read
  | succ levels =>
    rcases read with opening | ⟨opening, contents, closing⟩
    · exact opening.shorter
    · have first := opening.shorter
      have second := ((contents.reaches Element.reaches).trans closing.reaches).length
      omega

theorem Misc.reaches (misc : Misc c d) : Reaches c d := by
  induction misc with
  | done => exact .refl _
  | space space more ih => exact space.reaches.trans ih
  | comment enclosed more ih => exact enclosed.reaches.trans ih

theorem Prolog.reaches (prolog : Prolog c d) : Reaches c d := by
  rcases prolog with _ | enclosed
  · exact .refl _
  · exact enclosed.reaches

/-- A document is text throughout. -/
theorem Document.spelled (document : Document input tag inside) : ∃ text, bytes text = input := by
  obtain ⟨space, prolog, before, root, after, ended⟩ := document
  obtain ⟨text, spelled⟩ := space.reaches.trans (prolog.reaches.trans (before.reaches.trans
    (root.reaches.trans after.reaches)))
  refine ⟨text, ?_⟩
  have ahead := spelled.ahead
  rw [ended, List.append_nil] at ahead
  exact ahead.symm

end Grammar
end XmlBinding
