import XmlBinding.Proofs.Agreement

/-! More input at the end. Once the root element of a document has ended, every stretch up to there is fixed: names,
quoted strings and sections end where they did, whatever comes behind. So a longer input is the same document, with
more spaces and comments after it, or none at all. -/
namespace XmlBinding
open Text

namespace Cursor

/-- The same place, with more input at the end. -/
def extend (c : Cursor) (more : List UInt8) : Cursor := ⟨c.place, c.ahead ++ more⟩

end Cursor

namespace Grammar

section Extension
variable (more : List UInt8)

theorem Spells.extend {text : String} (spelled : Spells c text d) : Spells (c.extend more) text (d.extend more) where
  ahead := by rw [Cursor.extend, spelled.ahead, List.append_assoc]; rfl
  place := spelled.place

theorem Space.extend (space : Space c d) : Space (c.extend more) (d.extend more) := by
  obtain ⟨blank, all, spelled⟩ := space
  exact ⟨blank, all, spelled.extend more⟩

/-- What goes on with a text goes on with the same character when more input comes behind it. -/
theorem Spells.goesOn {text : String} (spelled : Spells c text d) (some : text ≠ "")
    (longer : GoesOn (c.ahead ++ more)) : GoesOn c.ahead := by
  obtain ⟨letter, rest, named, split⟩ := longer
  cases chars : text.toList with
  | nil => exact absurd (String.toList_eq_nil_iff.1 chars) some
  | cons first others =>
    have ahead := spelled.ahead
    rw [bytes_eq_spell, chars, spell_cons, List.append_assoc] at ahead
    rw [ahead, List.append_assoc] at split
    obtain ⟨rfl, -⟩ := spelling_unique split
    exact ⟨first, _, named, ahead⟩

/-- A name is as long as it was if something stands behind it. -/
theorem Name.extend (named : Name c name d) (reaches : Reaches d e) (spelled : Spells e text f) (some : text ≠ "") :
    Name (c.extend more) name (d.extend more) := by
  obtain ⟨between, before⟩ := reaches
  refine ⟨named.spelled.extend more, named.named, fun longer => named.longest ?_⟩
  refine (before.trans spelled).goesOn more (fun none => some ?_) longer
  exact (String.append_eq_empty_iff.1 none).2

theorem Quoted.extend (quoted : Quoted c inside d) : Quoted (c.extend more) inside (d.extend more) := by
  obtain ⟨quote, kind, quotable, spelled⟩ := quoted
  exact .intro quote kind quotable (spelled.extend more)

theorem Attr.extend (read : Attr c written d) : Attr (c.extend more) written (d.extend more) := by
  obtain ⟨named, before, equals, after, value⟩ := read
  have longer := Attr.intro (named.extend more before.reaches equals (by decide)) (before.extend more)
    (equals.extend more) (after.extend more) (value.extend more)
  exact longer

theorem Attributes.extend (list : Attributes c attributes d) :
    Attributes (c.extend more) attributes (d.extend more) := by
  induction list with
  | nil => exact .nil
  | cons space first rest ih => exact .cons (space.extend more) (first.extend more) ih

theorem ending_ne (isEmpty : Bool) : ending isEmpty ≠ "" := by cases isEmpty <;> decide

theorem Opening.extend (opening : Opening isEmpty c tag d) : Opening isEmpty (c.extend more) tag (d.extend more) := by
  obtain ⟨opens, named, attributes, space, ends⟩ := opening
  have named := named.extend more (attributes.reaches.trans space.reaches) ends (ending_ne isEmpty)
  exact .intro (opens.extend more) named (attributes.extend more) (space.extend more) (ends.extend more)

theorem Closing.extend (closing : Closing c name d) : Closing (c.extend more) name (d.extend more) := by
  obtain ⟨opens, named, space, ends⟩ := closing
  exact .intro (opens.extend more) (named.extend more space.reaches ends (by decide)) (space.extend more)
    (ends.extend more)

theorem Enclosed.extend (enclosed : Enclosed sec c body d) : Enclosed sec (c.extend more) body (d.extend more) :=
  ⟨enclosed.first, enclosed.spelled.extend more⟩

theorem Contents.extend (child : ∀ {c tag inside d}, nested c tag inside d →
      nested (c.extend more) tag inside (d.extend more)) (contents : Contents nested c body d) :
    Contents nested (c.extend more) body (d.extend more) := by
  induction contents with
  | done => exact .done
  | text some plain spelled rest ih => exact .text some plain (spelled.extend more) ih
  | comment enclosed rest ih => exact .comment (enclosed.extend more) ih
  | cdata enclosed rest ih => exact .cdata (enclosed.extend more) ih
  | element inner rest ih => exact .element (child inner) ih

theorem Element.extend (read : Element levels c tag inside d) :
    Element levels (c.extend more) tag inside (d.extend more) := by
  induction levels generalizing c tag inside d with
  | zero => cases read
  | succ levels ih =>
    rcases read with opening | ⟨opening, contents, closing⟩
    · exact .empty (opening.extend more)
    · exact .full (opening.extend more) (contents.extend more ih) (closing.extend more)

theorem Misc.extend (misc : Misc c d) : Misc (c.extend more) (d.extend more) := by
  induction misc with
  | done => exact .done
  | space space rest ih => exact .space (space.extend more) ih
  | comment enclosed rest ih => exact .comment (enclosed.extend more) ih

theorem Prolog.extend (prolog : Prolog c d) : Prolog (c.extend more) (d.extend more) := by
  rcases prolog with _ | enclosed
  · exact .none
  · exact .declaration (enclosed.extend more)

theorem Rooted.extend (rooted : Rooted input tag inside d) : Rooted (input ++ more) tag inside (d.extend more) := by
  obtain ⟨space, prolog, before, root⟩ := rooted
  exact .intro (space.extend more) (prolog.extend more) (before.extend more) (root.extend more)

end Extension

theorem Document.rooted (document : Document input tag inside) :
    ∃ c d, Rooted input tag inside c ∧ Misc c d ∧ d.ahead = [] := by
  obtain ⟨space, prolog, before, root, after, ended⟩ := document
  exact ⟨_, _, .intro space prolog before root, after, ended⟩

theorem Rooted.document (rooted : Rooted input tag inside c) (after : Misc c d) (ended : d.ahead = []) :
    Document input tag inside := by
  obtain ⟨space, prolog, before, root⟩ := rooted
  exact .intro space prolog before root after ended

/-- Where the root element ends is decided by the input alone. -/
theorem Rooted.unique (rooted : Rooted input tag inside c) (rooted' : Rooted input tag' inside' c') : c = c' := by
  obtain ⟨s, ran, here⟩ := Reading.rooted_complete .nothing rooted (Nat.le_refl _)
  obtain ⟨s', ran', here'⟩ := Reading.rooted_complete .nothing rooted' (Nat.le_refl _)
  obtain ⟨-, rfl⟩ := Prod.mk.inj (Except.ok.inj (ran.symm.trans ran'))
  exact here.unique here'

/-- What spaces there are behind some spaces are those that are left of all of them. -/
theorem Space.cancel (some : Space c d) (all : Space c m) (stops : m.Unspaced) : Space d m := by
  obtain ⟨rest, stops'⟩ := space_past d
  rw [all.measured stops, ← (some.trans rest).measured stops']
  exact rest

theorem Enclosed.unique (enclosed : Enclosed sec c body d) (enclosed' : Enclosed sec c body' d') : d = d' := by
  obtain ⟨c₁, c₂, opens, inner, closes, found⟩ := enclosed.measured
  obtain ⟨c₁', c₂', opens', inner', closes', found'⟩ := enclosed'.measured
  obtain rfl : c₁ = c₁' := opens.past.trans opens'.past.symm
  have same := Option.some.inj (found.symm.trans found')
  rw [closes.past, closes'.past, inner.past, inner'.past, same]

/-- What follows some spaces and comments is made of them too if all of the input is. -/
theorem Misc.cancel (some : Misc c d) (all : Misc c e) (ended : e.ahead = []) : Misc d e := by
  induction some with
  | done => exact all
  | space space more ih =>
    obtain ⟨m, spaces, tagged, next⟩ := all.first (tagged_end ended)
    refine ih (.space (space.cancel spaces tagged.unspaced) ?_)
    rcases next with rfl | ⟨body, m', enclosed, rest⟩
    · exact .done
    · exact .comment enclosed rest
  | comment enclosed more ih =>
    obtain ⟨m, spaces, tagged, next⟩ := all.first (tagged_end ended)
    have here := enclosed.tagged.unspaced
    obtain rfl := (spaces.measured tagged.unspaced).trans ((Space.refl _).measured here).symm
    rcases next with rfl | ⟨body, m', enclosed', rest⟩
    · have shorter := enclosed.shorter
      rw [ended] at shorter
      cases shorter
    · exact ih (enclosed.unique enclosed' ▸ rest)

/-- Nothing but spaces and complete comments. -/
def Idle (input : List UInt8) : Prop := ∃ c d, c.ahead = input ∧ Misc c d ∧ d.ahead = []

/-- Input that goes on behind a document and is a document again is the same one, followed by nothing of note. -/
theorem Document.behind (short : Document input tag inside) (long : Document (input ++ more) tag' inside') :
    Document (input ++ more) tag inside ∧ Idle more := by
  obtain ⟨c, d, rooted, after, ended⟩ := short.rooted
  obtain ⟨c', d', rooted', after', ended'⟩ := long.rooted
  have rooted := rooted.extend more
  obtain rfl := rooted.unique rooted'
  have left : (d.extend more).ahead = more := by rw [Cursor.extend, ended, List.nil_append]
  exact ⟨rooted.document after' ended', d.extend more, d', left, (after.extend more).cancel after' ended', ended'⟩

end Grammar

/-- Input behind a document does not change it. If there is a document with and without it, both are the same down to
the positions, only spaces and comments have been added, and the native values are the same as well. -/
theorem document_stands (input more : List UInt8) :
    (∀ node node', Node.ofBytes input = .ok node → Node.ofBytes (input ++ more) = .ok node' →
      node' = node ∧ Grammar.Idle more) ∧
    ∀ value value', Value.ofStream (.ofBytes input) = .ok value →
      Value.ofStream (.ofBytes (input ++ more)) = .ok value' → value' = value := by
  constructor
  · intro node node' short long
    obtain ⟨tag, inside, document, rfl⟩ := Node.ofBytes_eq_ok_iff.1 short
    obtain ⟨tag', inside', document', -⟩ := Node.ofBytes_eq_ok_iff.1 long
    obtain ⟨same, idle⟩ := document.behind document'
    have again := Node.ofBytes_eq_ok_iff.2 ⟨tag, inside, same, rfl⟩
    exact ⟨Except.ok.inj (long.symm.trans again), idle⟩
  · intro value value' short long
    obtain ⟨tag, inside, document, rfl⟩ := Value.ofStream_eq_ok_iff.1 short
    obtain ⟨tag', inside', document', -⟩ := Value.ofStream_eq_ok_iff.1 long
    have again := Value.ofStream_eq_ok_iff.2 ⟨tag, inside, (document.behind document').1, rfl⟩
    exact Except.ok.inj (long.symm.trans again)

/-- A space and a comment that holds a tag. -/
theorem document_stands_commented : ∃ node value, Node.ofBytes (bytes "<a>t</a>") = .ok node ∧
    Node.ofBytes (bytes "<a>t</a>" ++ bytes " <!--<b/>-->") = .ok node ∧ Grammar.Idle (bytes " <!--<b/>-->") ∧
    Value.ofStream (.ofBytes (bytes "<a>t</a>")) = .ok value ∧
    Value.ofStream (.ofBytes (bytes "<a>t</a>" ++ bytes " <!--<b/>-->")) = .ok value := by
  obtain ⟨tree, native⟩ := document_stands (bytes "<a>t</a>") (bytes " <!--<b/>-->")
  have text : (Node.ofBytes (bytes "<a>t</a>")).isOk = true := by decide +kernel
  have longer : (Node.ofBytes (bytes "<a>t</a>" ++ bytes " <!--<b/>-->")).isOk = true := by decide +kernel
  have direct : (Value.ofStream (.ofBytes (bytes "<a>t</a>"))).isOk = true := by decide +kernel
  have direct' : (Value.ofStream (.ofBytes (bytes "<a>t</a>" ++ bytes " <!--<b/>-->"))).isOk = true := by
    decide +kernel
  obtain ⟨node, parsed⟩ := Except.isOk_iff.1 text
  obtain ⟨node', parsed'⟩ := Except.isOk_iff.1 longer
  obtain ⟨value, read⟩ := Except.isOk_iff.1 direct
  obtain ⟨value', read'⟩ := Except.isOk_iff.1 direct'
  obtain ⟨rfl, idle⟩ := tree node node' parsed parsed'
  obtain rfl := native value value' read read'
  exact ⟨node', value', parsed, parsed', idle, read, read'⟩

end XmlBinding
