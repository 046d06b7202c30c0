import XmlBinding.Proofs.Agreement
import XmlBinding.Proofs.Cutting
import XmlBinding.Proofs.Places
import XmlBinding.Proofs.Passages

/-! Where the nodes of a tree point. An object points at the tag that begins its element, and what it holds points at
what put it there: at the quote that opens an attribute's value, at a run of text, at a section or at the tag of a child
element. Each of these is what the grammar finds there when the element is read from its beginning. -/
namespace XmlBinding
open Text Grammar

/-- The place in an input that a position points at. -/
def Cursor.of (input : List UInt8) (place : Position) : Cursor := ⟨place, input.drop place.offset⟩

namespace Grammar

/-- In the tag of the element from `c` to `d`, the value of the last attribute of a name begins with the quote at
`q`. -/
inductive LastQuote (c : Cursor) (name : String) (q d : Cursor) : Prop where
  | intro (opens : Spells c "<" c₁) (element : Name c₁ tagName c₂) (before : Attributes c₂ earlier c₃)
      (space : Space c₃ c₄) (named : Name c₄ name c₅) (left : Space c₅ c₆) (equals : Spells c₆ "=" c₇)
      (right : Space c₇ q) (value : Quoted q inside c₈) (after : Attributes c₈ later c₉)
      (last : ∀ written ∈ later, written.name ≠ name) (margin : Space c₉ c₁₀)
      (ends : Spells c₁₀ (ending isEmpty) c₁₁) (rest : Reaches c₁₁ d)

/-- What stands from `q` to `e` is directly inside the element from `c` to `d`, behind some earlier content. -/
inductive DirectlyInside (c : Cursor) (earlier : Body) (q e d : Cursor) : Prop where
  | intro (opening : Opening false c tag c₁) (before : Contents (Element levels) c₁ earlier q)
      (after : Contents (Element levels) e later c₂) (closing : Closing c₂ tag.name d)

end Grammar

variable (input : List UInt8)

mutual

/-- An object points at the element of a name that begins at its position `p` and ends at `e`, and everything in it
points into that element. -/
inductive PointsAtElement : String → Position → Node → Position → Prop where
  | intro (element : Element levels (.of input p) tag inside (.of input e))
      (opens : ∃ rest, input.drop p.offset = bytes ("<" ++ tag.name) ++ rest ∧ ¬ GoesOn rest)
      (parts : ∀ entry ∈ properties, PointsAtPart p e entry.1 entry.2)
      (within : Properties.Stay (fun place => p.offset < place.offset ∧ place.offset < e.offset) properties) :
      PointsAtElement tag.name p (.object properties p) e

/-- What is held under a key points at what put it there, in the element from `p` to `e`. -/
inductive PointsAtPart : Position → Position → String → Node → Prop where
  /-- The last attribute of the name. -/
  | quoted (quote : LastQuote (.of input p) name (.of input q) (.of input e)) :
      PointsAtPart p e (attributeKey name) (.literal value q)
  /-- The first run of text directly inside the element. -/
  | text (inside : DirectlyInside (.of input p) earlier (.of input q) (.of input r) (.of input e))
      (first : earlier.writtenAt? = none) (some : run ≠ "") (plain : '<' ∉ run.toList)
      (spelled : Spells (.of input q) run (.of input r)) : PointsAtPart p e textKey (.literal value q)
  /-- The first section directly inside the element. -/
  | cdata (inside : DirectlyInside (.of input p) earlier (.of input q) (.of input r) (.of input e))
      (first : earlier.cdata? = none) (enclosed : Enclosed .cdata (.of input q) body (.of input r)) :
      PointsAtPart p e cdataKey (.literal value q)
  | child (points : PointsAtChild p e name node) : PointsAtPart p e name node
  /-- The child elements of one name, in the order in which they stand, at the place of the first. -/
  | children (several : rest ≠ []) (points : ∀ item ∈ first :: rest, PointsAtChild p e name item)
      (ordered : (first :: rest).Pairwise fun a b => a.position.offset < b.position.offset) :
      PointsAtPart p e name (.array (first :: rest) first.position)

/-- An object points at an element directly inside the one from `p` to `e`. -/
inductive PointsAtChild : Position → Position → String → Node → Prop where
  | intro (inside : DirectlyInside (.of input p) earlier (.of input q) (.of input r) (.of input e))
      (points : PointsAtElement name q node r) : PointsAtChild p e name node

end

namespace Grammar

/-! The bodies that something is found in. -/

/-- The place of the first run is that of a run with none before it. -/
theorem Body.split_writtenAt? {body : Body} (found : body.writtenAt? = some place) :
    ∃ (earlier : Body) (run : String) (later : Body),
      body = earlier.append (.text run place later) ∧ earlier.writtenAt? = none := by
  induction body with
  | done => cases found
  | text run place more =>
    cases found
    exact ⟨.done, run, more, rfl, rfl⟩
  | comment more ih =>
    obtain ⟨earlier, run, later, rfl, none⟩ := ih found
    exact ⟨.comment earlier, run, later, rfl, none⟩
  | cdata body place more ih =>
    obtain ⟨earlier, run, later, rfl, none⟩ := ih found
    exact ⟨.cdata body place earlier, run, later, rfl, none⟩
  | element tag inside more _ ih =>
    obtain ⟨earlier, run, later, rfl, none⟩ := ih found
    exact ⟨.element tag inside earlier, run, later, rfl, none⟩

theorem Body.written_of_writtenAt? {body : Body} (none : body.writtenAt? = none) : body.written = "" := by
  induction body with
  | done => rfl
  | text run place more => cases none
  | comment more ih => exact ih none
  | cdata body place more ih => exact ih none
  | element tag inside more _ ih => exact ih none

/-- The place of the sections is that of a section with none before it. -/
theorem Body.split_cdata? {body : Body} (found : body.cdata? = some sections) :
    ∃ (earlier : Body) (first : String) (later : Body),
      body = earlier.append (.cdata first sections.2 later) ∧ earlier.cdata? = none := by
  induction body with
  | done => cases found
  | text run place more ih =>
    obtain ⟨earlier, first, later, rfl, none⟩ := ih found
    exact ⟨.text run place earlier, first, later, rfl, none⟩
  | comment more ih =>
    obtain ⟨earlier, first, later, rfl, none⟩ := ih found
    exact ⟨.comment earlier, first, later, rfl, none⟩
  | cdata body place more =>
    cases found
    exact ⟨.done, body, more, rfl, rfl⟩
  | element tag inside more _ ih =>
    obtain ⟨earlier, first, later, rfl, none⟩ := ih found
    exact ⟨.element tag inside earlier, first, later, rfl, none⟩

/-- Every child is the tree of an element in the body. -/
theorem Body.split_children {body : Body} (member : (name, node) ∈ body.children) :
    ∃ (earlier : Body) (tag : Tag) (inside later : Body), body = earlier.append (.element tag inside later) ∧
      tag.name = name ∧ tag.node inside = node := by
  induction body with
  | done => cases member
  | text run place more ih =>
    obtain ⟨earlier, tag, inside, later, rfl, same⟩ := ih member
    exact ⟨.text run place earlier, tag, inside, later, rfl, same⟩
  | comment more ih =>
    obtain ⟨earlier, tag, inside, later, rfl, same⟩ := ih member
    exact ⟨.comment earlier, tag, inside, later, rfl, same⟩
  | cdata body place more ih =>
    obtain ⟨earlier, tag, inside, later, rfl, same⟩ := ih member
    exact ⟨.cdata body place earlier, tag, inside, later, rfl, same⟩
  | element tag inside more _ ih =>
    rcases List.mem_cons.1 member with first | member
    · cases first
      exact ⟨.done, tag, inside, more, rfl, rfl, rfl⟩
    · obtain ⟨earlier, tag', inside', later, rfl, same⟩ := ih member
      exact ⟨.element tag inside earlier, tag', inside', later, rfl, same⟩

theorem Contents.split {earlier : Body} (contents : Contents nested c (earlier.append later) d) :
    ∃ q, Contents nested c earlier q ∧ Contents nested q later d := by
  induction earlier generalizing c with
  | done => exact ⟨c, .done, contents⟩
  | text run place more ih =>
    obtain _ | ⟨some, plain, spelled, rest⟩ := contents
    obtain ⟨q, before, after⟩ := ih rest
    exact ⟨q, .text some plain spelled before, after⟩
  | comment more ih =>
    obtain _ | _ | ⟨enclosed, rest⟩ := contents
    obtain ⟨q, before, after⟩ := ih rest
    exact ⟨q, .comment enclosed before, after⟩
  | cdata body place more ih =>
    obtain _ | _ | _ | ⟨enclosed, rest⟩ := contents
    obtain ⟨q, before, after⟩ := ih rest
    exact ⟨q, .cdata enclosed before, after⟩
  | element tag inside more _ ih =>
    obtain _ | _ | _ | _ | ⟨inner, rest⟩ := contents
    obtain ⟨q, before, after⟩ := ih rest
    exact ⟨q, .element inner before, after⟩

theorem Attributes.split (list : Attributes c (earlier ++ written :: later) d) :
    ∃ c₁ c₂ c₃, Attributes c earlier c₁ ∧ Space c₁ c₂ ∧ Attr c₂ written c₃ ∧ Attributes c₃ later d := by
  induction earlier generalizing c with
  | nil =>
    obtain _ | ⟨space, first, more⟩ := list
    exact ⟨c, _, _, .nil, space, first, more⟩
  | cons other earlier ih =>
    obtain _ | ⟨space, first, more⟩ := list
    obtain ⟨c₁, c₂, c₃, before, rest⟩ := ih more
    exact ⟨c₁, c₂, c₃, .cons space first before, rest⟩

/-- The offset tells how much of an input is behind a place. -/
theorem Reaches.measure (reaches : Reaches c d) :
    c.place.offset + c.ahead.length = d.place.offset + d.ahead.length := by
  obtain ⟨text, spelled⟩ := reaches
  rw [spelled.place, spelled.length, Position.advance_offset, Nat.add_assoc]

theorem Reaches.offset_le (reaches : Reaches c d) : c.place.offset ≤ d.place.offset := by
  have total := reaches.measure
  have less := reaches.length
  omega

/-- A place that an input reaches is one in this input. -/
theorem Reaches.placed {input : List UInt8} (reached : Reaches (.start input) c) : ∃ p, Cursor.of input p = c := by
  obtain ⟨place, ahead⟩ := c
  exact ⟨place, congrArg (Cursor.mk place) reached.split.1.symm⟩

/-- What stands from `q` to `e` is within what stands from `c` to `d`, and at neither end of it. -/
structure Amid (c q e d : Cursor) : Prop where
  before : Reaches c q
  begun : q.ahead.length < c.ahead.length
  after : Reaches e d
  unended : d.ahead.length < e.ahead.length

theorem Amid.offsets (amid : Amid c q e d) : c.place.offset < q.place.offset ∧ e.place.offset < d.place.offset := by
  have front := amid.before.measure
  have back := amid.after.measure
  have begun := amid.begun
  have unended := amid.unended
  omega

theorem LastQuote.amid (quote : LastQuote c name q d) : Amid c q q d := by
  obtain ⟨opens, element, before, space, named, left, equals, right, value, after, -, margin, ends, rest⟩ := quote
  have toQuote := element.spelled.reaches.trans (before.reaches.trans (space.reaches.trans
    (named.spelled.reaches.trans (left.reaches.trans (equals.reaches.trans right.reaches)))))
  have toEnd := value.reaches.trans (after.reaches.trans margin.reaches)
  refine ⟨opens.reaches.trans toQuote, ?_, toEnd.trans (ends.reaches.trans rest), ?_⟩
  · have less := opens.shorter (by decide)
    have more := toQuote.length
    omega
  · have less := ends.shorter (by unfold ending; split <;> decide)
    have more := toEnd.length
    have further := rest.length
    omega

theorem DirectlyInside.amid (inside : DirectlyInside c earlier q e d) : Amid c q e d := by
  obtain ⟨opening, before, after, closing⟩ := inside
  refine ⟨opening.reaches.trans (before.reaches Element.reaches), ?_,
    (after.reaches Element.reaches).trans closing.reaches, ?_⟩
  · have less := opening.shorter
    have more := (before.reaches Element.reaches).length
    omega
  · have less := closing.shorter
    have more := (after.reaches Element.reaches).length
    omega

/-- All four places are in the input, if the element is. -/
theorem DirectlyInside.placed {input : List UInt8} (inside : DirectlyInside c earlier q e d)
    (reached : Reaches (.start input) c) (between : Reaches q e) :
    ∃ c' q' e' d', Cursor.of input c' = c ∧ Cursor.of input q' = q ∧ Cursor.of input e' = e ∧
      Cursor.of input d' = d := by
  have begun := reached.trans inside.amid.before
  have ended := begun.trans between
  obtain ⟨c', first⟩ := reached.placed
  obtain ⟨q', second⟩ := begun.placed
  obtain ⟨e', third⟩ := ended.placed
  obtain ⟨d', last⟩ := (ended.trans inside.amid.after).placed
  exact ⟨c', q', e', d', first, second, third, last⟩

theorem Opening.place (opening : Opening isEmpty c tag d) : tag.place = c.place := by
  obtain ⟨-⟩ := opening
  rfl

/-- An element begins with a tag of its name. -/
theorem Opening.ahead (opening : Opening isEmpty c tag d) :
    ∃ rest, c.ahead = bytes ("<" ++ tag.name) ++ rest ∧ ¬ GoesOn rest := by
  obtain ⟨opens, named, -⟩ := opening
  exact ⟨_, (opens.trans named.spelled).ahead, named.longest⟩

/-- The last attribute of a name is found in the tag, with others behind it that have other names. -/
theorem Opening.lastQuote (opening : Opening isEmpty c tag c₁) (rest : Reaches c₁ d)
    (found : (tag.attributes.filter (·.name = name)).getLast? = some written) :
    ∃ q, written.place = q.place ∧ LastQuote c name q d := by
  rw [← List.head?_reverse, ← List.filter_reverse, List.head?_filter, List.find?_eq_some_iff_append] at found
  obtain ⟨same, later, earlier, whole, others⟩ := found
  have split : tag.attributes = earlier.reverse ++ written :: later.reverse := by
    rw [← List.reverse_reverse tag.attributes, whole, List.reverse_append, List.reverse_cons, List.append_assoc]
    rfl
  have last : ∀ other ∈ later.reverse, other.name ≠ name := by
    intro other member
    simpa using others other (List.mem_reverse.1 member)
  obtain ⟨opens, element, attributes, margin, ends⟩ := opening
  dsimp only at split
  rw [split] at attributes
  obtain ⟨_, _, _, before, space, ⟨named, left, equals, right, value⟩, after⟩ := attributes.split
  obtain rfl := of_decide_eq_true same
  exact ⟨_, rfl, .intro opens element before space named left equals right value after last margin ends rest⟩

theorem Element.opened (read : Element levels c tag inside d) :
    ∃ isEmpty c₁, Opening isEmpty c tag c₁ ∧ Reaches c₁ d := by
  cases levels with
  | zero => cases read
  | succ levels =>
    rcases read with opening | ⟨opening, contents, closing⟩
    · exact ⟨true, d, opening, .refl d⟩
    · exact ⟨false, _, opening, (contents.reaches Element.reaches).trans closing.reaches⟩

theorem Element.place (read : Element levels c tag inside d) : tag.place = c.place := by
  obtain ⟨_, _, opening, -⟩ := read.opened
  exact opening.place

/-- An element with something inside it has a tag that ends it. -/
theorem Element.split (read : Element (levels + 1) c tag (earlier.append later) d) (some : later ≠ .done) :
    ∃ c₁ q c₂, Opening false c tag c₁ ∧ Contents (Element levels) c₁ earlier q ∧
      Contents (Element levels) q later c₂ ∧ Closing c₂ tag.name d := by
  generalize same : earlier.append later = inside at read
  rcases read with opening | ⟨opening, contents, closing⟩
  · cases earlier with
    | done => exact absurd same some
    | _ => cases same
  · subst same
    obtain ⟨q, before, after⟩ := contents.split
    exact ⟨_, q, _, opening, before, after, closing⟩

theorem Element.contents (read : Element levels c tag inside d) :
    ∃ below c₁ c₂, Contents (Element below) c₁ inside c₂ := by
  cases levels with
  | zero => cases read
  | succ levels =>
    rcases read with opening | ⟨opening, contents, closing⟩
    · exact ⟨levels, c, c, .done⟩
    · exact ⟨levels, _, _, contents⟩

/-- Child elements stand one behind the other. -/
theorem Contents.children_ordered (contents : Contents (Element levels) c body d) :
    (∀ entry ∈ body.children, c.place.offset ≤ entry.2.position.offset) ∧
      body.children.Pairwise fun a b => a.2.position.offset < b.2.position.offset := by
  have onward {c d : Cursor} {body : Body} (reaches : Reaches c d)
      (behind : ∀ entry ∈ body.children, d.place.offset ≤ entry.2.position.offset) :
      ∀ entry ∈ body.children, c.place.offset ≤ entry.2.position.offset :=
    fun entry member => Nat.le_trans reaches.offset_le (behind entry member)
  induction contents with
  | done => exact ⟨List.forall_mem_nil _, .nil⟩
  | text some plain spelled rest ih => exact ⟨onward spelled.reaches ih.1, ih.2⟩
  | comment enclosed rest ih => exact ⟨onward enclosed.reaches ih.1, ih.2⟩
  | cdata enclosed rest ih => exact ⟨onward enclosed.reaches ih.1, ih.2⟩
  | @element c tag inside d more e inner rest ih =>
    have here : (tag.node inside).position = c.place := inner.place
    have total := inner.reaches.measure
    have less := inner.shorter
    have first : c.place.offset ≤ (tag.node inside).position.offset :=
      Nat.le_of_eq (congrArg Position.offset here.symm)
    refine ⟨List.forall_mem_cons.2 ⟨first, onward inner.reaches ih.1⟩, .cons (fun entry member => ?_) ih.2⟩
    have later := ih.1 entry member
    rw [here]
    omega

end Grammar

variable {input : List UInt8}

/-! What points into an element has its places within it. -/

theorem PointsAtElement.stays (points : PointsAtElement input name p node e) :
    node.Stays fun place => p.offset ≤ place.offset ∧ place.offset < e.offset := by
  obtain ⟨element, -, -, within⟩ := points
  refine Node.Stays.object_iff.2 ⟨⟨Nat.le_refl _, ?_⟩, fun entry member => ?_⟩
  · have total : p.offset + _ = e.offset + _ := element.reaches.measure
    have less := element.shorter
    omega
  · exact (within entry member).mono fun place between => ⟨Nat.le_of_lt between.1, between.2⟩

theorem PointsAtChild.stays (points : PointsAtChild input p e name node) :
    node.Stays fun place => p.offset < place.offset ∧ place.offset < e.offset := by
  obtain ⟨inside, points⟩ := points
  obtain ⟨before, after⟩ : p.offset < _ ∧ _ < e.offset := inside.amid.offsets
  exact points.stays.mono fun place between => ⟨Nat.lt_of_lt_of_le before between.1, Nat.lt_trans between.2 after⟩

theorem PointsAtPart.stays (points : PointsAtPart input p e key node) :
    node.Stays fun place => p.offset < place.offset ∧ place.offset < e.offset := by
  cases points with
  | quoted quote => exact Node.Stays.literal_iff.2 quote.amid.offsets
  | text inside first some plain spelled =>
    have between := inside.amid.offsets
    exact Node.Stays.literal_iff.2 ⟨between.1, Nat.lt_of_le_of_lt spelled.reaches.offset_le between.2⟩
  | cdata inside first enclosed =>
    have between := inside.amid.offsets
    exact Node.Stays.literal_iff.2 ⟨between.1, Nat.lt_of_le_of_lt enclosed.reaches.offset_le between.2⟩
  | child points => exact points.stays
  | children several points ordered =>
    refine Node.Stays.array_iff.2 ⟨?_, fun item member => (points item member).stays⟩
    exact (points _ List.mem_cons_self).stays.place

/-- What stands under the name of some child elements points at them, if each does and they are in order. -/
theorem PointsAtPart.gathered {children : List Node} (points : ∀ child ∈ children, PointsAtChild input p e name child)
    (ordered : children.Pairwise fun a b => a.position.offset < b.position.offset)
    (found : Node.gathered children = some node) : PointsAtPart input p e name node := by
  unfold Node.gathered at found
  split at found
  · cases found
  · cases found
    exact .child (points _ List.mem_cons_self)
  · rename_i first more several
    cases found
    exact .children several points ordered

namespace Grammar

/-! What the properties of an element hold, key by key. -/

theorem Element.points_quoted (reached : Reaches (.start input) c) (read : Element levels c tag inside d)
    (last : (tag.attributes.filter (·.name = name)).getLast? = some written) (value : String) :
    PointsAtPart input c.place d.place (attributeKey name) (.literal value written.place) := by
  obtain ⟨isEmpty, c₁, opening, rest⟩ := read.opened
  obtain ⟨q, place, quote⟩ := opening.lastQuote rest last
  obtain ⟨e, rfl⟩ := (reached.trans read.reaches).placed
  obtain ⟨q, rfl⟩ := (reached.trans quote.amid.before).placed
  obtain ⟨p, rfl⟩ := reached.placed
  rw [place]
  exact .quoted quote

theorem Element.points_text (reached : Reaches (.start input) c) (read : Element (levels + 1) c tag inside d)
    {place : Position} (first : inside.writtenAt? = some place) (value : String) :
    PointsAtPart input c.place d.place textKey (.literal value place) := by
  obtain ⟨earlier, run, later, rfl, none⟩ := Body.split_writtenAt? first
  obtain ⟨c₁, q, c₂, opening, before, after, closing⟩ := read.split Body.noConfusion
  obtain _ | ⟨some, plain, spelled, rest⟩ := after
  have within : DirectlyInside c earlier q _ d := .intro opening before rest closing
  obtain ⟨p, q, r, e, rfl, rfl, rfl, rfl⟩ := within.placed reached spelled.reaches
  exact .text within none some plain spelled

theorem Element.points_cdata (reached : Reaches (.start input) c) (read : Element (levels + 1) c tag inside d)
    (first : inside.cdata? = some sections) (value : String) :
    PointsAtPart input c.place d.place cdataKey (.literal value sections.2) := by
  obtain ⟨earlier, body, later, rfl, none⟩ := Body.split_cdata? first
  obtain ⟨c₁, q, c₂, opening, before, after, closing⟩ := read.split Body.noConfusion
  generalize sections.2 = place at after ⊢
  obtain _ | _ | _ | ⟨enclosed, rest⟩ := after
  have within : DirectlyInside c earlier q _ d := .intro opening before rest closing
  obtain ⟨p, q, r, e, rfl, rfl, rfl, rfl⟩ := within.placed reached enclosed.reaches
  exact .cdata within none enclosed

theorem Element.points_child (reached : Reaches (.start input) c) (read : Element (levels + 1) c tag inside d)
    (nested : ∀ {c tag inside d}, Reaches (.start input) c → Element levels c tag inside d →
      PointsAtElement input tag.name c.place (tag.node inside) d.place)
    (member : (name, node) ∈ inside.children) : PointsAtChild input c.place d.place name node := by
  obtain ⟨earlier, tag', inside', later, rfl, rfl, rfl⟩ := Body.split_children member
  obtain ⟨c₁, q, c₂, opening, before, after, closing⟩ := read.split Body.noConfusion
  obtain _ | _ | _ | _ | ⟨inner, rest⟩ := after
  have within : DirectlyInside c earlier q _ d := .intro opening before rest closing
  have points := nested (reached.trans within.amid.before) inner
  obtain ⟨p, q, r, e, rfl, rfl, rfl, rfl⟩ := within.placed reached inner.reaches
  exact .intro within points

/-- Whatever the properties of an element hold points at what it was read from, if child elements do. -/
theorem Element.points_part (reached : Reaches (.start input) c) (read : Element (levels + 1) c tag inside d)
    (nested : ∀ {c tag inside d}, Reaches (.start input) c → Element levels c tag inside d →
      PointsAtElement input tag.name c.place (tag.node inside) d.place)
    (described : Describes tag inside inside.children properties) (found : properties.get? key = some node) :
    PointsAtPart input c.place d.place key node := by
  rcases described.only key (Keyed.get?_isSome_iff.1 (found ▸ rfl)) with ⟨name, rfl⟩ | rfl | rfl | child
  · rw [described.attributes, Option.map_eq_some_iff] at found
    obtain ⟨written, last, rfl⟩ := found
    exact read.points_quoted reached last _
  · rw [described.text] at found
    split at found
    · cases found
    · rename_i some
      cases found
      cases first : inside.writtenAt? with
      | none => exact absurd (by rw [Body.written_of_writtenAt? first, trimSpace_empty]) some
      | some place => exact read.points_text reached first _
  · rw [described.cdata, Option.map_eq_some_iff] at found
    obtain ⟨sections, first, rfl⟩ := found
    exact read.points_cdata reached first _
  · rw [described.elements key child] at found
    obtain ⟨_, _, _, contents⟩ := read.contents
    refine .gathered (fun node member => ?_) ?_ found
    · exact read.points_child reached nested (Keyed.mem_under.1 member)
    · exact (contents.children_ordered.2.filter _).map _ fun _ _ less => less

/-- The tree of an element points at it. -/
theorem Element.points (reached : Reaches (.start input) c) (read : Element levels c tag inside d) :
    PointsAtElement input tag.name c.place (tag.node inside) d.place := by
  induction levels generalizing c tag inside d with
  | zero => cases read
  | succ levels ih =>
    obtain ⟨_, _, _, contents⟩ := read.contents
    have described := tag.described (contents.denoted Element.denotes Element.named).2
    have parts : ∀ entry ∈ (tag.parts inside).entries (Node.coalesce []),
        PointsAtPart input c.place d.place entry.1 entry.2 := fun entry member =>
      read.points_part reached ih described (Keyed.get?_of_mem described.distinct member)
    obtain ⟨isEmpty, c₁, opening, -⟩ := read.opened
    have opens := opening.ahead
    rw [tag.node_eq, read.place]
    obtain ⟨e, rfl⟩ := (reached.trans read.reaches).placed
    obtain ⟨p, rfl⟩ := reached.placed
    exact .intro read opens parts fun entry member => (parts entry member).stays

end Grammar

/-- The tree of an input points at its root element, wherever this stands, and so does everything in it at what it was
read from. -/
theorem Node.positions_point_at_input {input : List UInt8} {root : Node} (parsed : ofBytes input = .ok root) :
    ∃ name stop, PointsAtElement input name root.position root stop := by
  obtain ⟨tag, inside, document, rfl⟩ := ofBytes_eq_ok_iff.1 parsed
  obtain ⟨space, prolog, before, element, -⟩ := document
  have points := element.points (space.reaches.trans (prolog.reaches.trans before.reaches))
  rw [← element.place] at points
  exact ⟨_, _, points⟩

/-- An attribute that is given twice, child elements on both sides of the text, and a section. -/
theorem Node.positions_point_mixed :
    let input := bytes "<a n='1' n=\"2\"><b/>t<b/><![CDATA[c]]></a>"
    ∃ root, ofBytes input = .ok root ∧
      root.positions.map Position.offset = [0, 11, 15, 15, 20, 19, 24] ∧
      ∃ name stop, PointsAtElement input name root.position root stop := by
  intro input
  have offsets : (ofBytes input).toOption.map (fun root => root.positions.map Position.offset) =
      some [0, 11, 15, 15, 20, 19, 24] := by decide +kernel
  cases parsed : ofBytes input with
  | error error => rw [parsed] at offsets; cases offsets
  | ok root =>
    rw [parsed] at offsets
    exact ⟨root, rfl, Option.some.inj offsets, positions_point_at_input parsed⟩

end XmlBinding
