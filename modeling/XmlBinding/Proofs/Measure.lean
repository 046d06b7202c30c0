import XmlBinding.Proofs.Grammar

/-! Scans against the grammar. What a scan measures at a place is the stretch that the grammar derives there, and
the bytes at the beginning of a stretch tell which kind of stretch it is. -/
namespace XmlBinding
open Text

namespace Grammar

/-- Text that is read over a number of bytes is spelled by them. -/
theorem Spells.taken (valid : ofBytes? (c.ahead.take n) = some text) : Spells c text (c.past n) where
  ahead := by rw [ofBytes?_eq_some_iff.1 valid, Cursor.past, List.take_append_drop]
  place := by rw [ofBytes?_eq_some_iff.1 valid, Cursor.past]

theorem Spells.take (spelled : Spells c text d) : ofBytes? (c.ahead.take (bytes text).length) = some text := by
  rw [spelled.ahead, List.take_left, ofBytes?_bytes]

theorem Spells.ofPrefix (ahead : (bytes text).isPrefixOf c.ahead = true) :
    Spells c text (c.past (bytes text).length) := by
  obtain ⟨rest, split⟩ := List.isPrefixOf_iff_prefix.1 ahead
  exact .ofAhead split.symm

theorem Spells.isPrefix (spelled : Spells c text d) : (bytes text).isPrefixOf c.ahead = true := by
  rw [List.isPrefixOf_iff_prefix, spelled.ahead]
  exact List.prefix_append _ _

theorem space_past (c : Cursor) : Space c (c.past (Scan.spaces.whole c.ahead)) ∧
    (c.past (Scan.spaces.whole c.ahead)).Unspaced := by
  obtain ⟨blank, all, split, length, stops⟩ := Scan.spaces_split c.ahead
  rw [← bytes_ofList] at split length
  refine ⟨⟨String.ofList blank, by simpa using all, ?_⟩, stops⟩
  rw [length]
  exact .ofAhead split

theorem Space.measured (space : Space c d) (stops : d.Unspaced) : d = c.past (Scan.spaces.whole c.ahead) := by
  obtain ⟨blank, all, spelled⟩ := space
  have length := Scan.spaces_spell all stops
  rw [← bytes_eq_spell, ← spelled.ahead] at length
  rw [length]
  exact spelled.past

theorem name_past (positive : 0 < nameLength c.ahead)
    (valid : ofBytes? (c.ahead.take (nameLength c.ahead)) = some name) :
    Name c name (c.past (nameLength c.ahead)) := by
  obtain ⟨chars, rest, split, length, named, ends⟩ := nameLength_pos positive
  have spelled := Spells.taken valid
  have same : name = String.ofList chars := by
    apply bytes_injective
    rw [ofBytes?_eq_some_iff.1 valid, bytes_ofList, length, split, List.take_left]
  subst same
  refine ⟨spelled, by simpa using named, ?_⟩
  rw [← bytes_ofList] at split
  rwa [← List.append_cancel_left (split.symm.trans spelled.ahead)]

theorem Name.measured (named : Name c name d) : nameLength c.ahead = (bytes name).length := by
  rw [named.spelled.ahead, bytes_eq_spell]
  exact nameLength_spell named.named named.longest

theorem Name.nonempty (named : Name c name d) : name ≠ "" := by
  rintro rfl
  cases named.named

theorem quote_of_isQuote {b : UInt8} (isQuote : Lexer.isQuote b = true) :
    ∃ quote, (quote = '"' ∨ quote = '\'') ∧ b = Scan.byteOf quote := by
  simp only [Lexer.isQuote, Bool.or_eq_true, beq_iff_eq] at isQuote
  rcases isQuote with rfl | rfl
  · exact ⟨'"', .inl rfl, rfl⟩
  · exact ⟨'\'', .inr rfl, rfl⟩

private theorem bytes_quoted {quote : Char} (kind : quote = '"' ∨ quote = '\'') (inside : String) :
    bytes (String.ofList (quote :: inside.toList ++ [quote])) =
      Scan.byteOf quote :: (spell inside.toList ++ [Scan.byteOf quote]) := by
  rw [bytes_ofList, spell_append, spell_cons]
  rcases kind with rfl | rfl <;> rfl

/-- A quoted string without its quotes is what stands between them. -/
theorem unquote_quoted {quote : Char} (kind : quote = '"' ∨ quote = '\'') (inside : String) :
    unquote (String.ofList (quote :: inside.toList ++ [quote])) = inside := by
  rw [unquote, bytes_quoted kind, List.drop_succ_cons, List.drop_zero, List.dropLast_concat, ← bytes_eq_spell,
    ofBytes?_bytes]
  rfl

theorem quoted_past (begins : c.ahead = b :: rest) (isQuote : Lexer.isQuote b = true)
    (found : Scan.quotedLength? c.ahead = some n) (valid : ofBytes? (c.ahead.take n) = some raw) :
    Quoted c (unquote raw) (c.past n) := by
  obtain ⟨quote, kind, rfl⟩ := quote_of_isQuote isQuote
  rw [begins] at found
  obtain ⟨k, closes, rfl⟩ := Option.map_eq_some_iff.1 found
  obtain ⟨after, split, length⟩ := Scan.closingQuote?_split closes
  have spelled := Spells.taken valid
  have whole := ofBytes?_eq_some_iff.1 valid
  generalize rest.take k = between at split length
  subst split length
  have taken : (Scan.byteOf quote :: (between ++ Scan.byteOf quote :: after)).take (between.length + 2) =
      (Scan.byteOf quote :: between) ++ [Scan.byteOf quote] := by
    simp [List.take_append, List.take_of_length_le]
  have ascii : quote.toNat < 0x80 := by rcases kind with rfl | rfl <;> decide
  rw [begins, taken, bytes_eq_spell] at whole
  obtain ⟨others, chars, front⟩ := Scan.spell_eq_concat ascii whole
  cases others with
  | nil => simp at front
  | cons d inside =>
    rw [spell_cons, ← List.singleton_append, ← Scan.spelling_byteOf ascii] at front
    obtain ⟨rfl, rfl⟩ := spelling_unique front
    have written : raw = String.ofList (quote :: (String.ofList inside).toList ++ [quote]) := by
      rw [String.toList_ofList, ← chars, String.ofList_toList]
    rw [written] at spelled ⊢
    rw [unquote_quoted kind]
    refine .intro quote kind ?_ spelled
    rw [String.toList_ofList]
    exact (Scan.closingQuote?_spell kind inside after).1 closes

/-- A quoted string begins with its quote and is measured up to the closing one. -/
theorem Quoted.measured (quoted : Quoted c inside d) :
    ∃ b rest raw, c.ahead = b :: rest ∧ Lexer.isQuote b = true ∧ unquote raw = inside ∧ Spells c raw d ∧
      Scan.quotedLength? c.ahead = some (bytes raw).length := by
  obtain ⟨quote, kind, quotable, spelled⟩ := quoted
  have ahead := spelled.ahead
  rw [bytes_quoted kind, List.cons_append] at ahead
  refine ⟨_, _, _, ahead, ?_, unquote_quoted kind inside, spelled, ?_⟩
  · rcases kind with rfl | rfl <;> rfl
  · rw [ahead, Scan.quotedLength?, List.append_assoc, List.singleton_append,
      (Scan.closingQuote?_spell kind inside.toList d.ahead).2 quotable, bytes_quoted kind]
    simp

theorem enclosed_past (opens : Spells c sec.opening c₁)
    (found : Scan.indexOf? (bytes sec.terminator) c₁.ahead = some n)
    (valid : ofBytes? (c₁.ahead.take n) = some body) :
    Enclosed sec c body ((c₁.past n).past (bytes sec.terminator).length) := by
  have inner := Spells.taken valid
  obtain ⟨rest, split, length⟩ := Scan.indexOf?_split found
  rw [← ofBytes?_eq_some_iff.1 valid] at split length
  have closes : Spells (c₁.past n) sec.terminator ((c₁.past n).past (bytes sec.terminator).length) := by
    refine Spells.ofAhead (?_ : _ = _ ++ rest)
    rw [Cursor.past, ← length, split, List.drop_left]
  refine ⟨?_, (opens.trans inner).trans closes⟩
  rw [← Scan.indexOf?_body sec body rest, ← split, length]
  exact found

/-- What is found behind a stretch follows it. -/
theorem Spells.followed (spelled : Spells c body m)
    (found : Scan.indexOf? (bytes literal) c.ahead = some (bytes body).length) :
    Spells m literal (m.past (bytes literal).length) := by
  obtain ⟨rest, split, -⟩ := Scan.indexOf?_split found
  refine Spells.ofAhead (?_ : _ = _ ++ rest)
  rw [spelled.past, Cursor.past]
  conv => lhs; rw [split]
  rw [List.drop_left' (by rw [spelled.ahead]; simp)]

/-- The parts of a section: its opening, its body and its terminator, which is found behind the body. -/
theorem Enclosed.measured (enclosed : Enclosed sec c body d) :
    ∃ c₁ c₂, Spells c sec.opening c₁ ∧ Spells c₁ body c₂ ∧ Spells c₂ sec.terminator d ∧
      Scan.indexOf? (bytes sec.terminator) c₁.ahead = some (bytes body).length := by
  obtain ⟨c₂, front, closes⟩ := enclosed.spelled.split
  obtain ⟨c₁, opens, inner⟩ := front.split
  refine ⟨c₁, c₂, opens, inner, closes, ?_⟩
  rw [inner.ahead, closes.ahead]
  exact (Scan.indexOf?_body sec body d.ahead).2 enclosed.first

/-- A tag or the end of the input is next. -/
def Tagged (c : Cursor) : Prop := ∀ b more, c.ahead = b :: more → b = 0x3C

theorem tagged_of {c : Cursor} (ahead : c.ahead = 0x3C :: rest) : Tagged c := by
  intro b' rest' ahead'
  obtain ⟨rfl, -⟩ := List.cons.inj (ahead.symm.trans ahead')
  rfl

/-- What is measured as text is a run without an opening bracket. -/
theorem text_past (valid : ofBytes? (c.ahead.take (Scan.textLength.whole c.ahead)) = some run) :
    Spells c run (c.past (Scan.textLength.whole c.ahead)) ∧ '<' ∉ run.toList ∧
      Tagged (c.past (Scan.textLength.whole c.ahead)) := by
  obtain ⟨plain, stops⟩ := Scan.textLength_split c.ahead
  refine ⟨.taken valid, ?_, stops⟩
  rw [← ofBytes?_eq_some_iff.1 valid, bytes_eq_spell] at plain
  exact fun member => plain ((Scan.mem_spell_iff (c := '<') (by decide)).2 member)

theorem text_nonempty (spelled : Spells c run d) (stops : Tagged d) (more : c.ahead.isEmpty = false)
    (other : (bytes "<").isPrefixOf c.ahead = false) : run ≠ "" := by
  rintro rfl
  have same := spelled.ahead
  cases ahead : c.ahead with
  | nil => simp [ahead] at more
  | cons b rest =>
    rw [ahead, bytes_empty, List.nil_append] at same
    rw [ahead, stops b rest same.symm] at other
    cases other

theorem Spells.text (spelled : Spells c run d) (plain : '<' ∉ run.toList) (stops : Tagged d) :
    Scan.textLength.whole c.ahead = (bytes run).length := by
  rw [spelled.ahead]
  exact Scan.textLength_spell plain stops

/-- A byte that may begin a name. -/
def Lettered (b : UInt8) : Prop := startsName b = true ∨ 0x80 ≤ b

instance : DecidablePred Lettered := fun _ => inferInstanceAs (Decidable (_ ∨ _))

theorem Lettered.ne (lettered : Lettered b) (other : ¬ Lettered b') : b ≠ b' := by
  rintro rfl
  exact other lettered

theorem Name.begins (named : Name c name d) : ∃ b rest, c.ahead = b :: rest ∧ Lettered b := by
  have length := named.measured
  have some := List.length_pos_iff.2 (mt bytes_eq_nil_iff.1 named.nonempty)
  cases ahead : c.ahead with
  | nil => rw [← length, ahead] at some; cases some
  | cons b rest =>
    refine ⟨b, rest, rfl, ?_⟩
    rw [← length, ahead, nameLength, nameExtent] at some
    by_cases ascii : b < 0x80
    · by_cases starts : startsName b = true
      · exact .inl starts
      · simp [ascii, starts] at some
    · exact .inr (by simpa using ascii)

theorem Name.unspaced (named : Name c name d) : c.Unspaced := by
  obtain ⟨b, rest, ahead, lettered⟩ := named.begins
  intro b' rest' ahead'
  obtain ⟨rfl, rfl⟩ := List.cons.inj (ahead.symm.trans ahead')
  have apart {a : UInt8} (other : ¬ Lettered a) : b ≠ a := lettered.ne other
  simp [isSpaceByte, apart (a := 0x20) (by decide), apart (a := 0x09) (by decide), apart (a := 0x0A) (by decide),
    apart (a := 0x0D) (by decide)]

/-- A stretch that begins with a byte other than a space is not skipped. -/
theorem unspaced_of {c : Cursor} (ahead : c.ahead = b :: rest) (other : isSpaceByte b = false) : c.Unspaced := by
  intro b' rest' ahead'
  obtain ⟨rfl, rfl⟩ := List.cons.inj (ahead.symm.trans ahead')
  exact other

theorem isPrefixOf_first {a b : UInt8} (other : b ≠ a) (more rest : List UInt8) :
    ¬ (a :: more).isPrefixOf (b :: rest) = true := by
  simp [List.isPrefixOf, Ne.symm other]

theorem isPrefixOf_second {a b b' : UInt8} (other : b' ≠ a) (first : UInt8) (more rest : List UInt8) :
    ¬ (first :: a :: more).isPrefixOf (b :: b' :: rest) = true := by
  simp [List.isPrefixOf, Ne.symm other]

/-- The tag of an element is next: an opening bracket with a name after it. -/
def OpensTag (c : Cursor) : Prop := ∃ b rest, c.ahead = 0x3C :: b :: rest ∧ Lettered b

theorem OpensTag.of (opens : Spells c "<" d) (named : Name d name e) : OpensTag c := by
  obtain ⟨b, rest, begins, lettered⟩ := named.begins
  exact ⟨b, rest, by rw [opens.ahead, begins]; rfl, lettered⟩

theorem Opening.opensTag (opening : Opening isEmpty c tag d) : OpensTag c := by
  obtain ⟨opens, named, -⟩ := opening
  exact .of opens named

theorem OpensTag.bracket (opens : OpensTag c) : (bytes "<").isPrefixOf c.ahead = true := by
  obtain ⟨b, rest, ahead, -⟩ := opens
  rw [ahead]
  rfl

theorem OpensTag.notClosing (opens : OpensTag c) : ¬ (bytes "</").isPrefixOf c.ahead = true := by
  obtain ⟨b, rest, ahead, lettered⟩ := opens
  rw [ahead]
  exact isPrefixOf_second (lettered.ne (by decide)) _ _ _

theorem OpensTag.notSection (opens : OpensTag c) (sec : Section) :
    ¬ (bytes sec.opening).isPrefixOf c.ahead = true := by
  obtain ⟨b, rest, ahead, lettered⟩ := opens
  rw [ahead]
  cases sec <;> exact isPrefixOf_second (lettered.ne (by decide)) _ _ _

/-- Something other than a tag or a section is next. -/
def Untagged (c : Cursor) : Prop := ∃ b rest, c.ahead = b :: rest ∧ b ≠ 0x3C

theorem Untagged.notPrefix (untagged : Untagged c) (more : List UInt8) :
    ¬ (0x3C :: more).isPrefixOf c.ahead = true := by
  obtain ⟨b, rest, ahead, other⟩ := untagged
  rw [ahead]
  exact isPrefixOf_first other _ _

theorem Untagged.notSection (untagged : Untagged c) (sec : Section) :
    ¬ (bytes sec.opening).isPrefixOf c.ahead = true := by
  cases sec <;> exact untagged.notPrefix _

/-- What every derivation of a child element shows at its two ends. -/
structure Nesting (nested : Cursor → Tag → Body → Cursor → Prop) : Prop where
  opens : nested c tag inside d → OpensTag c
  shorter : nested c tag inside d → d.ahead.length < c.ahead.length

theorem element_nesting (levels : Nat) : Nesting (Element levels) where
  opens read := by
    cases levels with
    | zero => cases read
    | succ levels => rcases read with opening | ⟨opening, -⟩ <;> exact opening.opensTag
  shorter := Element.shorter

/-- What follows a run of text is not text. -/
theorem Contents.tagged (nesting : Nesting nested) (contents : Contents nested c body d) (ends : Tagged d)
    (apart : ∀ run place more, body ≠ .text run place more) : Tagged c := by
  cases contents with
  | done => exact ends
  | text => exact absurd rfl (apart _ _ _)
  | comment enclosed =>
    obtain ⟨_, _, opens, -⟩ := enclosed.measured
    exact tagged_of opens.ahead
  | cdata enclosed =>
    obtain ⟨_, _, opens, -⟩ := enclosed.measured
    exact tagged_of opens.ahead
  | element inner =>
    obtain ⟨b, rest, ahead, -⟩ := nesting.opens inner
    exact tagged_of ahead

/-- A run of text does not begin with an opening bracket. -/
theorem Spells.untagged (spelled : Spells c run d) (some : run ≠ "") (plain : '<' ∉ run.toList) : Untagged c := by
  have ahead := spelled.ahead
  cases begins : bytes run with
  | nil => exact absurd (bytes_eq_nil_iff.1 begins) some
  | cons b rest =>
    rw [begins] at ahead
    refine ⟨b, rest ++ d.ahead, ahead, ?_⟩
    rintro rfl
    rw [bytes_eq_spell] at begins
    exact plain ((Scan.mem_spell_iff (c := '<') (by decide)).1 (by rw [begins]; exact List.mem_cons_self))

theorem Quoted.unspaced (quoted : Quoted c inside d) : c.Unspaced := by
  obtain ⟨b, rest, raw, ahead, isQuote, -⟩ := quoted.measured
  refine unspaced_of ahead ?_
  obtain ⟨quote, kind, rfl⟩ := quote_of_isQuote isQuote
  rcases kind with rfl | rfl <;> rfl

theorem Tagged.unspaced (tagged : Tagged c) : c.Unspaced := by
  intro b rest ahead
  rw [tagged b rest ahead]
  rfl

theorem Enclosed.tagged (enclosed : Enclosed sec c body d) : Tagged c := by
  obtain ⟨_, _, opens, -⟩ := enclosed.measured
  cases sec <;> exact tagged_of opens.ahead

/-- Nothing that may stand outside the root element is next: the input has ended, or an element begins. -/
def Stops (c : Cursor) : Prop := c.ahead = [] ∨ OpensTag c

theorem OpensTag.tagged (opens : OpensTag c) : Tagged c := by
  obtain ⟨_, _, ahead, -⟩ := opens
  exact tagged_of ahead

theorem tagged_end {c : Cursor} (ended : c.ahead = []) : Tagged c := by
  intro b rest ahead
  cases ended.symm.trans ahead

theorem Stops.tagged (stops : Stops c) : Tagged c := stops.elim tagged_end OpensTag.tagged

theorem Stops.notSection (stops : Stops c) (sec : Section) : ¬ (bytes sec.opening).isPrefixOf c.ahead = true := by
  rcases stops with ended | opens
  · rw [ended]
    cases sec <;> exact Bool.false_ne_true
  · exact opens.notSection sec

/-- A section begins that nothing ends. -/
def Dangling (sec : Section) (c : Cursor) : Prop :=
  ∃ d, Spells c sec.opening d ∧ Scan.indexOf? (bytes sec.terminator) d.ahead = none

theorem Dangling.tagged (dangling : Dangling sec c) : Tagged c := by
  obtain ⟨_, opens, -⟩ := dangling
  cases sec <;> exact tagged_of opens.ahead

/-- What stands outside the root element begins with all the spaces there are, and then a comment if anything. -/
theorem Misc.first (misc : Misc c d) (ends : Tagged d) :
    ∃ m, Space c m ∧ Tagged m ∧ (m = d ∨ ∃ body m', Enclosed .comment m body m' ∧ Misc m' d) := by
  induction misc with
  | done => exact ⟨_, .refl _, ends, .inl rfl⟩
  | space space more ih =>
    obtain ⟨m, spaces, tagged, next⟩ := ih ends
    exact ⟨m, space.trans spaces, tagged, next⟩
  | comment enclosed more ih => exact ⟨_, .refl _, enclosed.tagged, .inr ⟨_, _, enclosed, more⟩⟩

/-- What stands before the root element begins with all the spaces there are, and then the declaration if there is
one. -/
theorem Prolog.first (prolog : Prolog c₁ c₂) (space : Space c c₁) (before : Misc c₂ d) (ends : Tagged d)
    (undeclared : ¬ (bytes Section.declaration.opening).isPrefixOf d.ahead = true) :
    ∃ m, Space c m ∧ Tagged m ∧ ((∃ body m', Enclosed .declaration m body m' ∧ Misc m' d) ∨
      (¬ (bytes Section.declaration.opening).isPrefixOf m.ahead = true ∧ Misc m d)) := by
  cases prolog with
  | declaration enclosed => exact ⟨c₁, space, enclosed.tagged, .inl ⟨_, _, enclosed, before⟩⟩
  | none =>
    obtain ⟨m, spaces, tagged, next⟩ := (Misc.space space before).first ends
    refine ⟨m, spaces, tagged, .inr ?_⟩
    rcases next with rfl | ⟨body, m', enclosed, more⟩
    · exact ⟨undeclared, .done⟩
    · obtain ⟨_, _, opens, -⟩ := enclosed.measured
      exact ⟨by rw [opens.ahead]; exact Bool.false_ne_true, .comment enclosed more⟩

end Grammar

namespace Stream
open Grammar

/-- A stream whose bytes are all there, standing at a place. -/
structure At (s : Stream) (c : Cursor) : Prop where
  whole : s.Whole
  place : s.position = c.place
  ahead : s.ahead = c.ahead

namespace At

theorem ofBytes (input : List UInt8) : (ofBytes input).At (.start input) := ⟨ofBytes_whole input, rfl, rfl⟩

theorem unique (here : At s c) (here' : At s c') : c = c' := by
  obtain ⟨place, ahead⟩ := c
  obtain ⟨place', ahead'⟩ := c'
  obtain rfl : place = place' := here.place.symm.trans here'.place
  obtain rfl : ahead = ahead' := here.ahead.symm.trans here'.ahead
  rfl

theorem setMark (here : At s c) : s.setMark.At c := ⟨⟨here.whole.1, here.whole.2⟩, here.place, here.ahead⟩

theorem advance (here : At s c) (n : Nat) : (s.advance n).At (c.past n) where
  whole := ⟨here.whole.1, here.whole.2⟩
  place := by rw [Stream.advance, Cursor.past, here.place, here.ahead]
  ahead := by rw [Stream.advance, Cursor.past, here.ahead]

theorem past (here : At s c) (spelled : Spells c text d) : (s.advance (bytes text).length).At d := by
  rw [spelled.past]
  exact here.advance _

theorem run (here : At s c) (settled : scan.Settled) : s.run scan = (scan.whole c.ahead, s) := by
  rw [run_whole here.whole settled, here.ahead]

theorem find (here : At s c) (needle : List UInt8) : s.run (.find needle) = (Scan.indexOf? needle c.ahead, s) :=
  here.run (Scan.find_settled needle)

theorem nameLength (here : At s c) : s.run .nameLength = (Text.nameLength c.ahead, s) :=
  here.run Scan.nameLength_settled

theorem quotedLength (here : At s c) : s.run .quotedLength = (Scan.quotedLength? c.ahead, s) :=
  here.run Scan.quotedLength_settled

theorem isAtEnd (here : At s c) : s.isAtEnd = (c.ahead.isEmpty, s) := by
  rw [Stream.isAtEnd, here.run (Scan.available_settled 1)]
  cases ahead : c.ahead <;> simp [Scan.available, hasAtLeast]

theorem peek (here : At s c) : s.peek = (c.ahead.head?, s) := by
  rw [Stream.peek, here.run (Scan.byteAt_settled 0), List.head?_eq_getElem?]
  rfl

theorem startsWith (here : At s c) (literal : List UInt8) : s.startsWith literal = (literal.isPrefixOf c.ahead, s) :=
  here.run (Scan.startsWith_settled literal)

theorem eat (here : At s c) (literal : List UInt8) :
    s.eat literal = (literal.isPrefixOf c.ahead,
      if literal.isPrefixOf c.ahead then s.advance literal.length else s) := by
  rw [Stream.eat, here.startsWith]

theorem skipSpace (here : At s c) : s.skipSpace.At (c.past (Scan.spaces.whole c.ahead)) := by
  rw [Stream.skipSpace, here.run Scan.spaces_settled]
  exact here.advance _

theorem skipSpace_of (here : At s c) (space : Space c d) (stops : d.Unspaced) : s.skipSpace.At d := by
  rw [space.measured stops]
  exact here.skipSpace

/-- The text moved over is read from the bytes moved over. -/
theorem bytesFrom (here : At s c) (n : Nat) : (s.advance n).bytesFrom s.offset = c.ahead.take n := by
  have moved : (s.advance n).offset = s.offset + (c.ahead.take n).length := by
    rw [offset, Stream.advance, Position.advance_offset, here.ahead, offset]
  rw [Stream.bytesFrom, moved, Stream.advance, here.ahead, Nat.add_sub_cancel_left,
    List.take_left' (by simp), List.reverse_reverse]

end At
end Stream
end XmlBinding
