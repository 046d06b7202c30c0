import XmlBinding.Proofs.Denotation

/-! The direct reader against the grammar. Whatever it reads is derived by the grammar, and whatever the grammar
derives it reads, with the same meaning for every builder. -/
namespace XmlBinding
open Text Grammar

namespace Reading

theorem bind_ok {x : Reading α} {f : α → Reading β} :
    (x >>= f) s = .ok r ↔ ∃ a s', x s = .ok (a, s') ∧ f a s' = .ok r := by
  change (x s).bind (fun p => f p.1 p.2) = _ ↔ _
  cases x s with
  | error e => simp [Except.bind]
  | ok p =>
    constructor
    · exact fun ran => ⟨p.1, p.2, rfl, ran⟩
    · rintro ⟨a, s', same, ran⟩
      cases same
      exact ran

theorem bind_of {x : Reading α} (ran : x s = .ok (a, s')) (f : α → Reading β) : (x >>= f) s = f a s' := by
  change (x s).bind (fun p => f p.1 p.2) = _
  rw [ran]
  rfl

theorem ite_run {p : Prop} [Decidable p] (x y : Reading α) (s : Stream) :
    (if p then x else y) s = if p then x s else y s := by
  split <;> rfl

theorem pure_ok {a : α} : (pure a : Reading α) s = .ok (b, s') ↔ a = b ∧ s = s' := by
  change Except.ok (a, s) = _ ↔ _
  simp

theorem discard_ok {x : Reading α} : discard x s = .ok (u, s') ↔ ∃ a, x s = .ok (a, s') := by
  change (x s).bind (fun p => Except.ok ((), p.2)) = _ ↔ _
  cases x s with
  | error e => simp [Except.bind]
  | ok p =>
    obtain ⟨a, s₁⟩ := p
    simp [Except.bind]

theorem discard_of {x : Reading α} (ran : x s = .ok (a, s')) : discard x s = .ok ((), s') :=
  discard_ok.2 ⟨a, ran⟩

theorem failAt_ne {α : Type} {fault : Fault} {place : Position} {s : Stream} {r : α × Stream} :
    failAt fault place s ≠ .ok r := by
  intro ran
  unfold failAt at ran
  obtain ⟨state, _, -, ran⟩ := bind_ok.1 ran
  cases failed : state.failure <;> rw [failed] at ran <;> cases ran

theorem fail_ne {α : Type} {fault : Fault} {s : Stream} {r : α × Stream} : fail fault s ≠ .ok r := by
  intro ran
  unfold fail at ran
  obtain ⟨_, _, -, ran⟩ := bind_ok.1 ran
  exact failAt_ne ran

theorem mark_ok (s : Stream) : mark s = .ok (s.setMark.offset, s.setMark) := rfl

theorem advance_ok (n : Nat) (s : Stream) : advance n s = .ok ((), s.advance n) := rfl

theorem unless_ok {b : Bool} {next : Unit → Reading α}
    (ran : (if b = true then next () else fail fault >>= next) s = .ok r) : b = true ∧ next () s = .ok r := by
  cases b with
  | true => exact ⟨rfl, ran⟩
  | false =>
    obtain ⟨_, _, failed, -⟩ := bind_ok.1 ran
    exact absurd failed fail_ne

theorem expected_ok {b : Bool} {next : Unit → Reading α} {fault : Finding → Fault}
    (ran : (if b = true then next () else finding >>= fun found => fail (fault found) >>= next) s = .ok r) :
    b = true ∧ next () s = .ok r := by
  cases b with
  | true => exact ⟨rfl, ran⟩
  | false =>
    obtain ⟨_, _, -, ran⟩ := bind_ok.1 ran
    obtain ⟨_, _, failed, -⟩ := bind_ok.1 ran
    exact absurd failed fail_ne

theorem when_ok {b : Bool} {next : Unit → Reading α}
    (ran : (if b = true then fail fault >>= next else next ()) s = .ok r) : b = false ∧ next () s = .ok r := by
  cases b with
  | false => exact ⟨rfl, ran⟩
  | true =>
    obtain ⟨_, _, failed, -⟩ := bind_ok.1 ran
    exact absurd failed fail_ne

section Primitives
variable {s : Stream} {c : Cursor} (here : s.At c)
include here

theorem ask_at (settled : scan.Settled) : ask scan s = .ok (scan.whole c.ahead, s) :=
  congrArg Except.ok (here.run settled)

theorem ask_name : ask .nameLength s = .ok (nameLength c.ahead, s) := congrArg Except.ok here.nameLength

theorem ask_find (needle : List UInt8) : ask (.find needle) s = .ok (Scan.indexOf? needle c.ahead, s) :=
  congrArg Except.ok (here.find needle)

theorem ask_quoted : ask .quotedLength s = .ok (Scan.quotedLength? c.ahead, s) :=
  congrArg Except.ok here.quotedLength

theorem isAtEnd_at : isAtEnd s = .ok (c.ahead.isEmpty, s) :=
  congrArg Except.ok here.isAtEnd

theorem peek_at : (modifyGet (·.peek) : Reading (Option UInt8)) s = .ok (c.ahead.head?, s) :=
  congrArg Except.ok here.peek

theorem startsWith_at (literal : String) : startsWith literal s = .ok ((bytes literal).isPrefixOf c.ahead, s) :=
  congrArg Except.ok (here.startsWith _)

theorem eat_at (literal : String) :
    eat literal s = .ok ((bytes literal).isPrefixOf c.ahead,
      if (bytes literal).isPrefixOf c.ahead then s.advance (bytes literal).length else s) :=
  congrArg Except.ok (here.eat _)

theorem eat_of (spelled : Spells c literal d) :
    eat literal s = .ok (true, s.advance (bytes literal).length) ∧ (s.advance (bytes literal).length).At d := by
  rw [eat_at here, spelled.isPrefix, spelled.past]
  exact ⟨rfl, here.advance _⟩

theorem eat_of_not (literal : String) (missing : ¬ (bytes literal).isPrefixOf c.ahead = true) :
    eat literal s = .ok (false, s) := by
  rw [eat_at here, Bool.eq_false_iff.2 missing]
  rfl

theorem eat_true (ate : eat literal s = .ok (true, s')) : ∃ d, Spells c literal d ∧ s'.At d := by
  rw [eat_at here] at ate
  simp only [Except.ok.injEq, Prod.mk.injEq] at ate
  obtain ⟨found, rfl⟩ := ate
  rw [if_pos found]
  exact ⟨_, .ofPrefix found, here.advance _⟩

theorem eat_false (ate : eat literal s = .ok (false, s')) : (bytes literal).isPrefixOf c.ahead = false ∧ s = s' := by
  rw [eat_at here] at ate
  simp only [Except.ok.injEq, Prod.mk.injEq] at ate
  obtain ⟨missing, rfl⟩ := ate
  exact ⟨missing, by rw [if_neg (by simp [missing])]⟩

theorem skipSpace_ok (skipped : skipSpace s = .ok ((), s')) : ∃ d, Space c d ∧ d.Unspaced ∧ s'.At d := by
  cases skipped
  exact ⟨_, (space_past c).1, (space_past c).2, here.skipSpace⟩

theorem skipSpace_of (space : Space c d) (stops : d.Unspaced) : ∃ s', skipSpace s = .ok ((), s') ∧ s'.At d :=
  ⟨_, rfl, here.skipSpace_of space stops⟩

theorem textFrom_ok : textFrom s.offset (s.advance n) = .ok (text, s') ↔
    ofBytes? (c.ahead.take n) = some text ∧ s' = s.advance n := by
  have unfolded : textFrom s.offset (s.advance n) =
      ((s.advance n).textFrom s.offset).map fun text => (text, s.advance n) := by
    unfold textFrom
    rw [bind_of (a := s.advance n) rfl]
    cases (s.advance n).textFrom s.offset <;> rfl
  rw [unfolded, Stream.textFrom, here.bytesFrom]
  cases ofBytes? (c.ahead.take n) with
  | none => simp [Except.map]
  | some read => simp [Except.map, eq_comm]

theorem lexeme_ok : lexeme keepsText s.offset (s.advance n) = .ok (kept, s') ↔
    ∃ text, ofBytes? (c.ahead.take n) = some text ∧ kept = (if keepsText then some text else none) ∧
      s' = s.advance n := by
  rw [lexeme_eq]
  simp only [bind_ok, textFrom_ok here, pure_ok]
  constructor
  · rintro ⟨text, _, ⟨valid, rfl⟩, rfl, rfl⟩
    exact ⟨text, valid, rfl, rfl⟩
  · rintro ⟨text, valid, rfl, rfl⟩
    exact ⟨text, _, ⟨valid, rfl⟩, rfl, rfl⟩

end Primitives

theorem name_sound (here : s.At c) (ran : name missing s = .ok (n, s')) : ∃ d, Name c n d ∧ s'.At d := by
  unfold name at ran
  obtain ⟨_, _, marked, ran⟩ := bind_ok.1 ran
  cases marked
  obtain ⟨_, _, asked, ran⟩ := bind_ok.1 ran
  rw [ask_name here.setMark] at asked
  cases asked
  split at ran
  · obtain ⟨_, _, failed, -⟩ := bind_ok.1 ran
    exact absurd failed fail_ne
  · rename_i some
    obtain ⟨_, _, moved, ran⟩ := bind_ok.1 ran
    cases moved
    obtain ⟨valid, rfl⟩ := (textFrom_ok here.setMark).1 ran
    exact ⟨_, name_past (Nat.pos_of_ne_zero some) valid, here.setMark.advance _⟩

theorem name_complete (here : s.At c) (named : Name c n d) : ∃ s', name missing s = .ok (n, s') ∧ s'.At d := by
  have measured := named.measured
  have valid := named.spelled.take
  rw [← measured] at valid
  refine ⟨s.setMark.advance (nameLength c.ahead), ?_, ?_⟩
  · unfold name
    rw [bind_of (mark_ok s), bind_of (ask_name here.setMark)]
    have some : nameLength c.ahead ≠ 0 := by
      rw [measured]
      exact mt List.eq_nil_of_length_eq_zero (mt bytes_eq_nil_iff.1 named.nonempty)
    rw [if_neg some]
    dsimp only
    rw [bind_of (advance_ok _ _)]
    exact (textFrom_ok here.setMark).2 ⟨valid, rfl⟩
  · rw [measured, named.spelled.past]
    exact here.setMark.advance _

theorem delimited_sound (here : s.At c) (opens : Spells c sec.opening c₁)
    (ran : delimited keepsText sec s = .ok (body?, s')) :
    ∃ body d, Enclosed sec c body d ∧ body? = (if keepsText then some body else none) ∧ s'.At d := by
  unfold delimited at ran
  obtain ⟨_, _, got, ran⟩ := bind_ok.1 ran
  cases got
  obtain ⟨_, _, moved, ran⟩ := bind_ok.1 ran
  cases moved
  obtain ⟨_, _, marked, ran⟩ := bind_ok.1 ran
  cases marked
  have inside : (s.advance (bytes sec.opening).length).setMark.At c₁ := by
    rw [opens.past]
    exact (here.advance _).setMark
  obtain ⟨_, _, asked, ran⟩ := bind_ok.1 ran
  rw [ask_find inside] at asked
  cases asked
  cases found : Scan.indexOf? (bytes sec.terminator) c₁.ahead with
  | none =>
    rw [found] at ran
    exact absurd ran failAt_ne
  | some length =>
    rw [found] at ran
    obtain ⟨_, _, moved, ran⟩ := bind_ok.1 ran
    cases moved
    obtain ⟨_, _, read, ran⟩ := bind_ok.1 ran
    obtain ⟨body, valid, rfl, rfl⟩ := (lexeme_ok inside).1 read
    obtain ⟨_, _, moved, ran⟩ := bind_ok.1 ran
    cases moved
    obtain ⟨rfl, rfl⟩ := pure_ok.1 ran
    exact ⟨body, _, enclosed_past opens found valid, rfl, (inside.advance _).advance _⟩

theorem delimited_complete (keepsText : Bool) (here : s.At c) (enclosed : Enclosed sec c body d) :
    ∃ s', delimited keepsText sec s = .ok (if keepsText then some body else none, s') ∧ s'.At d := by
  obtain ⟨c₁, c₂, opens, inner, closes, found⟩ := enclosed.measured
  have inside : (s.advance (bytes sec.opening).length).setMark.At c₁ := by
    rw [opens.past]
    exact (here.advance _).setMark
  refine ⟨((s.advance (bytes sec.opening).length).setMark.advance (bytes body).length).advance
    (bytes sec.terminator).length, ?_, ?_⟩
  · unfold delimited
    rw [bind_of (a := s) rfl, bind_of (advance_ok _ _), bind_of (mark_ok _), bind_of (ask_find inside _),
      found]
    dsimp only
    rw [bind_of (advance_ok _ _), bind_of ((lexeme_ok inside).2 ⟨body, inner.take, rfl, rfl⟩),
      bind_of (advance_ok _ _)]
    rfl
  · rw [closes.past, inner.past]
    exact (inside.advance _).advance _

theorem readAttribute_sound (builder : Builder ε) (here : s.At c)
    (ran : readAttribute builder soFar s = .ok (made, s')) :
    ∃ written d, Attr c written d ∧ made = builder.addAttributes soFar [written] ∧ s'.At d := by
  unfold readAttribute at ran
  obtain ⟨_, _, read, ran⟩ := bind_ok.1 ran
  obtain ⟨c₁, named, here⟩ := name_sound here read
  obtain ⟨_, _, skipped, ran⟩ := bind_ok.1 ran
  obtain ⟨c₂, before, -, here⟩ := skipSpace_ok here skipped
  obtain ⟨_, _, ate, ran⟩ := bind_ok.1 ran
  obtain ⟨rfl, ran⟩ := unless_ok ran
  obtain ⟨c₃, equals, here⟩ := eat_true here ate
  obtain ⟨_, _, skipped, ran⟩ := bind_ok.1 ran
  obtain ⟨c₄, after, -, here⟩ := skipSpace_ok here skipped
  obtain ⟨_, _, marked, ran⟩ := bind_ok.1 ran
  cases marked
  obtain ⟨_, _, peeked, ran⟩ := bind_ok.1 ran
  rw [peek_at here.setMark] at peeked
  cases peeked
  obtain ⟨isQuote, ran⟩ := unless_ok ran
  obtain ⟨_, _, asked, ran⟩ := bind_ok.1 ran
  rw [ask_quoted here.setMark] at asked
  cases asked
  cases begins : c₄.ahead with
  | nil => simp [begins] at isQuote
  | cons b rest =>
    cases found : Scan.quotedLength? c₄.ahead with
    | none =>
      rw [found] at ran
      exact absurd ran fail_ne
    | some n =>
      rw [found] at ran
      obtain ⟨_, _, moved, ran⟩ := bind_ok.1 ran
      cases moved
      obtain ⟨_, _, read, ran⟩ := bind_ok.1 ran
      obtain ⟨raw, valid, rfl, rfl⟩ := (lexeme_ok here.setMark).1 read
      have value := quoted_past begins (by simpa [begins] using isQuote) found valid
      refine ⟨_, _, .intro named before equals after value, ?_⟩
      have there := here.setMark.advance n
      cases keeps : builder.keepsText <;> rw [keeps] at ran <;> obtain ⟨rfl, rfl⟩ := pure_ok.1 ran <;>
        exact ⟨by simp [Builder.addAttributes, keeps], there⟩

theorem readAttribute_complete (builder : Builder ε) (soFar : ε) (here : s.At c) (read : Attr c written d) :
    ∃ s', readAttribute builder soFar s = .ok (builder.addAttributes soFar [written], s') ∧ s'.At d := by
  obtain ⟨named, before, equals, after, value⟩ := read
  obtain ⟨s₁, ran₁, here⟩ := name_complete here named
  obtain ⟨s₂, ran₂, here⟩ := skipSpace_of here before (unspaced_of equals.ahead rfl)
  obtain ⟨ran₃, here⟩ := eat_of here equals
  obtain ⟨s₄, ran₄, here⟩ := skipSpace_of here after value.unspaced
  obtain ⟨b, rest, raw, begins, isQuote, rfl, spelled, found⟩ := value.measured
  have first {ahead : List UInt8} (begins : ahead = b :: rest) : ahead.head?.any Lexer.isQuote = true := by
    rw [begins]
    exact isQuote
  refine ⟨s₄.setMark.advance (bytes raw).length, ?_, ?_⟩
  · unfold readAttribute
    rw [bind_of ran₁, bind_of ran₂, bind_of ran₃]
    dsimp only
    rw [if_pos rfl, bind_of ran₄, bind_of (mark_ok _), bind_of (peek_at here.setMark),
      if_pos (first begins), bind_of (ask_quoted here.setMark), found]
    dsimp only
    rw [bind_of (advance_ok _ _), bind_of ((lexeme_ok here.setMark).2 ⟨raw, spelled.take, rfl, rfl⟩)]
    cases keeps : builder.keepsText <;> simp only [Builder.addAttributes, keeps, List.foldl] <;> rfl
  · rw [spelled.past]
    exact here.setMark.advance _

theorem restOfTag_sound (builder : Builder ε) (here : s.At c)
    (ran : restOfTag builder fuel soFar s = .ok ((made, isEmpty), s')) :
    ∃ list c₁ c₂ d, Attributes c list c₁ ∧ Space c₁ c₂ ∧ Spells c₂ (ending isEmpty) d ∧
      made = builder.addAttributes soFar list ∧ s'.At d := by
  induction fuel generalizing s c soFar with
  | zero => exact absurd ran fail_ne
  | succ fuel ih =>
    unfold restOfTag at ran
    obtain ⟨_, _, skipped, ran⟩ := bind_ok.1 ran
    obtain ⟨c₁, space, -, here⟩ := skipSpace_ok here skipped
    obtain ⟨closes, _, ate, ran⟩ := bind_ok.1 ran
    cases closes with
    | true =>
      obtain ⟨d, ends, here⟩ := eat_true here ate
      obtain ⟨same, rfl⟩ := pure_ok.1 ran
      cases same
      exact ⟨[], c, c₁, d, .nil, space, ends, rfl, here⟩
    | false =>
      obtain ⟨-, rfl⟩ := eat_false here ate
      obtain ⟨opens, _, ate, ran⟩ := bind_ok.1 ran
      cases opens with
      | true =>
        obtain ⟨d, ends, here⟩ := eat_true here ate
        obtain ⟨same, rfl⟩ := pure_ok.1 ran
        cases same
        exact ⟨[], c, c₁, d, .nil, space, ends, rfl, here⟩
      | false =>
        obtain ⟨-, rfl⟩ := eat_false here ate
        obtain ⟨_, _, looked, ran⟩ := bind_ok.1 ran
        rw [isAtEnd_at here] at looked
        cases looked
        obtain ⟨-, ran⟩ := when_ok ran
        obtain ⟨_, _, read, ran⟩ := bind_ok.1 ran
        obtain ⟨written, c₂, first, rfl, here⟩ := readAttribute_sound builder here read
        obtain ⟨list, c₃, c₄, d, more, space', ends, rfl, here⟩ := ih here ran
        exact ⟨written :: list, c₃, c₄, d, .cons space first more, space', ends, rfl, here⟩

theorem restOfTag_complete (builder : Builder ε) (soFar : ε) (fuel : Nat) (here : s.At c)
    (attributes : Attributes c list c₁)
    (space : Space c₁ c₂) (ends : Spells c₂ (ending isEmpty) d) (enough : c.ahead.length ≤ fuel) :
    ∃ s', restOfTag builder fuel soFar s = .ok ((builder.addAttributes soFar list, isEmpty), s') ∧ s'.At d := by
  induction attributes generalizing s soFar fuel with
  | nil =>
    have room := ends.shorter (by cases isEmpty <;> decide)
    have less := space.reaches.length
    obtain ⟨fuel, rfl⟩ : ∃ n, fuel = n + 1 := ⟨fuel - 1, by omega⟩
    unfold restOfTag
    cases isEmpty with
    | true =>
      change Spells c₂ "/>" d at ends
      obtain ⟨s₁, ran₁, here⟩ := skipSpace_of here space (unspaced_of ends.ahead rfl)
      obtain ⟨ran₂, here⟩ := eat_of here ends
      exact ⟨_, by rw [bind_of ran₁, bind_of ran₂]; rfl, here⟩
    | false =>
      change Spells c₂ ">" d at ends
      obtain ⟨s₁, ran₁, here⟩ := skipSpace_of here space (unspaced_of ends.ahead rfl)
      obtain ⟨ran₃, there⟩ := eat_of here ends
      have ran₂ := eat_of_not here "/>" (by rw [ends.ahead]; exact isPrefixOf_first (by decide) _ _)
      exact ⟨_, by rw [bind_of ran₁, bind_of ran₂, if_neg (by decide), bind_of ran₃]; rfl, there⟩
  | cons space' first more ih =>
    obtain ⟨_, named⟩ := first.named
    obtain ⟨b, rest, begins, lettered⟩ := named.begins
    obtain ⟨s₁, ran₁, here⟩ := skipSpace_of here space' named.unspaced
    have ran₂ := eat_of_not here "/>"
      (by rw [begins]; exact isPrefixOf_first (lettered.ne (by decide)) _ _)
    have ran₃ := eat_of_not here ">"
      (by rw [begins]; exact isPrefixOf_first (lettered.ne (by decide)) _ _)
    have ran₄ := isAtEnd_at here
    obtain ⟨s₅, ran₅, there⟩ := readAttribute_complete builder soFar here first
    have room := first.shorter
    have less := space'.reaches.length
    obtain ⟨fuel, rfl⟩ : ∃ n, fuel = n + 1 := ⟨fuel - 1, by omega⟩
    obtain ⟨s', ran₆, here⟩ := ih (builder.addAttributes soFar [_]) fuel there space (by omega)
    refine ⟨s', ?_, here⟩
    unfold restOfTag
    rw [bind_of ran₁, bind_of ran₂, if_neg (by decide), bind_of ran₃, if_neg (by decide), bind_of ran₄, begins]
    exact (bind_of ran₅ _).trans ran₆

/-- A reader of child elements reads no more than the grammar derives. -/
def Sound (builder : Builder ε) (reader : Reading (String × ε)) (nested : Cursor → Tag → Body → Cursor → Prop) :
    Prop :=
  ∀ {s c name made s'}, s.At c → reader s = .ok ((name, made), s') →
    ∃ tag inside d, nested c tag inside d ∧ name = tag.name ∧ made = builder.made tag inside ∧ s'.At d

/-- A reader of child elements reads whatever the grammar derives where no more than `parts` bytes are left. -/
def Complete (builder : Builder ε) (parts : Nat) (reader : Reading (String × ε))
    (nested : Cursor → Tag → Body → Cursor → Prop) : Prop :=
  ∀ {s c tag inside d}, s.At c → c.ahead.length ≤ parts → nested c tag inside d →
    ∃ s', reader s = .ok ((tag.name, builder.made tag inside), s') ∧ s'.At d

theorem content_sound {builder : Builder ε} (child : Sound builder reader nested) (here : s.At c)
    (ran : content builder reader outer fuel soFar text cdata? s = .ok (made, s')) :
    ∃ body d e, Contents nested c body d ∧ Spells d "</" e ∧
      made = builder.complete body soFar text cdata? ∧ s'.At d := by
  induction fuel generalizing s c soFar text cdata? with
  | zero => exact absurd ran fail_ne
  | succ fuel ih =>
    simp only [content, ite_run, bind_of (isAtEnd_at here), bind_of (startsWith_at here _)] at ran
    split at ran
    · obtain ⟨_, _, failed, -⟩ := bind_ok.1 ran
      exact absurd failed fail_ne
    rename_i more
    split at ran
    · rename_i closes
      obtain ⟨rfl, rfl⟩ := pure_ok.1 ran
      exact ⟨.done, c, _, .done, .ofPrefix closes, rfl, here⟩
    split at ran
    · rename_i opens
      obtain ⟨_, _, read, ran⟩ := bind_ok.1 ran
      obtain ⟨_, read⟩ := discard_ok.1 read
      obtain ⟨comment, d, enclosed, -, here⟩ := delimited_sound here (.ofPrefix opens) read
      obtain ⟨body, e, f, contents, closes, rfl, here⟩ := ih here ran
      exact ⟨.comment body, e, f, .comment enclosed contents, closes, rfl, here⟩
    split at ran
    · rename_i opens
      obtain ⟨_, _, read, ran⟩ := bind_ok.1 ran
      obtain ⟨cdata, d, enclosed, rfl, here⟩ := delimited_sound here (.ofPrefix opens) read
      obtain ⟨body, e, f, contents, closes, rfl, here⟩ := ih here ran
      refine ⟨.cdata cdata c.place body, e, f, .cdata enclosed contents, closes, ?_, here⟩
      rw [Builder.complete, builder.getD_kept]
    split at ran
    · exact absurd ran fail_ne
    split at ran
    · obtain ⟨⟨name, inner⟩, _, read, ran⟩ := bind_ok.1 ran
      obtain ⟨tag, inside, d, nested, rfl, rfl, here⟩ := child here read
      obtain ⟨body, e, f, contents, closes, rfl, here⟩ := ih here ran
      exact ⟨.element tag inside body, e, f, .element nested contents, closes, rfl, here⟩
    · rename_i other
      obtain ⟨_, _, marked, ran⟩ := bind_ok.1 ran
      cases marked
      obtain ⟨_, _, asked, ran⟩ := bind_ok.1 ran
      rw [ask_at here.setMark Scan.textLength_settled] at asked
      cases asked
      obtain ⟨_, _, moved, ran⟩ := bind_ok.1 ran
      cases moved
      obtain ⟨_, _, read, ran⟩ := bind_ok.1 ran
      obtain ⟨run, valid, rfl, rfl⟩ := (lexeme_ok here.setMark).1 read
      obtain ⟨spelled, plain, stops⟩ := text_past valid
      have some := text_nonempty spelled stops (Bool.eq_false_iff.2 more) (Bool.eq_false_iff.2 other)
      obtain ⟨body, e, f, contents, closes, rfl, here⟩ := ih (here.setMark.advance _) ran
      refine ⟨.text run c.place body, e, f, .text some plain spelled contents, closes, ?_, here⟩
      rw [Builder.complete, builder.getD_kept]

section ContentSteps
variable {builder : Builder ε} {reader : Reading (String × ε)} {s : Stream} {c d : Cursor} (here : s.At c)
include here

theorem content_closing (closes : Spells c "</" d) :
    content builder reader outer (fuel + 1) soFar text cdata? s = .ok (finish builder soFar text cdata?, s) := by
  simp only [content, ite_run, bind_of (isAtEnd_at here), bind_of (startsWith_at here _)]
  rw [if_neg (by rw [closes.ahead]; exact Bool.false_ne_true), if_pos closes.isPrefix]
  rfl

theorem content_comment (enclosed : Enclosed .comment c body d) :
    ∃ s', s'.At d ∧ content builder reader outer (fuel + 1) soFar text cdata? s =
      content builder reader outer fuel soFar text cdata? s' := by
  obtain ⟨_, _, opens, -⟩ := enclosed.measured
  obtain ⟨s', ran, there⟩ := delimited_complete builder.keepsText here enclosed
  refine ⟨s', there, ?_⟩
  simp only [content, ite_run, bind_of (isAtEnd_at here), bind_of (startsWith_at here _)]
  rw [if_neg (by rw [opens.ahead]; exact Bool.false_ne_true),
    if_neg (by rw [opens.ahead]; exact Bool.false_ne_true), if_pos opens.isPrefix, bind_of (discard_of ran)]

theorem content_cdata (enclosed : Enclosed .cdata c body d) :
    ∃ s', s'.At d ∧ content builder reader outer (fuel + 1) soFar text cdata? s =
      content builder reader outer fuel soFar text (some (cdata?.getD "" ++ builder.kept body)) s' := by
  obtain ⟨_, _, opens, -⟩ := enclosed.measured
  obtain ⟨s', ran, there⟩ := delimited_complete builder.keepsText here enclosed
  refine ⟨s', there, ?_⟩
  simp only [content, ite_run, bind_of (isAtEnd_at here), bind_of (startsWith_at here _)]
  rw [if_neg (by rw [opens.ahead]; exact Bool.false_ne_true),
    if_neg (by rw [opens.ahead]; exact Bool.false_ne_true),
    if_neg (by rw [opens.ahead]; exact Bool.false_ne_true), if_pos opens.isPrefix, bind_of ran, builder.getD_kept]

theorem content_element {child : String} {made : ε} (opens : OpensTag c)
    (ran : reader s = .ok ((child, made), s')) :
    content builder reader outer (fuel + 1) soFar text cdata? s =
      content builder reader outer fuel (builder.addChild soFar child made) text cdata? s' := by
  obtain ⟨_, _, ahead, -⟩ := id opens
  simp only [content, ite_run, bind_of (isAtEnd_at here), bind_of (startsWith_at here _)]
  rw [if_neg (by rw [ahead]; exact Bool.false_ne_true), if_neg opens.notClosing, if_neg (opens.notSection .comment),
    if_neg (opens.notSection .cdata), if_neg (by exact opens.notSection .instruction), if_pos opens.bracket,
    bind_of ran]

theorem content_text (some : run ≠ "") (plain : '<' ∉ run.toList) (spelled : Spells c run d) (stops : Tagged d) :
    ∃ s', s'.At d ∧ content builder reader outer (fuel + 1) soFar text cdata? s =
      content builder reader outer fuel soFar (text ++ builder.kept run) cdata? s' := by
  have untagged := spelled.untagged some plain
  obtain ⟨_, _, ahead, -⟩ := id untagged
  have there := here.setMark.advance (bytes run).length
  rw [← spelled.past] at there
  refine ⟨_, there, ?_⟩
  simp only [content, ite_run, bind_of (isAtEnd_at here), bind_of (startsWith_at here _)]
  rw [if_neg (by rw [ahead]; exact Bool.false_ne_true), if_neg (by exact untagged.notPrefix _),
    if_neg (untagged.notSection .comment), if_neg (untagged.notSection .cdata),
    if_neg (by exact untagged.notSection .instruction), if_neg (by exact untagged.notPrefix _),
    bind_of (mark_ok _), bind_of (ask_at here.setMark Scan.textLength_settled),
    spelled.text plain stops, bind_of (advance_ok _ _),
    bind_of ((lexeme_ok here.setMark).2 ⟨_, spelled.take, rfl, rfl⟩), builder.getD_kept]

end ContentSteps

theorem content_complete {builder : Builder ε} (fuel : Nat) (nesting : Nesting nested)
    (child : Complete builder parts reader nested) (here : s.At c) (contents : Contents nested c body d)
    (joined : body.Joined) (ends : Spells d "</" e) (bound : c.ahead.length ≤ parts)
    (enough : c.ahead.length ≤ fuel) :
    ∃ s', content builder reader outer fuel soFar text cdata? s =
      .ok (builder.complete body soFar text cdata?, s') ∧ s'.At d := by
  have room := ends.shorter (by decide)
  -- Every part takes at least a byte, so the fuel lasts as long as the input does.
  induction contents generalizing s soFar text cdata? fuel with
  | done =>
    obtain ⟨fuel, rfl⟩ : ∃ n, fuel = n + 1 := ⟨fuel - 1, by omega⟩
    exact ⟨s, content_closing here ends, here⟩
  | comment enclosed rest ih =>
    cases joined with
    | comment joined =>
    have shorter := enclosed.shorter
    obtain ⟨fuel, rfl⟩ : ∃ n, fuel = n + 1 := ⟨fuel - 1, by omega⟩
    obtain ⟨s₁, there, step⟩ := content_comment here enclosed
    rw [step]
    exact ih fuel there joined ends (by omega) (by omega) room
  | cdata enclosed rest ih =>
    cases joined with
    | cdata joined =>
    have shorter := enclosed.shorter
    obtain ⟨fuel, rfl⟩ : ∃ n, fuel = n + 1 := ⟨fuel - 1, by omega⟩
    obtain ⟨s₁, there, step⟩ := content_cdata here enclosed
    rw [step]
    exact ih fuel there joined ends (by omega) (by omega) room
  | element inner rest ih =>
    cases joined with
    | element joined =>
    have shorter := nesting.shorter inner
    obtain ⟨fuel, rfl⟩ : ∃ n, fuel = n + 1 := ⟨fuel - 1, by omega⟩
    obtain ⟨s₁, ran, there⟩ := child here bound inner
    rw [content_element here (nesting.opens inner) ran]
    exact ih fuel there joined ends (by omega) (by omega) room
  | text some plain spelled rest ih =>
    cases joined with
    | text apart joined =>
    have shorter := spelled.shorter some
    obtain ⟨fuel, rfl⟩ : ∃ n, fuel = n + 1 := ⟨fuel - 1, by omega⟩
    have stops := rest.tagged nesting (tagged_of ends.ahead) apart
    obtain ⟨s₁, there, step⟩ := content_text here some plain spelled stops
    rw [step]
    exact ih fuel there joined ends (by omega) (by omega) room

/-- The tag that begins an element: its name, what is made of its attributes and whether the element ends with it. -/
def openTag (builder : Builder ε) (parts : Nat) : Reading (String × ε × Bool) := do
  unless ← eat "<" do fail (.unexpectedToken (.token .tagOpen) (← finding))
  let opening ← name .expectedElementName
  let (made, isEmpty) ← restOfTag builder parts builder.element
  return (opening, made, isEmpty)

/-- The tag that ends an element of the given name. -/
def closeTag (opening : String) : Reading Unit := do
  advance 2
  let closePosition := (← get).position
  let closing ← name .expectedClosingName
  if closing ≠ opening then throw (.malformed (.mismatchedTags opening closing) closePosition)
  skipSpace
  unless ← eat ">" do fail (.unexpectedToken (.token .tagClose) (← finding))

theorem ite_bind {q : Prop} [Decidable q] (x y : Reading α) (f : α → Reading β) :
    (if q then x else y) >>= f = if q then x >>= f else y >>= f := by
  split <;> rfl

/-- An element is a tag and, unless it ends there, its content and a closing tag. -/
theorem element_succ (builder : Builder ε) (parts levels : Nat) : element builder parts (levels + 1) = (do
    let (opening, made, isEmpty) ← openTag builder parts
    if isEmpty then return (opening, made)
    let made ← content builder (element builder parts levels) opening parts made "" none
    closeTag opening
    return (opening, made)) := by
  conv => lhs; unfold element
  simp only [openTag, closeTag, bind_assoc, pure_bind, ite_bind]

theorem openTag_sound (builder : Builder ε) (here : s.At c)
    (ran : openTag builder parts s = .ok ((opening, made, isEmpty), s')) :
    ∃ tag d, Opening isEmpty c tag d ∧ opening = tag.name ∧
      made = builder.addAttributes builder.element tag.attributes ∧ s'.At d := by
  unfold openTag at ran
  obtain ⟨_, _, ate, ran⟩ := bind_ok.1 ran
  obtain ⟨rfl, ran⟩ := expected_ok ran
  obtain ⟨c₁, opens, here⟩ := eat_true here ate
  obtain ⟨_, _, read, ran⟩ := bind_ok.1 ran
  obtain ⟨c₂, named, here⟩ := name_sound here read
  obtain ⟨⟨_, _⟩, _, read, ran⟩ := bind_ok.1 ran
  obtain ⟨list, c₃, c₄, d, attributes, space, ends, rfl, here⟩ := restOfTag_sound builder here read
  obtain ⟨same, rfl⟩ := pure_ok.1 ran
  cases same
  exact ⟨_, d, .intro opens named attributes space ends, rfl, rfl, here⟩

theorem openTag_complete (builder : Builder ε) (parts : Nat) (here : s.At c) (opening : Opening isEmpty c tag d)
    (enough : c.ahead.length ≤ parts) :
    ∃ s', openTag builder parts s =
      .ok ((tag.name, builder.addAttributes builder.element tag.attributes, isEmpty), s') ∧
      s'.At d := by
  obtain ⟨opens, named, attributes, space, ends⟩ := opening
  have less := (opens.reaches.trans named.spelled.reaches).length
  obtain ⟨ran₁, here⟩ := eat_of here opens
  obtain ⟨s₂, ran₂, here⟩ := name_complete here named
  obtain ⟨s₃, ran₃, here⟩ := restOfTag_complete builder builder.element parts here attributes space ends (by omega)
  refine ⟨s₃, ?_, here⟩
  unfold openTag
  rw [bind_of ran₁]
  dsimp only
  rw [if_pos rfl, bind_of ran₂, bind_of ran₃]
  rfl

/-- Only after it has been seen to begin is a closing tag read. -/
theorem closeTag_sound (here : s.At c) (closes : Spells c "</" c₁) (ran : closeTag opening s = .ok (u, s')) :
    ∃ d, Closing c opening d ∧ s'.At d := by
  unfold closeTag at ran
  obtain ⟨_, _, moved, ran⟩ := bind_ok.1 ran
  cases moved
  have here : (s.advance 2).At c₁ := here.past closes
  obtain ⟨_, _, got, ran⟩ := bind_ok.1 ran
  cases got
  obtain ⟨closing, _, read, ran⟩ := bind_ok.1 ran
  obtain ⟨c₂, named, here⟩ := name_sound here read
  by_cases equal : closing = opening
  · subst equal
    dsimp only at ran
    rw [if_neg (by exact not_not_intro rfl)] at ran
    obtain ⟨_, _, skipped, ran⟩ := bind_ok.1 ran
    obtain ⟨c₃, space, -, here⟩ := skipSpace_ok here skipped
    obtain ⟨ends, _, ate, ran⟩ := bind_ok.1 ran
    cases ends with
    | false =>
      obtain ⟨_, _, -, ran⟩ := bind_ok.1 ran
      exact absurd ran fail_ne
    | true =>
      obtain ⟨d, ends, here⟩ := eat_true here ate
      obtain ⟨-, rfl⟩ := pure_ok.1 ran
      exact ⟨d, .intro closes named space ends, here⟩
  · dsimp only at ran
    rw [if_pos equal] at ran
    obtain ⟨_, _, failed, -⟩ := bind_ok.1 ran
    cases failed

theorem closeTag_complete (here : s.At c) (closing : Closing c opening d) :
    ∃ s', closeTag opening s = .ok ((), s') ∧ s'.At d := by
  obtain ⟨closes, named, space, ends⟩ := closing
  have here : (s.advance 2).At _ := here.past closes
  obtain ⟨s₁, ran₁, here⟩ := name_complete here named
  obtain ⟨s₂, ran₂, here⟩ := skipSpace_of here space (unspaced_of ends.ahead rfl)
  obtain ⟨ran₃, here⟩ := eat_of here ends
  refine ⟨_, ?_, here⟩
  unfold closeTag
  rw [bind_of (advance_ok _ _), bind_of (a := s.advance 2) rfl, bind_of ran₁, if_neg (by exact not_not_intro rfl)]
  dsimp only
  rw [bind_of ran₂, bind_of ran₃]
  rfl

theorem element_sound (builder : Builder ε) (parts levels : Nat) :
    Sound builder (element builder parts levels) (Element levels) := by
  induction levels with
  | zero =>
    intro s c name made s' here ran
    unfold element at ran
    obtain ⟨_, _, got, ran⟩ := bind_ok.1 ran
    cases got
    obtain ⟨_, _, ate, ran⟩ := bind_ok.1 ran
    obtain ⟨-, ran⟩ := expected_ok ran
    cases ran
  | succ levels ih =>
    intro s c name made s' here ran
    rw [element_succ] at ran
    obtain ⟨⟨opening, soFar, isEmpty⟩, _, opened, ran⟩ := bind_ok.1 ran
    obtain ⟨tag, c₁, opening, rfl, rfl, here⟩ := openTag_sound builder here opened
    cases isEmpty with
    | true =>
      obtain ⟨same, rfl⟩ := pure_ok.1 ran
      cases same
      exact ⟨tag, .done, c₁, .empty opening, rfl, (builder.finish_nothing _).symm, here⟩
    | false =>
      dsimp only at ran
      rw [if_neg Bool.false_ne_true] at ran
      obtain ⟨_, _, read, ran⟩ := bind_ok.1 ran
      obtain ⟨inside, c₂, c₃, contents, closes, rfl, here⟩ := content_sound ih here read
      obtain ⟨_, _, closed, ran⟩ := bind_ok.1 ran
      obtain ⟨d, closing, here⟩ := closeTag_sound here closes closed
      obtain ⟨same, rfl⟩ := pure_ok.1 ran
      cases same
      exact ⟨tag, inside, d, .full opening contents closing, rfl, rfl, here⟩

theorem element_complete (builder : Builder ε) (parts levels : Nat) :
    Complete builder parts (element builder parts levels) (Element levels) := by
  induction levels with
  | zero =>
    intro s c tag inside d here bound read
    cases read
  | succ levels ih =>
    intro s c tag inside d here bound read
    rw [element_succ]
    rcases read with opening | ⟨opening, contents, closing⟩
    · obtain ⟨s₁, ran₁, here⟩ := openTag_complete builder parts here opening bound
      refine ⟨s₁, ?_, here⟩
      rw [bind_of ran₁, Builder.made, Builder.complete, builder.finish_nothing]
      rfl
    · have less := opening.reaches.length
      obtain ⟨_, closes⟩ := closing.opens
      obtain ⟨s₁, ran₁, here⟩ := openTag_complete builder parts here opening bound
      obtain ⟨s₂, ran₂, here⟩ := content_complete parts (element_nesting levels) ih here contents.joined
        (Body.joined_joined _) closes (by omega) (by omega)
      obtain ⟨s₃, ran₃, here⟩ := closeTag_complete here closing
      refine ⟨s₃, ?_, here⟩
      rw [bind_of ran₁]
      dsimp only
      rw [if_neg Bool.false_ne_true, bind_of ran₂, bind_of ran₃, Builder.complete_joined]
      rfl

theorem skipMisc_sound (here : s.At c) (ran : skipMisc keepsText fuel s = .ok (u, s')) :
    ∃ d, Misc c d ∧ s'.At d := by
  induction fuel generalizing s c with
  | zero =>
    obtain ⟨d, space, -, here⟩ := skipSpace_ok here ran
    exact ⟨d, .space space .done, here⟩
  | succ fuel ih =>
    unfold skipMisc at ran
    obtain ⟨_, _, skipped, ran⟩ := bind_ok.1 ran
    obtain ⟨c₁, space, -, here⟩ := skipSpace_ok here skipped
    simp only [ite_run, bind_of (startsWith_at here _)] at ran
    split at ran
    · rename_i opens
      obtain ⟨_, _, read, ran⟩ := bind_ok.1 ran
      obtain ⟨_, read⟩ := discard_ok.1 read
      obtain ⟨comment, c₂, enclosed, -, here⟩ := delimited_sound here (.ofPrefix opens) read
      obtain ⟨d, misc, here⟩ := ih here ran
      exact ⟨d, .space space (.comment enclosed misc), here⟩
    · obtain ⟨-, rfl⟩ := pure_ok.1 ran
      exact ⟨c₁, .space space .done, here⟩

theorem skipMisc_complete (keepsText : Bool) (fuel : Nat) (here : s.At c) (misc : Misc c d) (stops : Stops d)
    (enough : c.ahead.length ≤ fuel) :
    ∃ s', skipMisc keepsText fuel s = .ok ((), s') ∧ s'.At d := by
  induction fuel generalizing s c with
  | zero =>
    obtain ⟨m, space, tagged, next⟩ := misc.first stops.tagged
    obtain ⟨s₁, ran, there⟩ := skipSpace_of here space tagged.unspaced
    rcases next with rfl | ⟨body, m', enclosed, -⟩
    · exact ⟨s₁, ran, there⟩
    · have less := space.reaches.length
      have room := enclosed.shorter
      omega
  | succ fuel ih =>
    obtain ⟨m, space, tagged, next⟩ := misc.first stops.tagged
    obtain ⟨s₁, ran₁, there⟩ := skipSpace_of here space tagged.unspaced
    have less := space.reaches.length
    unfold skipMisc
    simp only [bind_of ran₁, ite_run, bind_of (startsWith_at there _)]
    rcases next with rfl | ⟨body, m', enclosed, more⟩
    · rw [if_neg (stops.notSection .comment)]
      exact ⟨s₁, rfl, there⟩
    · have room := enclosed.shorter
      obtain ⟨_, _, opens, -⟩ := enclosed.measured
      obtain ⟨s₂, ran₂, there⟩ := delimited_complete keepsText there enclosed
      obtain ⟨s₃, ran₃, there⟩ := ih there more (by omega)
      refine ⟨s₃, ?_, there⟩
      rw [if_pos opens.isPrefix, bind_of (discard_of ran₂)]
      exact ran₃

theorem remaining_at (here : s.At c) : remaining s = .ok (c.ahead.length, s) := by
  change Except.ok (s.ahead.length + (s.source.elim [] Source.content).length, s) = _
  rw [here.whole.exhausted, here.ahead]
  rfl

theorem remaining_ofBytes (input : List UInt8) : remaining (.ofBytes input) = .ok (input.length, .ofBytes input) :=
  remaining_at (.ofBytes input)

theorem prolog_sound (here : s.At c) {next : Unit → Reading α}
    (ran : (if (bytes Section.declaration.opening).isPrefixOf c.ahead = true then
      discard (delimited keepsText .declaration) >>= next else next ()) s = .ok r) :
    ∃ d s', Prolog c d ∧ s'.At d ∧ next () s' = .ok r := by
  split at ran
  · rename_i opens
    obtain ⟨_, s', read, ran⟩ := bind_ok.1 ran
    obtain ⟨_, read⟩ := discard_ok.1 read
    obtain ⟨body, d, enclosed, -, here⟩ := delimited_sound here (.ofPrefix opens) read
    exact ⟨d, s', .declaration enclosed, here, ran⟩
  · exact ⟨c, s, .none, here, ran⟩

theorem prolog_complete (keepsText : Bool) (here : s.At c)
    (first : (∃ body d, Enclosed .declaration c body d ∧ Misc d root) ∨
      (¬ (bytes Section.declaration.opening).isPrefixOf c.ahead = true ∧ Misc c root)) :
    ∃ d s', Misc d root ∧ s'.At d ∧ d.ahead.length ≤ c.ahead.length ∧ ∀ {α : Type} (next : Unit → Reading α),
      (if (bytes Section.declaration.opening).isPrefixOf c.ahead = true then
        discard (delimited keepsText .declaration) >>= next else next ()) s = next () s' := by
  rcases first with ⟨body, d, enclosed, before⟩ | ⟨other, before⟩
  · obtain ⟨_, _, opens, -⟩ := enclosed.measured
    obtain ⟨s', ran, there⟩ := delimited_complete keepsText here enclosed
    refine ⟨d, s', before, there, enclosed.reaches.length, fun next => ?_⟩
    rw [if_pos opens.isPrefix]
    exact bind_of (discard_of ran) next
  · exact ⟨c, s, before, here, Nat.le_refl _, fun next => by rw [if_neg other]⟩

/-- A document up to the end of its root element. -/
def rooted (builder : Builder ε) (parts : Nat) : Reading (String × ε) := do
  skipSpace
  if ← startsWith Section.declaration.opening then
    discard (delimited builder.keepsText .declaration)
  skipMisc builder.keepsText parts
  element builder parts maxDepth

theorem rooted_bind (builder : Builder ε) (parts : Nat) (next : String × ε → Reading α) :
    rooted builder parts >>= next = (do
      skipSpace
      if ← startsWith Section.declaration.opening then
        discard (delimited builder.keepsText .declaration)
      skipMisc builder.keepsText parts
      element builder parts maxDepth >>= next) := by
  simp only [rooted, bind_assoc, ite_bind]

/-- A document is its root element and what may stand around it. -/
theorem document_rooted (builder : Builder ε) : document builder = (do
    let parts ← remaining
    let (_, made) ← rooted builder parts
    skipMisc builder.keepsText parts
    unless ← isAtEnd do fail .trailingContent
    match (← get).failure with
    | some cause => throw (.readFailed cause)
    | none => return made) :=
  bind_congr fun parts => (rooted_bind builder parts _).symm

theorem rooted_sound (builder : Builder ε) {input : List UInt8}
    (ran : rooted builder parts (.ofBytes input) = .ok ((opening, made), s')) :
    ∃ tag inside d, Rooted input tag inside d ∧ made = builder.made tag inside ∧ s'.At d := by
  have here := Stream.At.ofBytes input
  unfold rooted at ran
  obtain ⟨_, _, skipped, ran⟩ := bind_ok.1 ran
  obtain ⟨c₁, space, -, here⟩ := skipSpace_ok here skipped
  rw [bind_of (startsWith_at here _)] at ran
  obtain ⟨c₂, _, prolog, here, ran⟩ := prolog_sound here ran
  obtain ⟨_, _, skipped, ran⟩ := bind_ok.1 ran
  obtain ⟨c₃, before, here⟩ := skipMisc_sound here skipped
  obtain ⟨tag, inside, d, element, -, rfl, here⟩ := element_sound builder _ _ here ran
  exact ⟨tag, inside, d, .intro space prolog before element, rfl, here⟩

theorem rooted_complete (builder : Builder ε) {input : List UInt8} (derived : Rooted input tag inside d)
    (enough : input.length ≤ parts) :
    ∃ s', rooted builder parts (.ofBytes input) = .ok ((tag.name, builder.made tag inside), s') ∧ s'.At d := by
  obtain ⟨space, prolog, before, element⟩ := derived
  have opens := (element_nesting maxDepth).opens element
  obtain ⟨m, spaces, tagged, first⟩ := prolog.first space before opens.tagged (opens.notSection .declaration)
  obtain ⟨s₁, ran₁, here₁⟩ := skipSpace_of (.ofBytes input) spaces tagged.unspaced
  obtain ⟨c, s₂, before, here, less, skipped⟩ := prolog_complete builder.keepsText here₁ first
  have whole : (Cursor.start input).ahead.length = input.length := rfl
  have less₁ := spaces.reaches.length
  have less₂ := before.reaches.length
  obtain ⟨s₃, ran₃, here⟩ := skipMisc_complete builder.keepsText parts here before (.inr opens) (by omega)
  obtain ⟨s₄, ran₄, here⟩ := element_complete builder parts maxDepth here (by omega) element
  refine ⟨s₄, ?_, here⟩
  unfold rooted
  rw [bind_of ran₁, bind_of (startsWith_at here₁ _)]
  refine (skipped _).trans ?_
  dsimp only
  rw [bind_of ran₃, ran₄]

/-- What is read as a document is derived by the grammar. -/
theorem document_sound (builder : Builder ε) {input : List UInt8}
    (ran : document builder (.ofBytes input) = .ok (made, s')) :
    ∃ tag inside, Document input tag inside ∧ made = builder.made tag inside := by
  rw [document_rooted, bind_of (remaining_ofBytes input)] at ran
  obtain ⟨⟨_, root⟩, _, read, ran⟩ := bind_ok.1 ran
  obtain ⟨tag, inside, c₄, ⟨space, prolog, before, element⟩, rfl, here⟩ := rooted_sound builder read
  obtain ⟨_, _, skipped, ran⟩ := bind_ok.1 ran
  obtain ⟨d, after, here⟩ := skipMisc_sound here skipped
  obtain ⟨_, _, looked, ran⟩ := bind_ok.1 ran
  rw [isAtEnd_at here] at looked
  cases looked
  obtain ⟨ended, ran⟩ := unless_ok ran
  obtain ⟨_, _, got, ran⟩ := bind_ok.1 ran
  cases got
  rw [here.whole.unfailed] at ran
  obtain ⟨rfl, -⟩ := pure_ok.1 ran
  exact ⟨tag, inside, .intro space prolog before element after (List.isEmpty_iff.1 ended), rfl⟩

/-- Every document that the grammar derives is read. -/
theorem document_complete (builder : Builder ε) {input : List UInt8} (document : Document input tag inside) :
    ∃ s', Reading.document builder (.ofBytes input) = .ok (builder.made tag inside, s') := by
  obtain ⟨space, prolog, before, element, after, ended⟩ := document
  obtain ⟨s₁, ran₁, here⟩ := rooted_complete builder (.intro space prolog before element) (Nat.le_refl _)
  have less : _ ≤ input.length := (space.reaches.trans (prolog.reaches.trans
    (before.reaches.trans element.reaches))).length
  obtain ⟨s₂, ran₂, here⟩ := skipMisc_complete builder.keepsText input.length here after (.inl ended) less
  refine ⟨s₂, ?_⟩
  rw [document_rooted, bind_of (remaining_ofBytes input), bind_of ran₁]
  dsimp only
  rw [bind_of ran₂, bind_of (isAtEnd_at here), ended, if_pos (by exact rfl), bind_of (a := s₂) rfl,
    here.whole.unfailed]
  rfl

end Reading
end XmlBinding
