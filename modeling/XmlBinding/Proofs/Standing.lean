import XmlBinding.Proofs.Lexing
import XmlBinding.Proofs.Pieces

/-! One call of a lexer, wherever it stands and however its input arrives. The call cuts a token off the input, or it
finds the input ended, or it fails; in each case the lexer stands at a place of the input again. Inside a section it
stands in front of the terminator that was found when the section was entered, so that neither a failure nor the end
of a reader can keep the section open. -/
namespace XmlBinding
open Text Grammar

namespace Stream

/-- A stream at a place of its input, whether or not the input has been read. The bytes since an offset are held, and
so many bytes ahead have been read. -/
structure Stands (start ready : Nat) (s : Stream) (c : Cursor) : Prop where
  place : s.position = c.place
  rest : s.rest = c.ahead
  holds : s.Holds start ready

theorem Fresh.stands {s : Stream} (fresh : s.Fresh input cause?) : s.Stands 0 0 (.start input) :=
  ⟨fresh.position, fresh.rest, fresh.holds⟩

namespace Stands
variable {s : Stream} {c : Cursor}

theorem fewer (here : s.Stands start ready c) (fewer : less ≤ ready) : s.Stands start less c :=
  ⟨here.place, here.rest, here.holds.weaken fewer⟩

theorem setMark (here : s.Stands start ready c) : s.setMark.Stands c.place.offset ready c := by
  have holds := setMark_holds here.holds
  rw [offset, here.place] at holds
  exact ⟨here.place, here.rest, holds⟩

theorem forget (here : s.Stands start ready c) : ({ s with failure := none } : Stream).Stands start ready c :=
  ⟨here.place, here.rest, { here.holds with }⟩

theorem advance (here : s.Stands start ready c) (enough : n ≤ ready) :
    (s.advance n).Stands start (ready - n) (c.past n) := by
  obtain ⟨holds, place, rest, -⟩ := advance_holds here.holds enough
  rw [here.rest] at place rest
  rw [here.place] at place
  exact ⟨place, rest, holds⟩

/-- The bytes moved over are read back from the mark. -/
theorem bytesFrom (here : s.Stands c.place.offset ready c) (enough : n ≤ ready) :
    (s.advance n).bytesFrom c.place.offset = c.ahead.take n := by
  obtain ⟨-, -, -, moved⟩ := advance_holds here.holds enough
  rw [moved, Stream.bytesFrom, offset, here.place, Nat.sub_self, here.rest]
  rfl

theorem ready_le (here : s.Stands start ready c) : ready ≤ c.ahead.length := by
  have room := here.holds.ready
  rw [← here.rest, Stream.rest, List.length_append]
  omega

/-- A scan is answered for all that is still to come. -/
theorem run (here : s.Stands start ready c) {scan : Scan α} (regular : scan.Regular reach) :
    ∃ s', s.run scan = (scan.whole c.ahead, s') ∧ s'.Stands start (max ready (reach (scan.whole c.ahead))) c := by
  have answers := run_answers regular here.holds
  have result := answers.result.trans (congrArg scan.whole here.rest)
  have holds := answers.holds
  rw [result] at holds
  exact ⟨_, Prod.ext result rfl, answers.same.position.trans here.place, answers.same.rest.trans here.rest, holds⟩

theorem isAtEnd (here : s.Stands start ready c) :
    ∃ s', s.isAtEnd = (c.ahead.isEmpty, s') ∧ s'.Stands start 0 c := by
  obtain ⟨s', ran, there⟩ := here.run (Scan.available_regular 1)
  refine ⟨s', ?_, there.fewer (Nat.zero_le _)⟩
  rw [Stream.isAtEnd, ran]
  cases c.ahead <;> simp [Scan.available, hasAtLeast]

theorem peek (here : s.Stands start ready c) : ∃ s', s.peek = (c.ahead.head?, s') ∧ s'.Stands start 0 c := by
  obtain ⟨s', ran, there⟩ := here.run (Scan.byteAt_regular 0)
  refine ⟨s', ?_, there.fewer (Nat.zero_le _)⟩
  rw [Stream.peek, ran, List.head?_eq_getElem?]
  rfl

theorem startsWith (here : s.Stands start ready c) (literal : List UInt8) :
    ∃ s', s.startsWith literal = (literal.isPrefixOf c.ahead, s') ∧
      s'.Stands start (if literal.isPrefixOf c.ahead then literal.length else 0) c := by
  obtain ⟨s', ran, there⟩ := here.run (Scan.startsWith_regular literal)
  exact ⟨s', ran, there.fewer (Nat.le_max_right _ _)⟩

/-- A literal is moved over exactly if it is ahead. -/
theorem eat (here : s.Stands start ready c) (literal : List UInt8) :
    (literal.isPrefixOf c.ahead = true ∧ ∃ s', s.eat literal = (true, s') ∧ s'.Stands start 0 (c.past literal.length)) ∨
      (literal.isPrefixOf c.ahead = false ∧ ∃ s', s.eat literal = (false, s') ∧ s'.Stands start 0 c) := by
  obtain ⟨s', ran, there⟩ := here.startsWith literal
  rw [Stream.eat, ran]
  cases ahead : literal.isPrefixOf c.ahead with
  | true =>
    rw [ahead, if_pos rfl] at there
    exact .inl ⟨rfl, _, rfl, (there.advance (Nat.le_refl _)).fewer (Nat.zero_le _)⟩
  | false => exact .inr ⟨rfl, _, rfl, there.fewer (Nat.zero_le _)⟩

theorem skipSpace (here : s.Stands start ready c) :
    s.skipSpace.Stands start 0 (c.past (Scan.spaces.whole c.ahead)) := by
  obtain ⟨s', ran, there⟩ := here.run Scan.spaces_regular
  rw [Stream.skipSpace, ran]
  exact (there.advance (Nat.le_max_right _ _)).fewer (Nat.zero_le _)

end Stands
end Stream

/-- Whether an error is that of a section which was entered and does not end: the input ends in it, or something else
stands where its end must. -/
def Error.leavesOpen : Error → Bool
  | .malformed .unexpectedEnd _ | .malformed (.unexpectedToken (.token .cdataEnd) _) _ => true
  | _ => false

/-- Whether a context is neither a section nor behind the end of the input. -/
def LexerContext.isOpen : LexerContext → Bool
  | content | tagStart | tag => true
  | inside _ | done => false

/-- The context behind a token. -/
def LexerContext.after : LexerContext → TokenKind → LexerContext
  | _, .tagOpen | _, .endTagOpen => tagStart
  | _, .tagClose | _, .selfClose | _, .instructionEnd | _, .commentEnd | _, .cdataEnd => content
  | _, .name | _, .equals | _, .string => tag
  | _, .commentStart | _, .commentContent => inside .comment
  | _, .cdataStart | _, .cdataContent => inside .cdata
  | _, .declarationStart => inside .declaration
  | _, .instructionStart => inside .instruction
  | _, .endOfInput => done
  | tagStart, .text => tag
  | context, .text => context

/-- Whether tokens of a kind may stand outside sections without opening one. -/
def TokenKind.isPlain : TokenKind → Bool
  | tagOpen | tagClose | selfClose | endTagOpen | equals | name | string | text | instructionEnd => true
  | _ => false

/-- What may stand before a token: nothing, but in a tag any number of spaces. -/
def Gap : LexerContext → Cursor → Cursor → Prop
  | .tag, c, m => Space c m
  | _, c, m => m = c

/-- A token that is cut off the input. It covers the stretch that its lexeme spells, at least one byte. Where it opens a
section the terminator of the section is still to come, and inside a section it is the terminator or all that stands
before it. -/
structure Cuts (k : LexerContext) (c : Cursor) (token : Token) (d : Cursor) : Prop where
  covers : ∃ m, Gap k c m ∧ token.position = m.place ∧ Spells m token.lexeme d
  nonempty : token.lexeme ≠ ""
  goesOn : token.kind ≠ .endOfInput
  opens : ∀ sec : Section, token.kind = sec.startKind →
    token.lexeme = sec.opening ∧ ∃ n, Scan.indexOf? (bytes sec.terminator) d.ahead = some n
  inside : ∀ sec, k = .inside sec → (token.kind = sec.endKind ∧ token.lexeme = sec.terminator) ∨
    (token.kind = sec.contentKind ∧
      Scan.indexOf? (bytes sec.terminator) c.ahead = some (bytes token.lexeme).length)

theorem TokenKind.ne_of_isPlain {kind : TokenKind} (plain : kind.isPlain = true) :
    kind ≠ .endOfInput ∧ ∀ sec : Section, kind ≠ sec.startKind := by
  refine ⟨?_, fun sec => ?_⟩
  · rintro rfl
    cases plain
  · rintro rfl
    cases sec <;> cases plain

theorem LexerContext.after_startKind (k : LexerContext) (sec : Section) : k.after sec.startKind = inside sec := by
  cases sec <;> rfl

theorem LexerContext.after_endKind (k : LexerContext) (sec : Section) : k.after sec.endKind = content := by
  cases sec <;> rfl

theorem LexerContext.after_contentKind (sec : Section) : (inside sec).after sec.contentKind = inside sec := by
  cases sec <;> rfl

theorem LexerContext.outside {k : LexerContext} (going : k.isOpen = true) (sec : Section) : k ≠ inside sec := by
  rintro rfl
  cases going

/-- Outside sections every stretch is a token that may stand there. -/
theorem Cuts.plain {k : LexerContext} (going : k.isOpen = true) {kind : TokenKind} (plain : kind.isPlain = true)
    (gap : Gap k c m) (spelled : Spells m text d) (some : text ≠ "") : Cuts k c ⟨kind, text, m.place⟩ d where
  covers := ⟨m, gap, rfl, spelled⟩
  nonempty := some
  goesOn := (TokenKind.ne_of_isPlain plain).1
  opens sec same := absurd same ((TokenKind.ne_of_isPlain plain).2 sec)
  inside sec same := absurd same (LexerContext.outside going sec)

/-- Every token uses up input. -/
theorem Gap.length {k : LexerContext} (gap : Gap k c m) : m.ahead.length ≤ c.ahead.length := by
  cases k with
  | tag => exact (Space.reaches gap).length
  | _ => exact Nat.le_of_eq (congrArg (·.ahead.length) gap)

theorem Cuts.shorter (cut : Cuts k c token d) : d.ahead.length < c.ahead.length := by
  obtain ⟨m, gap, -, spelled⟩ := cut.covers
  exact Nat.lt_of_lt_of_le (spelled.shorter cut.nonempty) gap.length

namespace Lexer

/-- A lexer at a place of its input. Inside a section the terminator is still to come, and nothing is where the input
has ended. -/
structure Stands (lexer : Lexer) (c : Cursor) : Prop where
  input : ∃ start, lexer.input.Stands start 0 c
  closes : ∀ sec, lexer.context = .inside sec → ∃ n, Scan.indexOf? (bytes sec.terminator) c.ahead = some n
  ended : lexer.context = .done → c.ahead = []

/-- What a call comes to in a context and at a place. -/
inductive Outcome (k : LexerContext) (c : Cursor) : Except Error Token × Lexer → Prop where
  | token (cut : Cuts k c token d) (context : lexer.context = k.after token.kind) (there : lexer.Stands d) :
      Outcome k c (.ok token, lexer)
  | ended (gap : Gap k c d) (nothing : d.ahead = []) (context : lexer.context = .done) (there : lexer.Stands d) :
      Outcome k c (.ok ⟨.endOfInput, "", d.place⟩, lexer)
  | failed (closed : error.leavesOpen = false) (there : lexer.Stands d) :
      Outcome k c (.error error, lexer)

variable {s : Stream}

theorem stands_open {k : LexerContext} (here : s.Stands start ready c) (going : k.isOpen = true) :
    (⟨s, k⟩ : Lexer).Stands c := by
  refine ⟨⟨start, here.fewer (Nat.zero_le _)⟩, fun sec same => absurd same (LexerContext.outside going sec), ?_⟩
  rintro rfl
  cases going

theorem stands_inside {sec : Section} (here : s.Stands start ready c)
    (closes : Scan.indexOf? (bytes sec.terminator) c.ahead = some n) : (⟨s, .inside sec⟩ : Lexer).Stands c := by
  refine ⟨⟨start, here.fewer (Nat.zero_le _)⟩, ?_, LexerContext.noConfusion⟩
  rintro _ ⟨⟩
  exact ⟨n, closes⟩

theorem take_eq (here : s.Stands c.place.offset ready c) (enough : n ≤ ready) (kind : TokenKind) (k : LexerContext) :
    take ⟨s, k⟩ kind n = ((match ofBytes? (c.ahead.take n) with
      | some text => .ok ⟨kind, text, c.place⟩
      | none => .error (.malformed .invalidText (c.past n).place)), ⟨s.advance n, k⟩) := by
  have text := here.bytesFrom enough
  rw [take, Stream.textFrom, here.place, text, (here.advance enough).place]
  cases ofBytes? (c.ahead.take n) <;> rfl

theorem nonempty_of_length {text : String} (length : (bytes text).length = n) (positive : 0 < n) : text ≠ "" := by
  rintro rfl
  exact absurd length (Nat.ne_of_lt positive)

/-- The bytes of a token spell its lexeme, unless they spell nothing. -/
theorem take_outcome {k k' : LexerContext} (here : s.Stands m.place.offset ready m) (enough : n ≤ ready)
    (cut : ∀ text, Spells m text (m.past n) → (bytes text).length = n → Cuts k c ⟨kind, text, m.place⟩ (m.past n))
    (context : k' = k.after kind) (there : (⟨s.advance n, k'⟩ : Lexer).Stands (m.past n)) :
    Outcome k c (take ⟨s, k'⟩ kind n) := by
  rw [take_eq here enough]
  cases valid : ofBytes? (m.ahead.take n) with
  | none => exact .failed rfl there
  | some text =>
    have length : (bytes text).length = n := by
      rw [ofBytes?_eq_some_iff.1 valid, List.length_take_of_le (Nat.le_trans enough here.ready_le)]
    exact .token (cut text (.taken valid) length) context there

theorem finish_outcome {k k' : LexerContext} (here : s.Stands start ready d) (gap : Gap k c d) (nothing : d.ahead = [])
    (outside : ∀ sec, k' ≠ .inside sec) : Outcome k c (finish ⟨s, k'⟩) := by
  have still {k' : LexerContext} (outside : ∀ sec, k' ≠ .inside sec) :
      (⟨{ s with failure := none }, k'⟩ : Lexer).Stands d :=
    ⟨⟨start, here.forget.fewer (Nat.zero_le _)⟩, fun sec same => absurd same (outside sec), fun _ => nothing⟩
  cases failed : s.failure with
  | some cause =>
    -- A failure leaves the context as it was: the next call finds the input ended.
    rw [finish_failed failed]
    exact .failed rfl (still outside)
  | none =>
    have same : ({ s with failure := none } : Stream) = s := by rw [← failed]
    rw [finish_ended failed, here.place]
    exact .ended gap nothing rfl (same ▸ still fun sec => LexerContext.noConfusion)

theorem openSection_outcome (here : s.Stands start ready c) (opens : Spells c sec.opening d)
    (enough : (bytes sec.opening).length ≤ ready) : Outcome .content c (openSection ⟨s, .content⟩ sec) := by
  have moved := here.advance enough
  rw [← opens.past] at moved
  obtain ⟨s', ran, there⟩ := moved.run (Scan.find_regular (bytes sec.terminator))
  have there := there.fewer (Nat.zero_le _)
  unfold openSection
  dsimp only
  rw [ran, here.place]
  cases found : (Scan.find (bytes sec.terminator)).whole d.ahead with
  | some n =>
    refine .token ⟨⟨c, rfl, rfl, opens⟩, (section_delimiters sec).1, (section_kinds sec).1, fun sec' same => ?_, ?_⟩
      (LexerContext.after_startKind _ sec).symm (stands_inside there found)
    · obtain rfl : sec = sec' := by cases sec <;> cases sec' <;> cases same <;> rfl
      exact ⟨rfl, n, found⟩
    · exact fun sec same => by cases same
  | none =>
    have still := stands_open there.forget (k := .content) rfl
    simp only [Stream.takeFailure]
    cases s'.failure with
    | some cause => exact .failed rfl still
    | none => exact .failed (by cases sec <;> rfl) still

/-- What the call of a lexer inside a section comes to, in front of the terminator and before. -/
theorem inSection_eq (here : s.Stands start ready c)
    (closes : Scan.indexOf? (bytes sec.terminator) c.ahead = some n) :
    (n = 0 ∧ ∃ s', inSection ⟨s, .inside sec⟩ sec = (.ok ⟨sec.endKind, sec.terminator, c.place⟩, ⟨s', .content⟩) ∧
      s'.Stands c.place.offset 0 (c.past (bytes sec.terminator).length)) ∨
    (0 < n ∧ ∃ s' ready, inSection ⟨s, .inside sec⟩ sec = take ⟨s', .inside sec⟩ sec.contentKind n ∧
      s'.Stands c.place.offset ready c ∧ n ≤ ready) := by
  obtain ⟨bound, begins, none⟩ := Scan.indexOf?_eq_some_iff.1 closes
  unfold inSection
  dsimp only
  rw [here.place]
  rcases here.setMark.eat (bytes sec.terminator) with ⟨ahead, s', ran, there⟩ | ⟨other, s', ran, there⟩
  · rw [ran]
    exact .inl ⟨Nat.eq_zero_of_not_pos fun positive => none 0 positive (List.isPrefixOf_iff_prefix.1 ahead),
      s', rfl, there⟩
  · rw [ran]
    obtain ⟨s'', ran, there⟩ := there.run (Scan.find_regular (bytes sec.terminator))
    have found : (Scan.find (bytes sec.terminator)).whole c.ahead = some n := closes
    rw [found] at ran there
    dsimp only
    rw [ran]
    refine .inr ⟨Nat.pos_of_ne_zero ?_, s'', _, rfl, there, ?_⟩
    · rintro rfl
      exact Bool.false_ne_true (other.symm.trans (List.isPrefixOf_iff_prefix.2 begins))
    · exact Nat.le_trans (Nat.le_add_right _ _) (Nat.le_max_right _ _)

/-- Before the terminator stands the terminator. -/
theorem indexOf?_past {sec : Section} {c : Cursor} (closes : Scan.indexOf? (bytes sec.terminator) c.ahead = some n) :
    Scan.indexOf? (bytes sec.terminator) (c.past n).ahead = some 0 := by
  obtain ⟨-, begins, -⟩ := Scan.indexOf?_eq_some_iff.1 closes
  exact Scan.indexOf?_eq_some_iff.2 ⟨Nat.zero_le _, begins, fun j less => absurd less (Nat.not_lt_zero j)⟩

theorem inSection_outcome (here : s.Stands start ready c)
    (closes : ∃ n, Scan.indexOf? (bytes sec.terminator) c.ahead = some n) :
    Outcome (.inside sec) c (inSection ⟨s, .inside sec⟩ sec) := by
  obtain ⟨n, closes⟩ := closes
  rcases inSection_eq here closes with ⟨rfl, s', given, there⟩ | ⟨positive, s', ready, given, there, enough⟩
  · rw [given]
    refine .token ⟨⟨c, rfl, rfl, (Spells.refl c).followed closes⟩, (section_delimiters sec).2, (section_kinds sec).2.2,
      fun sec' same => ?_, ?_⟩ (LexerContext.after_endKind _ sec).symm (stands_open there rfl)
    · cases sec <;> cases sec' <;> cases same
    · rintro _ ⟨⟩
      exact .inl ⟨rfl, rfl⟩
  · rw [given]
    refine take_outcome there enough (fun text spelled length => ?_) (LexerContext.after_contentKind sec).symm
      (stands_inside (there.advance enough) (indexOf?_past closes))
    refine ⟨⟨c, rfl, rfl, spelled⟩, nonempty_of_length length positive, (section_kinds sec).2.1,
      fun sec' same => ?_, ?_⟩
    · cases sec <;> cases sec' <;> cases same
    · rintro _ ⟨⟩
      exact .inr ⟨rfl, length ▸ closes⟩

/-- The first section whose opening is ahead is found, with its opening read. -/
theorem findSection_stands (here : s.Stands start ready c) (list : List Section) :
    ∃ found s', findSection s list = (found, s') ∧
      match found with
      | some sec => (bytes sec.opening).isPrefixOf c.ahead = true ∧ s'.Stands start (bytes sec.opening).length c
      | none => s'.Stands start 0 c := by
  induction list generalizing s ready with
  | nil => exact ⟨none, s, rfl, here.fewer (Nat.zero_le _)⟩
  | cons sec rest ih =>
    obtain ⟨s', ran, there⟩ := here.startsWith (bytes sec.opening)
    rw [findSection, ran]
    cases ahead : (bytes sec.opening).isPrefixOf c.ahead with
    | true =>
      rw [ahead, if_pos rfl] at there
      exact ⟨some sec, s', rfl, ahead, there⟩
    | false => exact ih there

theorem inContent_outcome (here : s.Stands start ready c) : Outcome .content c (inContent ⟨s, .content⟩) := by
  obtain ⟨s₁, ran, there⟩ := here.setMark.isAtEnd
  unfold inContent
  dsimp only
  rw [ran, here.place]
  cases ended : c.ahead.isEmpty with
  | true => exact finish_outcome there rfl (List.isEmpty_iff.1 ended) fun sec => LexerContext.noConfusion
  | false =>
    obtain ⟨found, s₂, ran, there⟩ := findSection_stands there Section.all
    dsimp only
    rw [ran]
    cases found with
    | some sec => exact openSection_outcome there.2 (.ofPrefix there.1) (Nat.le_refl _)
    | none =>
      dsimp only
      rcases there.eat (bytes "</") with ⟨ahead, s₃, ran, there⟩ | ⟨-, s₃, ran, there⟩
      · rw [ran]
        exact .token (.plain rfl rfl rfl (.ofPrefix ahead) (by decide)) rfl (stands_open there rfl)
      rw [ran]
      dsimp only
      rcases there.eat (bytes "<") with ⟨ahead, s₄, ran, there⟩ | ⟨other, s₄, ran, there⟩
      · rw [ran]
        exact .token (.plain rfl rfl rfl (.ofPrefix ahead) (by decide)) rfl (stands_open there rfl)
      rw [ran]
      obtain ⟨s₅, ran, there⟩ := there.setMark.run Scan.textLength_regular
      dsimp only
      rw [ran]
      dsimp only
      have enough := Nat.le_max_right 0 (id (Scan.textLength.whole c.ahead))
      refine take_outcome there enough (fun text spelled _ => ?_) rfl (stands_open (there.advance enough) rfl)
      exact .plain rfl rfl rfl spelled (text_nonempty spelled (Scan.textLength_split c.ahead).2 ended other)

theorem eatFixed_stands (here : s.Stands start ready c) (list : List (String × TokenKind × LexerContext)) :
    ∃ found s', eatFixed s list = (found, s') ∧
      match found with
      | some entry => entry ∈ list ∧ Spells c entry.1 (c.past (bytes entry.1).length) ∧
          s'.Stands start 0 (c.past (bytes entry.1).length)
      | none => s'.Stands start 0 c := by
  induction list generalizing s ready with
  | nil => exact ⟨none, s, rfl, here.fewer (Nat.zero_le _)⟩
  | cons entry rest ih =>
    rw [eatFixed]
    rcases here.eat (bytes entry.1) with ⟨ahead, s', ran, there⟩ | ⟨other, s', ran, there⟩
    · rw [ran]
      exact ⟨some entry, s', rfl, List.mem_cons_self, .ofPrefix ahead, there⟩
    · rw [ran]
      obtain ⟨found, s'', ran, there⟩ := ih there
      refine ⟨found, s'', ran, ?_⟩
      cases found with
      | some entry => exact ⟨List.mem_cons_of_mem _ there.1, there.2⟩
      | none => exact there

/-- A token in a tag, of which the lexer has measured the length. -/
theorem measured_outcome (here : s.Stands m.place.offset ready m) (enough : n ≤ ready) (positive : 0 < n)
    {k : LexerContext} (going : k.isOpen = true) {kind : TokenKind} (plain : kind.isPlain = true)
    (context : .tag = k.after kind) (gap : Gap k c m) : Outcome k c (take ⟨s, .tag⟩ kind n) := by
  exact take_outcome here enough
    (fun text spelled length => .plain going plain gap spelled (nonempty_of_length length positive)) context
    (stands_open (here.advance enough) rfl)

/-- A quoted string or a name is measured, with all of it read. -/
theorem measure_stands (here : s.Stands start ready m) (b : UInt8) :
    ∃ length kind s',
      (if isQuote b then ((s.run .quotedLength).1.getD 0, TokenKind.string, (s.run .quotedLength).2)
        else ((s.run .nameLength).1, TokenKind.name, (s.run .nameLength).2)) = (length, kind, s') ∧
      s'.Stands start length m ∧ (kind = .string ∨ kind = .name) := by
  cases isQuote b with
  | true =>
    obtain ⟨s', ran, there⟩ := here.run Scan.quotedLength_regular
    rw [ran]
    exact ⟨_, _, s', rfl, there.fewer (Nat.le_max_right _ _), .inl rfl⟩
  | false =>
    obtain ⟨s', ran, there⟩ := here.run Scan.nameLength_regular
    rw [ran]
    exact ⟨_, _, s', rfl, there.fewer (Nat.le_max_right _ _), .inr rfl⟩

theorem charLength_pos (b : UInt8) (rest : List UInt8) : 0 < Scan.charLength.whole (b :: rest) := by
  simp only [Scan.charLength]
  split
  · exact Nat.lt_of_lt_of_le Nat.zero_lt_one (Nat.le_max_right _ _)
  · exact Nat.zero_lt_one

theorem inTag_outcome (here : s.Stands start ready m) {k : LexerContext} (inTag : k = .tag ∨ k = .tagStart)
    (gap : Gap k c m) : Outcome k c (Lexer.inTag ⟨s, .tag⟩) := by
  have going : k.isOpen = true := by rcases inTag with rfl | rfl <;> rfl
  obtain ⟨s₁, ran, there⟩ := here.setMark.peek
  unfold Lexer.inTag
  dsimp only
  rw [ran, here.place]
  cases begins : m.ahead with
  | nil => exact finish_outcome there gap begins fun sec => LexerContext.noConfusion
  | cons b rest =>
    obtain ⟨found, s₂, ran, there⟩ := eatFixed_stands there tagTokens
    dsimp only [List.head?_cons]
    rw [ran]
    cases found with
    | some entry =>
      obtain ⟨member, spelled, there⟩ := there
      have fixed : ∀ entry ∈ tagTokens, entry.1 ≠ "" ∧ entry.2.1.isPlain = true ∧ entry.2.2.isOpen = true ∧
          entry.2.2 = k.after entry.2.1 := by
        rcases inTag with rfl | rfl <;> decide
      obtain ⟨some, plain, open_, context⟩ := fixed entry member
      exact .token (.plain going plain gap spelled some) context (stands_open there open_)
    | none =>
      dsimp only at there ⊢
      obtain ⟨length, kind, s₃, ran, there, kinds⟩ := measure_stands there b
      rw [ran]
      dsimp only
      split
      · rename_i positive
        rcases kinds with rfl | rfl <;>
          exact measured_outcome there (Nat.le_refl _) positive going rfl (by rcases inTag with rfl | rfl <;> rfl) gap
      · obtain ⟨s₄, ran, there⟩ := there.run Scan.charLength_regular
        rw [ran]
        have positive := charLength_pos b rest
        rw [← begins] at positive
        exact measured_outcome there (Nat.le_max_right _ _) positive going rfl
          (by rcases inTag with rfl | rfl <;> rfl) gap

/-- Every call of a lexer at a place of its input comes to a token of the input, to its end, or to a failure. -/
theorem next_outcome {lexer : Lexer} (here : lexer.Stands c) : Outcome lexer.context c lexer.next := by
  obtain ⟨s, k⟩ := lexer
  obtain ⟨⟨start, here⟩, closes, ended⟩ := here
  unfold next
  cases k with
  | content => exact inContent_outcome here
  | inside sec => exact inSection_outcome here (closes sec rfl)
  | done => exact finish_outcome here rfl (ended rfl) fun sec => LexerContext.noConfusion
  | tag => exact inTag_outcome here.skipSpace (.inl rfl) (space_past c).1
  | tagStart =>
    obtain ⟨s', ran, there⟩ := here.setMark.run Scan.nameLength_regular
    dsimp only
    rw [ran]
    dsimp only
    split
    · rename_i positive
      exact measured_outcome there (Nat.le_max_right _ _) positive rfl rfl rfl rfl
    · exact inTag_outcome there (.inr rfl) rfl

end Lexer
end XmlBinding
