import XmlBinding.Proofs.Buffering
import XmlBinding.Proofs.Failing

/-! The places that are reported. A stream moves its position along with the cursor over spans of any length, and
nothing else that happens to it touches either. So whatever the lexer and the two readers report as a place, in
tokens, in trees and in errors, is the place of some offset of the input: its row and column are those of the bytes
before the offset, whether or not these are text. -/
namespace XmlBinding
open Text

namespace Position

/-- The place of an offset of an input. The row counts the line feeds before the offset, and the column the bytes behind
the last of them that do not continue a character. -/
structure IsOf (input : List UInt8) (place : Position) : Prop where
  inside : place.offset ≤ input.length
  row : place.row = 1 + (input.take place.offset).count 0x0A
  column : ∃ lines line, input.take place.offset = lines ++ line ∧ (lines = [] ∨ lines.getLast? = some 0x0A) ∧
    0x0A ∉ line ∧ place.column = 1 + line.countP fun b => b &&& 0xC0 != 0x80

/-- The last line begins at the beginning or behind a line feed, and holds none. -/
theorem lastLine_split (bytes : List UInt8) : ∃ lines, bytes = lines ++ lastLine bytes ∧
    (lines = [] ∨ lines.getLast? = some 0x0A) ∧ 0x0A ∉ lastLine bytes := by
  refine ⟨(bytes.reverse.dropWhile (· != 0x0A)).reverse, ?_, ?_, ?_⟩
  · rw [lastLine, ← List.reverse_append, List.takeWhile_append_dropWhile, List.reverse_reverse]
  · rw [List.reverse_eq_nil_iff, List.getLast?_reverse]
    cases found : bytes.reverse.dropWhile (· != 0x0A) with
    | nil => exact .inl rfl
    | cons b rest =>
      have stopped := List.head?_dropWhile_not (· != 0x0A) bytes.reverse
      rw [found] at stopped
      simp only [List.head?_cons, bne_eq_false_iff_eq] at stopped
      exact .inr (congrArg some stopped)
  · intro member
    rw [lastLine, List.mem_reverse] at member
    have other := List.all_eq_true.1 (List.all_takeWhile ..) 0x0A member
    exact absurd other (by decide)

theorem start_advance (bytes : List UInt8) :
    start.advance bytes = ⟨bytes.length, 1 + bytes.count 0x0A, 1 + columns (lastLine bytes)⟩ := by
  unfold advance
  by_cases line : 0x0A ∈ bytes
  · simp [line, start]
  · simp [line, start, lastLine_of_not_mem, List.count_eq_zero_of_not_mem]

/-- Where some bytes of an input have been passed, the position is the place of their number. -/
theorem advance_isOf (before after : List UInt8) : (start.advance before).IsOf (before ++ after) := by
  obtain ⟨lines, split, begins, none⟩ := lastLine_split before
  rw [start_advance]
  refine ⟨List.length_append ▸ Nat.le_add_right _ _, ?_, lines, lastLine before, ?_, begins, none, rfl⟩
  · rw [List.take_left]
  · rw [List.take_left]
    exact split

end Position

namespace Stream.Represents
variable {s : Stream} {input : List UInt8} (represents : s.Represents input)
include represents

/-- The position of a stream is that of an offset, as it is the place behind all that has been passed. -/
theorem isOf : s.position.IsOf input := by
  rw [represents.place]
  have reached := Position.advance_isOf (input.take s.offset) (input.drop s.offset)
  rwa [List.take_append_drop] at reached

theorem forget : ({ s with failure := none } : Stream).Represents input :=
  represents.same rfl rfl rfl rfl

theorem isAtEnd : s.isAtEnd.2.Represents input := represents.ask _

theorem startsWith (literal : List UInt8) : (s.startsWith literal).2.Represents input := represents.ask _

theorem eat (literal : List UInt8) : (s.eat literal).2.Represents input := by
  have further := represents.startsWith literal
  unfold Stream.eat
  generalize s.startsWith literal = result at further ⊢
  obtain ⟨found, s'⟩ := result
  cases found with
  | true => exact further.advance _
  | false => exact further

theorem skipSpace : s.skipSpace.Represents input := (represents.ask _).advance _

end Stream.Represents

/-- A result is good, or an error whose place, if it names one, satisfies a condition. -/
def Placed (allowed : Position → Prop) (good : α → Prop) : Except Error α → Prop
  | .ok a => good a
  | .error error => ∀ place, error.position? = some place → allowed place

namespace Placed
variable {allowed : Position → Prop} {good : α → Prop}

theorem malformed (place : allowed position) : Placed allowed good (.error (.malformed fault position)) := by
  rintro _ ⟨⟩
  exact place

theorem readFailed : Placed allowed good (.error (.readFailed cause)) := nofun

theorem map {result : Except Error α} (placed : Placed allowed good result) {f : α → β} {good' : β → Prop}
    (keeps : ∀ a, good a → good' (f a)) : Placed allowed good' (result.map f) := by
  cases result with
  | ok a => exact keeps a placed
  | error error => exact placed

end Placed

/-- Bytes that are no text are reported at the cursor. -/
theorem Stream.Represents.textFrom_placed {s : Stream} (here : s.Represents input) (start : Nat) :
    Placed (·.IsOf input) (fun _ => True) (s.textFrom start) := by
  unfold Stream.textFrom
  split
  · trivial
  · exact .malformed here.isOf

namespace Lexer

/-- What a call gives names a place of the input, and the input is kept. -/
def Located (input : List UInt8) (given : Except Error Token × Lexer) : Prop :=
  Placed (·.IsOf input) (fun token => token.position.IsOf input) given.1 ∧ given.2.input.Represents input

variable {s : Stream} {input : List UInt8} {context : LexerContext} (here : s.Represents input)
include here

theorem take_located (kind : TokenKind) (length : Nat) : Located input (take ⟨s, context⟩ kind length) :=
  ⟨((here.advance length).textFrom_placed _).map fun _ _ => here.isOf, here.advance length⟩

theorem finish_located : Located input (finish ⟨s, context⟩) := by
  cases failed : s.failure with
  | some cause =>
    rw [finish_failed failed]
    exact ⟨.readFailed, here.forget⟩
  | none =>
    rw [finish_ended failed]
    exact ⟨here.isOf, here⟩

theorem openSection_located (sec : Section) : Located input (openSection ⟨s, context⟩ sec) := by
  have further := (here.advance (bytes sec.opening).length).ask (.find (bytes sec.terminator))
  unfold openSection
  dsimp only
  generalize (s.advance _).run _ = result at further ⊢
  obtain ⟨found, s'⟩ := result
  cases found with
  | some length => exact ⟨here.isOf, further⟩
  | none =>
    simp only [Stream.takeFailure]
    cases s'.failure with
    | some cause => exact ⟨.readFailed, further.forget⟩
    | none => exact ⟨.malformed here.isOf, further.forget⟩

theorem inSection_located (sec : Section) : Located input (inSection ⟨s, context⟩ sec) := by
  have further := here.setMark.eat (bytes sec.terminator)
  unfold inSection
  dsimp only
  generalize s.setMark.eat _ = result at further ⊢
  obtain ⟨found, s'⟩ := result
  cases found with
  | true => exact ⟨here.isOf, further⟩
  | false =>
    have after := further.ask (.find (bytes sec.terminator))
    dsimp only at after ⊢
    generalize s'.run _ = result at after ⊢
    obtain ⟨found, s''⟩ := result
    cases found with
    | some length => exact take_located after sec.contentKind length
    | none => exact ⟨.malformed here.isOf, after⟩

theorem findSection_represents (sections : List Section) : (findSection s sections).2.Represents input := by
  induction sections generalizing s with
  | nil => exact here
  | cons sec rest ih =>
    have further := here.startsWith (bytes sec.opening)
    unfold findSection
    generalize s.startsWith _ = result at further ⊢
    obtain ⟨found, s'⟩ := result
    cases found with
    | true => exact further
    | false => exact ih further

theorem inContent_located : Located input (inContent ⟨s, context⟩) := by
  have further := here.setMark.isAtEnd
  unfold inContent
  dsimp only
  generalize s.setMark.isAtEnd = result at further ⊢
  obtain ⟨atEnd, s₁⟩ := result
  cases atEnd with
  | true => exact finish_located further
  | false =>
    have further := findSection_represents further Section.all
    dsimp only at further ⊢
    generalize findSection s₁ _ = result at further ⊢
    obtain ⟨found, s₂⟩ := result
    cases found with
    | some sec => exact openSection_located further sec
    | none =>
      have further := further.eat (bytes "</")
      dsimp only at further ⊢
      generalize s₂.eat _ = result at further ⊢
      obtain ⟨found, s₃⟩ := result
      cases found with
      | true => exact ⟨here.isOf, further⟩
      | false =>
        have further := further.eat (bytes "<")
        dsimp only at further ⊢
        generalize s₃.eat _ = result at further ⊢
        obtain ⟨found, s₄⟩ := result
        cases found with
        | true => exact ⟨here.isOf, further⟩
        | false => exact take_located (further.setMark.ask .textLength) .text _

theorem eatFixed_represents (entries : List (String × TokenKind × LexerContext)) :
    (eatFixed s entries).2.Represents input := by
  induction entries generalizing s with
  | nil => exact here
  | cons entry rest ih =>
    have further := here.eat (bytes entry.1)
    unfold eatFixed
    generalize s.eat _ = result at further ⊢
    obtain ⟨found, s'⟩ := result
    cases found with
    | true => exact further
    | false => exact ih further

theorem inTag_located : Located input (inTag ⟨s, context⟩) := by
  have further : s.setMark.peek.2.Represents input := here.setMark.ask _
  unfold inTag
  dsimp only
  generalize s.setMark.peek = result at further ⊢
  obtain ⟨first, s₁⟩ := result
  cases first with
  | none => exact finish_located further
  | some b =>
    have further := eatFixed_represents further tagTokens
    dsimp only at further ⊢
    generalize eatFixed s₁ _ = result at further ⊢
    obtain ⟨found, s₂⟩ := result
    cases found with
    | some entry => exact ⟨here.isOf, further⟩
    | none =>
      -- A string and a name are measured and taken in the same way.
      have measured (length : Nat) (kind : TokenKind) {s₃ : Stream} (further : s₃.Represents input) :
          Located input (if 0 < length then take ⟨s₃, context⟩ kind length
            else take ⟨(s₃.run .charLength).2, context⟩ .text (s₃.run .charLength).1) := by
        split
        · exact take_located further kind length
        · exact take_located (further.ask .charLength) .text _
      dsimp only
      by_cases quoted : isQuote b = true
      · rw [if_pos quoted]
        exact measured _ .string (further.ask .quotedLength)
      · rw [if_neg quoted]
        exact measured _ .name (further.ask .nameLength)

theorem next_located (context : LexerContext) : Located input (next ⟨s, context⟩) := by
  cases context with
  | content => exact inContent_located here
  | tagStart =>
    have further := here.setMark.ask .nameLength
    change Located input (if 0 < (s.setMark.run .nameLength).1 then _ else _)
    split
    · exact take_located further .name _
    · exact inTag_located further
  | tag => exact inTag_located here.skipSpace
  | inside sec => exact inSection_located here sec
  | done => exact finish_located here

/-- However often a lexer is called, and whatever the calls before gave. -/
theorem results_located (calls : Nat) (result : Except Error Token)
    (member : result ∈ (Lexer.mk s context).results calls) :
    Placed (·.IsOf input) (fun token => token.position.IsOf input) result := by
  induction calls generalizing s context with
  | zero => cases member
  | succ calls ih =>
    obtain ⟨first, further⟩ := next_located here context
    rcases List.mem_cons.1 member with rfl | later
    · exact first
    · exact ih further later

end Lexer

namespace Reading

/-- A step of the direct reader that keeps the input together and fails at a place of it. -/
def Keeps (input : List UInt8) (x : Reading α) : Prop :=
  ∀ s, s.Represents input → Placed (·.IsOf input) (fun result : α × Stream => result.2.Represents input) (x s)

namespace Keeps
variable {input : List UInt8}

theorem pure (a : α) : Keeps input (pure a) :=
  fun _ here => here

theorem bind {x : Reading α} {f : α → Reading β} (first : Keeps input x) (rest : ∀ a, Keeps input (f a)) :
    Keeps input (x >>= f) := by
  intro s here
  have placed := first s here
  change Placed _ _ ((x s).bind fun result => f result.1 result.2)
  generalize x s = result at placed ⊢
  cases result with
  | ok result => exact rest result.1 result.2 placed
  | error error => exact placed

theorem discard {x : Reading α} (keeps : Keeps input x) : Keeps input (discard x) :=
  fun s here => (keeps s here).map fun _ there => there

theorem ite {q : Prop} [Decidable q] {x y : Reading α} (yes : Keeps input x) (no : Keeps input y) :
    Keeps input (if q then x else y) := by
  split
  · exact yes
  · exact no

/-- What goes on from a stream may use its position. -/
theorem look {f : Stream → Reading α} (rest : ∀ s, s.Represents input → Keeps input (f s)) : Keeps input (get >>= f) :=
  fun s here => rest s here s here

theorem modifyGet {f : Stream → α × Stream} (keeps : ∀ s, s.Represents input → (f s).2.Represents input) :
    Keeps input (modifyGet f) :=
  keeps

theorem ask (scan : Scan α) : Keeps input (Reading.ask scan) := modifyGet fun _ here => here.ask scan

theorem mark : Keeps input Reading.mark := modifyGet fun _ here => here.setMark

theorem advance (length : Nat) : Keeps input (Reading.advance length) :=
  modifyGet fun _ here => here.advance length

theorem skipSpace : Keeps input Reading.skipSpace := modifyGet fun _ here => here.skipSpace

theorem isAtEnd : Keeps input Reading.isAtEnd := modifyGet fun _ here => here.isAtEnd

theorem startsWith (literal : String) : Keeps input (Reading.startsWith literal) :=
  modifyGet fun _ here => here.startsWith _

theorem eat (literal : String) : Keeps input (Reading.eat literal) :=
  modifyGet fun _ here => here.eat _

theorem failAt (fault : Fault) (place : position.IsOf input) : Keeps input (failAt fault position : Reading α) := by
  intro s _
  rw [failAt_eq]
  cases s.failure with
  | none => exact .malformed place
  | some cause => exact .readFailed

theorem fail (fault : Fault) : Keeps input (fail fault : Reading α) :=
  look fun _ here => failAt fault here.isOf

theorem thrown (fault : Fault) (place : position.IsOf input) :
    Keeps input (throw (.malformed fault position) : Reading α) :=
  fun _ _ => .malformed place

theorem textFrom (start : Nat) : Keeps input (Reading.textFrom start) :=
  fun _ here => (here.textFrom_placed start).map fun _ _ => here

theorem lexeme (keepsText : Bool) (start : Nat) : Keeps input (Reading.lexeme keepsText start) := by
  rw [lexeme_eq]
  exact bind (textFrom start) fun _ => pure _

/-- What must hold for a step to go on. -/
theorem required {q : Prop} [Decidable q] {stop : Reading Unit} {next : Unit → Reading α} (stops : Keeps input stop)
    (rest : Keeps input (next ())) : Keeps input (if q then next () else stop >>= next) :=
  ite rest (bind stops fun _ => rest)

/-- What is done before a step goes on where a condition holds. -/
theorem firstIf {q : Prop} [Decidable q] {stop : Reading Unit} {next : Unit → Reading α} (stops : Keeps input stop)
    (rest : Keeps input (next ())) : Keeps input (if q then stop >>= next else next ()) :=
  ite (bind stops fun _ => rest) rest

/-- What must be ahead for a step to go on. -/
theorem expected {q : Prop} [Decidable q] (fault : Finding → Fault) {next : Unit → Reading α}
    (rest : Keeps input (next ())) :
    Keeps input (if q then next () else finding >>= fun found => Reading.fail (fault found) >>= next) := by
  have looks : Keeps input finding := by
    refine bind (modifyGet fun _ here => here.ask _) fun b => ?_
    cases b <;> exact pure _
  exact ite rest (bind looks fun _ => bind (fail _) fun _ => rest)

theorem delimited (keepsText : Bool) (sec : Section) : Keeps input (Reading.delimited keepsText sec) := by
  refine look fun s here => bind (advance _) fun _ => bind mark fun bodyStart => bind (ask _) fun found => ?_
  cases found with
  | none => exact failAt _ here.isOf
  | some length => exact bind (advance _) fun _ => bind (lexeme _ _) fun _ => bind (advance _) fun _ => pure _

theorem skipMisc (keepsText : Bool) (fuel : Nat) : Keeps input (Reading.skipMisc keepsText fuel) := by
  induction fuel with
  | zero => exact skipSpace
  | succ fuel ih =>
    refine bind skipSpace fun _ => bind (startsWith _) fun _ => ite ?_ (pure _)
    exact bind (delimited _ _).discard fun _ => ih

theorem name (missing : Fault) : Keeps input (Reading.name missing) := by
  refine bind mark fun start => bind (ask _) fun length => firstIf (fail _) ?_
  exact bind (advance _) fun _ => textFrom start

theorem readAttribute (builder : Builder ε) (element : ε) : Keeps input (Reading.readAttribute builder element) := by
  refine bind (name _) fun name => bind skipSpace fun _ => bind (eat _) fun _ => required (fail _) ?_
  refine bind skipSpace fun _ => bind mark fun start => bind (modifyGet fun _ here => here.ask _) fun b => ?_
  refine required (fail _) (bind (ask _) fun found => ?_)
  cases found with
  | none => exact fail _
  | some length =>
    refine bind (advance _) fun _ => bind (lexeme _ _) fun text? => ?_
    cases text? <;> exact pure _

theorem restOfTag (builder : Builder ε) (fuel : Nat) (element : ε) :
    Keeps input (Reading.restOfTag builder fuel element) := by
  induction fuel generalizing element with
  | zero => exact fail _
  | succ fuel ih =>
    refine bind skipSpace fun _ => bind (eat _) fun _ => ite (pure _) (bind (eat _) fun _ => ite (pure _) ?_)
    exact bind isAtEnd fun _ => firstIf (fail _) (bind (readAttribute builder element) ih)

theorem content (builder : Builder ε) {child : Reading (String × ε)} (reads : Keeps input child) (name : String)
    (fuel : Nat) (element : ε) (text : String) (cdata? : Option String) :
    Keeps input (Reading.content builder child name fuel element text cdata?) := by
  induction fuel generalizing element text cdata? with
  | zero => exact fail _
  | succ fuel ih =>
    refine bind isAtEnd fun _ => firstIf (fail _) (bind (startsWith _) fun _ => ite (pure _) ?_)
    refine bind (startsWith _) fun _ => ite (bind (delimited _ _).discard fun _ => ih _ _ _) ?_
    refine bind (startsWith _) fun _ => ite (bind (delimited _ _) fun body => ih _ _ _) ?_
    refine bind (startsWith _) fun _ => ite (fail _) ?_
    refine bind (startsWith _) fun _ => ite (bind reads fun made => ih _ _ _) ?_
    refine bind mark fun start => bind (ask _) fun length => bind (advance _) fun _ => ?_
    exact bind (lexeme _ _) fun run => ih _ _ _

theorem element (builder : Builder ε) (parts levels : Nat) : Keeps input (Reading.element builder parts levels) := by
  induction levels with
  | zero =>
    exact look fun s here => bind (eat _) fun _ => expected _ (thrown _ here.isOf)
  | succ levels ih =>
    refine bind (eat _) fun _ => expected _ (bind (name _) fun opening => ?_)
    refine bind (restOfTag _ _ _) fun tag => ite (pure _) (bind (content builder ih _ _ _ _ _) fun made => ?_)
    refine bind (advance 2) fun _ => look fun s here => bind (name _) fun closing => ?_
    exact firstIf (thrown _ here.isOf) (bind skipSpace fun _ => bind (eat _) fun _ => expected _ (pure _))

theorem document (builder : Builder ε) : Keeps input (Reading.document builder) := by
  refine bind (look fun s _ => pure _) fun parts => bind skipSpace fun _ => bind (startsWith _) fun _ => ?_
  refine firstIf (delimited _ _).discard (bind (skipMisc _ _) fun _ => bind (element _ _ _) fun made => ?_)
  refine bind (skipMisc _ _) fun _ => bind isAtEnd fun _ => required (fail _) (look fun s _ => ?_)
  -- The source may have failed behind the document.
  cases s.failure with
  | none => exact pure made
  | some cause => exact fun _ _ => .readFailed

end Keeps
end Reading
/-- All places that tokens name are allowed, and that of an error behind them. -/
structure Tokens.Stay (allowed : Position → Prop) (tokens : Tokens) : Prop where
  each : ∀ token ∈ tokens.tokens, allowed token.position
  last : Placed allowed (fun token => allowed token.position) tokens.last

theorem Tokens.Stay.current {tokens : Tokens} (stay : tokens.Stay allowed) :
    Placed allowed (fun token => allowed token.position) tokens.current := by
  unfold Tokens.current
  split
  · rename_i split
    exact stay.each _ (split ▸ List.mem_cons_self)
  · exact stay.last

/-- A parser of tokens at allowed places, beside itself. -/
def Parse.Lockstep.placed (allowed : Position → Prop) : Lockstep Unit Unit where
  Related p q := p = q ∧ p.tokens.Stay allowed
  Allowed := allowed
  Shared error := ∀ place, error.position? = some place → allowed place
  Spoilt _ := False
  same related := by rw [related.1]
  behind := by
    rintro p _ list ⟨rfl, stay⟩ suffix
    exact ⟨rfl, fun token member => stay.each token (suffix.subset member), stay.last⟩
  reads := by
    rintro p _ token ⟨rfl, stay⟩ read
    have placed := stay.current
    rw [read] at placed
    exact ⟨read, placed⟩
  unread := by
    rintro p _ error ⟨rfl, stay⟩ read
    have placed := stay.current
    rw [read] at placed
    exact .inr ⟨read, placed⟩
  faults _ there := by
    rintro _ ⟨⟩
    exact there
  entered _ _ _ _ := by
    refine .inr fun fault place there => ?_
    rintro _ ⟨⟩
    exact there

theorem Parse.Lockstep.placed_supplied (allowed : Position → Prop) : (placed allowed).Supplied .fresh .fresh where
  properties related := ⟨_, _, _, rfl, rfl, List.forall_mem_nil _, related⟩
  items related := ⟨_, _, _, rfl, rfl, List.forall_mem_nil _, related⟩

/-- The tokens that a parser is given are among those that the calls of the lexer give. -/
theorem Lexer.tokensWithin_stay {input : List UInt8} {s : Stream} {context : LexerContext}
    (here : s.Represents input) (fuel : Nat) : (Lexer.tokensWithin fuel ⟨s, context⟩).Stay (·.IsOf input) := by
  induction fuel generalizing s context with
  | zero => exact ⟨List.forall_mem_nil _, (next_located here context).1⟩
  | succ fuel ih =>
    obtain ⟨located, further⟩ := next_located here context
    rw [tokensWithin]
    generalize next ⟨s, context⟩ = given at located further ⊢
    obtain ⟨result, lexer⟩ := given
    cases result with
    | error error => exact ⟨List.forall_mem_nil _, located⟩
    | ok token =>
      dsimp only
      split
      · exact ⟨List.forall_mem_nil _, located⟩
      · have later := @ih lexer.input lexer.context further
        exact ⟨List.forall_mem_cons.2 ⟨located, later.each⟩, later.last⟩

/-- A parser reports no places but those of its tokens. -/
theorem Node.ofTokens_placed {tokens : Tokens} (stay : tokens.Stay allowed) :
    Placed allowed (Node.Stays allowed) (Node.ofTokens tokens) := by
  have outcome := Parse.Lockstep.Runs.document (Parse.Lockstep.placed_supplied allowed) ⟨tokens, ()⟩ ⟨tokens, ()⟩
    ⟨rfl, stay⟩
  unfold Node.ofTokens
  generalize Parse.document .fresh ⟨tokens, ()⟩ = result at outcome ⊢
  cases outcome with
  | together stays => exact stays
  | refused shared => exact shared
  | spoilt spoilt => exact spoilt.elim

/-- Whatever is reported of a stream as a place is the place of an offset of an input. -/
structure Stream.Locates (s : Stream) (input : List UInt8) : Prop where
  tokens : ∀ calls, ∀ result ∈ (Lexer.mk s .content).results calls,
    Placed (·.IsOf input) (fun token => token.position.IsOf input) result
  tree : Placed (·.IsOf input) (fun root => ∀ place ∈ root.positions, place.IsOf input)
    (Node.ofTokens (Lexer.mk s .content).tokens)
  validate : Placed (·.IsOf input) (fun _ => True) (validate s)
  value : Placed (·.IsOf input) (fun _ => True) (Value.ofStream s)

theorem Stream.Represents.locates {s : Stream} (here : s.Represents input) : s.Locates input where
  tokens := Lexer.results_located here
  tree := Node.ofTokens_placed (Lexer.tokensWithin_stay here _)
  validate := (Reading.Keeps.document .nothing s here).map fun _ _ => trivial
  value := (Reading.Keeps.document .entries s here).map fun _ _ => trivial

/-- Every place in a token, a tree or an error is that of its offset: of some bytes, whether or not they are text, and
of what a source delivers, whether or not it fails in the end. -/
theorem places_of_offsets :
    (∀ input, (Stream.ofBytes input).Locates input) ∧ ∀ source, (Stream.ofSource source).Locates source.content :=
  ⟨fun input => (Stream.ofBytes_fresh input).represents.locates,
    fun source => (Stream.ofSource_fresh source).represents.locates⟩

end XmlBinding
