import XmlBinding.Proofs.Cutting
import XmlBinding.Proofs.Lockstep

/-! A section that has been entered is closed. A lexer enters it only where its terminator is still to come, and nothing
that happens in between takes the terminator away: not the end of a reader, and not a body that is no text. So of the
tokens that a parser is given those of a section come to its end, and the parser never misses it. -/
namespace XmlBinding
open Text Grammar

namespace Lexer

/-- The next call gives the token that ends a section. -/
def Ends (sec : Section) (lexer : Lexer) : Prop :=
  ∃ place, lexer.next.1 = .ok ⟨sec.endKind, sec.terminator, place⟩

/-- What the calls of a lexer give up to the end of a section: at most a body, which goes to the first terminator. A
body that is no text is an error, behind which the section ends all the same. -/
inductive Closes (sec : Section) (lexer : Lexer) : Prop where
  | empty (ends : lexer.Ends sec)
  | body (given : lexer.next.1 = .ok ⟨sec.contentKind, body, place⟩)
      (first : ¬ sec.terminator.toList <:+: body.toList) (ends : lexer.next.2.Ends sec)
  | unreadable (given : lexer.next.1 = .error (.malformed .invalidText place)) (ends : lexer.next.2.Ends sec)

/-- The lexers that calls lead to, whatever the calls gave. -/
inductive Reachable : Lexer → Prop where
  | ofBytes (input : List UInt8) : Reachable (.ofBytes input)
  | ofSource (source : Source) : Reachable (.ofSource source)
  | next (reachable : Reachable lexer) : Reachable lexer.next.2

theorem Outcome.stands (outcome : Outcome k c result) : ∃ d, result.2.Stands d := by
  cases outcome <;> exact ⟨_, ‹_›⟩

/-- Every call leaves the lexer at a place of its input. -/
theorem Reachable.stands {lexer : Lexer} (reachable : lexer.Reachable) : ∃ c, lexer.Stands c := by
  induction reachable with
  | ofBytes input => exact ⟨_, (Stream.ofBytes_fresh input).stands_lexer⟩
  | ofSource source => exact ⟨_, (Stream.ofSource_fresh source).stands_lexer⟩
  | next reachable ih =>
    obtain ⟨c, here⟩ := ih
    exact (next_outcome here).stands

variable {s : Stream}

theorem ends_of (here : s.Stands start ready c)
    (closes : Scan.indexOf? (bytes sec.terminator) c.ahead = some 0) : (⟨s, .inside sec⟩ : Lexer).Ends sec := by
  rcases inSection_eq here closes with ⟨-, s', given, -⟩ | ⟨positive, -⟩
  · exact ⟨c.place, congrArg Prod.fst given⟩
  · exact absurd positive (Nat.lt_irrefl 0)

/-- What stands before the first terminator does not contain it. -/
theorem body_first {sec : Section} {body : String} {input : List UInt8}
    (closes : Scan.indexOf? (bytes sec.terminator) input = some n) (spelled : ofBytes? (input.take n) = some body) :
    ¬ sec.terminator.toList <:+: body.toList := by
  obtain ⟨rest, split, length⟩ := Scan.indexOf?_split closes
  rw [← ofBytes?_eq_some_iff.1 spelled] at split length
  rw [split, ← length] at closes
  exact (Scan.indexOf?_body sec body rest).1 closes

/-- A lexer inside a section comes to its end. -/
theorem Stands.section_closes {lexer : Lexer} (here : lexer.Stands c) (context : lexer.context = .inside sec) :
    lexer.Closes sec := by
  obtain ⟨n, closes⟩ := here.closes sec context
  obtain ⟨s, k⟩ := lexer
  obtain rfl : k = .inside sec := context
  obtain ⟨⟨start, here⟩, -, -⟩ := here
  rcases inSection_eq here closes with ⟨rfl, -⟩ | ⟨-, s', ready, given, there, enough⟩
  · exact .empty (ends_of here closes)
  · -- The body is moved over before it is decoded, so the terminator is next also where that fails.
    have given : next ⟨s, .inside sec⟩ = _ := given.trans (take_eq there enough _ _)
    have ends := ends_of (there.advance enough) (indexOf?_past closes)
    cases spelled : ofBytes? (c.ahead.take n) with
    | none =>
      rw [spelled] at given
      exact .unreadable (congrArg Prod.fst given) (given ▸ ends)
    | some body =>
      rw [spelled] at given
      exact .body (congrArg Prod.fst given) (body_first closes spelled) (given ▸ ends)

end Lexer

/-- The tokens behind the start of a section: its body and its end, or nothing before an error. -/
inductive Tokens.Closes (sec : Section) (tokens : Tokens) : Prop where
  | whole (body : String) (place closing : Position) (rest : List Token)
      (split : tokens.tokens = bodyTokens sec body place ++ ⟨sec.endKind, sec.terminator, closing⟩ :: rest)
  | cutOff (none : tokens.tokens = []) (failed : tokens.last = .error error)

/-- Tokens in which every section is closed, up to the end of the input or an error that leaves no section open. -/
structure Tokens.Orderly (tokens : Tokens) : Prop where
  closes : ∀ token rest, token :: rest <:+ tokens.tokens → ∀ sec : Section, token.kind = sec.startKind →
    Closes sec ⟨rest, tokens.last⟩
  ending : ∀ token, tokens.last = .ok token → token.kind = .endOfInput
  closed : ∀ error, tokens.last = .error error → error.leavesOpen = false

namespace Runs

theorem ends (runs : Runs lexer c tokens) (ends : lexer.Ends sec) :
    ∃ place rest, tokens.tokens = ⟨sec.endKind, sec.terminator, place⟩ :: rest := by
  obtain ⟨place, first⟩ := ends
  cases runs with
  | token given =>
    rw [given] at first
    cases first
    exact ⟨place, _, rfl⟩
  | ended given =>
    rw [given] at first
    exact absurd (congrArg Token.kind (Except.ok.inj first)).symm (section_kinds sec).2.2
  | failed given =>
    rw [given] at first
    cases first

theorem closes (runs : Runs lexer c tokens) (closes : lexer.Closes sec) : tokens.Closes sec := by
  cases closes with
  | empty ends =>
    obtain ⟨place, rest, split⟩ := runs.ends ends
    exact .whole "" place place rest split
  | @body body start given first ends =>
    cases runs with
    | token given' cut _ _ more =>
      rw [given'] at given ends
      cases given
      obtain ⟨place, rest, split⟩ := more.ends ends
      refine .whole body start place rest ?_
      rw [bodyTokens, if_neg cut.nonempty]
      exact congrArg (_ :: ·) split
    | ended given' =>
      rw [given'] at given
      exact absurd (congrArg Token.kind (Except.ok.inj given)).symm (section_kinds sec).2.1
    | failed given' => rw [given'] at given; cases given
  | unreadable given =>
    cases runs with
    | failed given' => exact .cutOff rfl rfl
    | token given' => rw [given'] at given; cases given
    | ended given' => rw [given'] at given; cases given

theorem orderly (runs : Runs lexer c tokens) : tokens.Orderly := by
  induction runs with
  | @token lexer token lexer' c d rest last given cut context there more ih =>
    refine ⟨fun token' rest' suffix sec starts => ?_, ih.ending, ih.closed⟩
    rcases List.suffix_cons_iff.1 suffix with same | suffix
    · cases same
      rw [starts, LexerContext.after_startKind] at context
      exact more.closes (there.section_closes context)
    · exact ih.closes token' rest' suffix sec starts
  | ended =>
    refine ⟨fun _ _ suffix => absurd (List.suffix_nil.1 suffix) (List.cons_ne_nil _ _), ?_, nofun⟩
    rintro _ ⟨⟩
    rfl
  | failed _ closed =>
    refine ⟨fun _ _ suffix => absurd (List.suffix_nil.1 suffix) (List.cons_ne_nil _ _), nofun, ?_⟩
    rintro _ ⟨⟩
    exact closed

end Runs

theorem Lexer.Stands.orderly {lexer : Lexer} (here : lexer.Stands c) : lexer.tokens.Orderly :=
  here.runs.orderly

namespace Tokens.Orderly

theorem behind {tokens : Tokens} (orderly : tokens.Orderly) (suffix : list <:+ tokens.tokens) :
    Orderly ⟨list, tokens.last⟩ :=
  ⟨fun token rest further => orderly.closes token rest (further.trans suffix), orderly.ending, orderly.closed⟩

theorem unread {tokens : Tokens} (orderly : tokens.Orderly) (read : tokens.current = .error e) :
    e.leavesOpen = false := by
  unfold Tokens.current at read
  split at read
  · cases read
  · exact orderly.closed e read

/-- Behind the start of a section that can be left stands the rest of the section. -/
theorem entered {tokens : Tokens} (orderly : tokens.Orderly) (read : tokens.current = .ok token)
    (starts : token.kind = sec.startKind) (left : Tokens.current ⟨tokens.tokens.tail, tokens.last⟩ = .ok next) :
    ∃ body place closing rest,
      tokens.tokens.tail = bodyTokens sec body place ++ ⟨sec.endKind, sec.terminator, closing⟩ :: rest := by
  obtain ⟨list, last⟩ := tokens
  cases list with
  | nil => exact absurd (starts.symm.trans (orderly.ending token read)) (section_kinds sec).1
  | cons first rest =>
    cases read
    cases orderly.closes token rest (List.suffix_refl _) sec starts with
    | whole body place closing rest split => exact ⟨body, place, closing, rest, split⟩
    | cutOff none failed =>
      dsimp only [List.tail_cons] at none failed left
      rw [none, failed] at left
      cases left

end Tokens.Orderly

/-- A parser of tokens in order, beside itself. It leaves no section open. -/
def Parse.Lockstep.orderly (σ : Type) : Lockstep σ σ where
  Related p q := p = q ∧ p.tokens.Orderly
  Allowed _ := True
  Shared error := error.leavesOpen = false
  Spoilt _ := False
  same related := by rw [related.1]
  behind := by
    rintro p _ list ⟨rfl, orderly⟩ suffix
    exact ⟨rfl, orderly.behind suffix⟩
  reads := by
    rintro p _ token ⟨rfl, -⟩ read
    exact ⟨read, trivial⟩
  unread := by
    rintro p _ error ⟨rfl, orderly⟩ read
    exact .inr ⟨read, orderly.unread read⟩
  faults closed _ := closed
  entered related read starts left := .inl (related.2.entered read starts left)

theorem Parse.Lockstep.orderly_supplied (supply : Supply σ) : (orderly σ).Supplied supply supply where
  properties := by
    rintro p _ ⟨rfl, orderly⟩
    exact ⟨_, _, _, rfl, rfl, fun _ _ _ _ => trivial, rfl, orderly⟩
  items := by
    rintro p _ ⟨rfl, orderly⟩
    exact ⟨_, _, _, rfl, rfl, fun _ _ _ _ => trivial, rfl, orderly⟩

/-- A section that a lexer enters is closed: what the calls behind its start give is at most a body, up to the first
terminator, and then its end. No call comes to the end of the input in a section, and no parser of the tokens finds a
section left open, wherever the lexer stands. -/
theorem sections_close {lexer : Lexer} (reachable : lexer.Reachable) :
    (∀ error, lexer.next.1 = .error error → error.leavesOpen = false) ∧
    (∀ token sec, lexer.next.1 = .ok token → token.kind = Section.startKind sec →
      token.lexeme = sec.opening ∧ lexer.next.2.Closes sec) ∧
    ∀ {σ : Type} (supply : Supply σ) (spare : σ) (error : Error) (state : Parsing σ),
      Parse.document supply ⟨lexer.tokens, spare⟩ = .error error state → error.leavesOpen = false := by
  obtain ⟨c, here⟩ := reachable.stands
  have outcome := Lexer.next_outcome here
  refine ⟨fun error failed => ?_, fun token sec given starts => ?_, fun supply spare error state failed => ?_⟩
  · generalize lexer.next = result at outcome failed
    cases outcome with
    | failed closed =>
      cases failed
      exact closed
    | _ => cases failed
  · generalize lexer.next = result at outcome given
    cases outcome with
    | token cut context there =>
      cases given
      rw [starts, LexerContext.after_startKind] at context
      exact ⟨(cut.opens sec starts).1, there.section_closes context⟩
    | ended =>
      cases given
      exact absurd starts.symm (section_kinds sec).1
    | failed => cases given
  · have outcome := Parse.Lockstep.Runs.document (Parse.Lockstep.orderly_supplied supply) ⟨lexer.tokens, spare⟩
      ⟨lexer.tokens, spare⟩ ⟨rfl, here.orderly⟩
    rw [failed] at outcome
    cases outcome with
    | refused closed => exact closed
    | spoilt spoilt => exact spoilt.elim

/-- A comment that is no text, from a reader that breaks off behind it: after the error comes the end of the comment. -/
theorem sections_close_unreadable :
    let lexer := (Lexer.ofSource (.inPieces 0 true (bytes "x<!--" ++ 0xFF :: bytes "-->") (.failure "gone"))).next.2
    lexer.next.1 = .ok ⟨.commentStart, "<!--", ⟨1, 1, 2⟩⟩ ∧ lexer.next.2.Closes .comment ∧
      lexer.next.2.next.1.isOk = false ∧ lexer.next.2.next.2.next.1 = .ok ⟨.commentEnd, "-->", ⟨6, 1, 7⟩⟩ := by
  intro lexer
  have given : lexer.next.1 = .ok ⟨.commentStart, "<!--", ⟨1, 1, 2⟩⟩ := by rfl
  have closes := (sections_close (.next (.ofSource _))).2.1 _ .comment given rfl
  exact ⟨given, closes.2, by decide +kernel, by rfl⟩

end XmlBinding
