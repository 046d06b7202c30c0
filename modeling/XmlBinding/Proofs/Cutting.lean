import XmlBinding.Proofs.Standing

/-! The tokens of an input. One after another they cover it from its beginning, each where the one before ends, except
for spaces in tags; every one of them takes at least a byte, so an iteration over the tokens comes to an end, and unless
it fails that is the end of the input. -/
namespace XmlBinding
open Text Grammar

/-- Tokens that cover the input from one place to another, each of them cut off behind the one before. -/
inductive Partition : LexerContext → Cursor → List Token → LexerContext → Cursor → Prop where
  | nil : Partition k c [] k c
  | cons (cut : Cuts k c token d) (more : Partition (k.after token.kind) d rest k' e) :
      Partition k c (token :: rest) k' e

/-- The tokens with the last one, or the error met instead. -/
def Tokens.items (tokens : Tokens) : List (Except Error Token) :=
  tokens.tokens.map .ok ++ [tokens.last]

/-- The iterator over the tokens of a lexer: it stops behind the end of the input and behind the first error. -/
def Lexer.iterate (lexer : Lexer) : Option (Except Error Token) × Lexer :=
  if lexer.context = .done then (none, lexer)
  else
    match lexer.next with
    | (.ok token, lexer) => (some (.ok token), lexer)
    | (.error error, lexer) => (some (.error error), { lexer with context := .done })

/-- What the iterator gives in a number of calls. -/
def Lexer.items : (calls : Nat) → Lexer → List (Option (Except Error Token))
  | 0, _ => []
  | calls + 1, lexer => lexer.iterate.1 :: items calls lexer.iterate.2

/-- The calls of a lexer from a place on, up to the end of the input or the first error, with the tokens they give. -/
inductive Runs : Lexer → Cursor → Tokens → Prop where
  | token (given : lexer.next = (.ok token, lexer')) (cut : Cuts lexer.context c token d)
      (context : lexer'.context = lexer.context.after token.kind) (there : lexer'.Stands d)
      (more : Runs lexer' d ⟨rest, last⟩) :
      Runs lexer c ⟨token :: rest, last⟩
  | ended (given : lexer.next = (.ok ⟨.endOfInput, "", d.place⟩, lexer')) (gap : Gap lexer.context c d)
      (nothing : d.ahead = []) (context : lexer'.context = .done) : Runs lexer c ⟨[], .ok ⟨.endOfInput, "", d.place⟩⟩
  | failed (given : lexer.next = (.error error, lexer')) (closed : error.leavesOpen = false) :
      Runs lexer c ⟨[], .error error⟩

/-- As every token takes at least one byte, the calls come to an end. -/
theorem Lexer.tokensWithin_runs {lexer : Lexer} (here : lexer.Stands c) (enough : c.ahead.length ≤ fuel) :
    Runs lexer c (lexer.tokensWithin fuel) := by
  induction fuel generalizing lexer c with
  | zero =>
    have outcome := next_outcome here
    rw [tokensWithin]
    generalize given : lexer.next = result at outcome
    cases outcome with
    | token cut => exact absurd cut.shorter (by omega)
    | ended gap nothing context => exact .ended given gap nothing context
    | failed closed => exact .failed given closed
  | succ fuel ih =>
    have outcome := next_outcome here
    rw [tokensWithin]
    generalize given : lexer.next = result at outcome
    cases outcome with
    | token cut context there =>
      have less := cut.shorter
      dsimp only
      rw [if_neg cut.goesOn]
      exact .token given cut context there (ih there (by omega))
    | ended gap nothing context => exact .ended given gap nothing context
    | failed closed => exact .failed given closed

/-- Before its first call a lexer stands at the beginning. -/
theorem Stream.Fresh.stands_lexer {s : Stream} (fresh : s.Fresh input cause?) :
    ({ input := s } : Lexer).Stands (.start input) :=
  Lexer.stands_open fresh.stands rfl

theorem Lexer.Stands.runs {lexer : Lexer} (here : lexer.Stands c) : Runs lexer c lexer.tokens := by
  refine tokensWithin_runs here (Nat.le_of_eq ?_)
  obtain ⟨start, input⟩ := here.input
  rw [remaining_eq, input.rest]

theorem LexerContext.after_ne_done {k : LexerContext} {kind : TokenKind} (going : k ≠ done)
    (goesOn : kind ≠ .endOfInput) : k.after kind ≠ done := by
  cases kind with
  | text => cases k <;> first | exact going | exact LexerContext.noConfusion
  | endOfInput => exact absurd rfl goesOn
  | _ => exact LexerContext.noConfusion

namespace Runs

/-- The tokens cover the input, up to its end unless there is an error. -/
theorem partition (runs : Runs lexer c tokens) : ∃ k e, Partition lexer.context c tokens.tokens k e ∧
    ((∃ error, tokens.last = .error error) ∨
      ∃ d, Gap k e d ∧ d.ahead = [] ∧ tokens.last = .ok ⟨.endOfInput, "", d.place⟩) := by
  induction runs with
  | token given cut context _ _ ih =>
    obtain ⟨k, e, covered, last⟩ := ih
    exact ⟨k, e, .cons cut (context ▸ covered), last⟩
  | ended given gap nothing => exact ⟨_, _, .nil, .inr ⟨_, gap, nothing, rfl⟩⟩
  | failed => exact ⟨_, _, .nil, .inl ⟨_, rfl⟩⟩

end Runs

theorem Lexer.items_done {lexer : Lexer} (done : lexer.context = .done) (calls : Nat) :
    lexer.items calls = List.replicate calls none := by
  have stopped : lexer.iterate = (none, lexer) := if_pos done
  induction calls with
  | zero => rfl
  | succ calls ih => rw [items, stopped, ih]; rfl

theorem Tokens.items_nil (last : Except Error Token) : items ⟨[], last⟩ = [last] := rfl

theorem Tokens.items_cons (token : Token) (rest : List Token) (last : Except Error Token) :
    items ⟨token :: rest, last⟩ = .ok token :: items ⟨rest, last⟩ := rfl

/-- The iterator gives the tokens and the last result, and nothing after these. -/
theorem Runs.items (runs : Runs lexer c tokens) (going : lexer.context ≠ .done) (more : Nat) :
    lexer.items (tokens.items.length + more) = tokens.items.map some ++ List.replicate more none := by
  induction runs with
  | token given cut context _ _ ih =>
    have further := ih (context ▸ LexerContext.after_ne_done going cut.goesOn)
    rw [Tokens.items_cons, List.length_cons, Nat.add_right_comm, Lexer.items, Lexer.iterate, if_neg going, given]
    exact congrArg (_ :: ·) further
  | ended given gap nothing context =>
    rw [Tokens.items_nil, List.length_singleton, Nat.add_comm, Lexer.items, Lexer.iterate, if_neg going, given]
    exact congrArg (_ :: ·) (Lexer.items_done context more)
  | failed given =>
    rw [Tokens.items_nil, List.length_singleton, Nat.add_comm, Lexer.items, Lexer.iterate, if_neg going, given]
    exact congrArg (_ :: ·) (Lexer.items_done rfl more)

/-- What is ahead at a place that the input reaches is the input without the bytes before it. -/
theorem Grammar.Reaches.split {input : List UInt8} (reaches : Reaches (.start input) c) :
    c.ahead = input.drop c.place.offset ∧ c.place.offset + c.ahead.length = input.length := by
  obtain ⟨text, spelled⟩ := reaches
  have offset : c.place.offset = (bytes text).length := by
    rw [spelled.place, Position.advance_offset]
    exact Nat.zero_add _
  have whole : input = bytes text ++ c.ahead := spelled.ahead
  rw [offset, whole, List.drop_left, List.length_append]
  exact ⟨rfl, rfl⟩

theorem Gap.reaches {k : LexerContext} (gap : Gap k c m) : Reaches c m := by
  cases k with
  | tag => exact Space.reaches gap
  | _ =>
    obtain rfl : m = c := gap
    exact .refl m

theorem Cuts.reaches (cut : Cuts k c token d) : Reaches c d := by
  obtain ⟨m, gap, -, spelled⟩ := cut.covers
  exact gap.reaches.trans spelled.reaches

/-- A token stands where it says, behind everything before it. -/
theorem Cuts.stretch {input : List UInt8} (reached : Reaches (.start input) c) (cut : Cuts k c token d) :
    c.place.offset ≤ token.position.offset ∧
      d.place.offset = token.position.offset + (bytes token.lexeme).length ∧
      (input.drop token.position.offset).take (bytes token.lexeme).length = bytes token.lexeme := by
  obtain ⟨m, gap, place, spelled⟩ := cut.covers
  have behind := (reached.trans gap.reaches).split
  have before := reached.split
  have less := gap.length
  rw [place]
  refine ⟨by omega, ?_, ?_⟩
  · rw [spelled.place, Position.advance_offset]
  · rw [← behind.1, spelled.ahead, List.take_left]

namespace Partition

theorem length (covered : Partition k c list k' e) : list.length + e.ahead.length ≤ c.ahead.length := by
  induction covered with
  | nil => exact Nat.le_of_eq (Nat.zero_add _)
  | cons cut more ih =>
    have less := cut.shorter
    rw [List.length_cons]
    omega

theorem reaches (covered : Partition k c list k' e) : Reaches c e := by
  induction covered with
  | nil => exact .refl _
  | cons cut more ih => exact cut.reaches.trans ih

/-- The lexeme of every token is the input at its position. -/
theorem lexemes {input : List UInt8} (reached : Reaches (.start input) c) (covered : Partition k c list k' e) :
    ∀ token ∈ list, token.lexeme ≠ "" ∧ c.place.offset ≤ token.position.offset ∧
      (input.drop token.position.offset).take (bytes token.lexeme).length = bytes token.lexeme := by
  induction covered with
  | nil => exact List.forall_mem_nil _
  | cons cut more ih =>
    obtain ⟨before, after, same⟩ := cut.stretch reached
    refine List.forall_mem_cons.2 ⟨⟨cut.nonempty, before, same⟩, fun token member => ?_⟩
    obtain ⟨some, further, same⟩ := ih (reached.trans cut.reaches) token member
    exact ⟨some, by omega, same⟩

/-- The tokens are in order and do not overlap. -/
theorem ordered {input : List UInt8} (reached : Reaches (.start input) c) (covered : Partition k c list k' e) :
    list.Pairwise fun first second =>
      first.position.offset + (bytes first.lexeme).length ≤ second.position.offset := by
  induction covered with
  | nil => exact .nil
  | cons cut more ih =>
    obtain ⟨-, after, -⟩ := cut.stretch reached
    have there := reached.trans cut.reaches
    refine .cons (fun token member => ?_) (ih there)
    rw [← after]
    exact (more.lexemes there token member).2.1

end Partition

/-- The tokens of a lexer partition an input. -/
structure Lexer.Partitions (lexer : Lexer) (input : List UInt8) : Prop where
  /-- From the beginning each token is cut off behind the one before, with nothing between them but spaces in a tag. -/
  covers : ∃ k e, Partition .content (.start input) lexer.tokens.tokens k e ∧
    ((∃ error, lexer.tokens.last = .error error) ∨
      ∃ d, Gap k e d ∧ d.ahead = [] ∧ d.place.offset = input.length ∧
        lexer.tokens.last = .ok ⟨.endOfInput, "", d.place⟩)
  lexemes : ∀ token ∈ lexer.tokens.tokens, token.lexeme ≠ "" ∧
    (input.drop token.position.offset).take (bytes token.lexeme).length = bytes token.lexeme
  ordered : lexer.tokens.tokens.Pairwise fun first second =>
    first.position.offset + (bytes first.lexeme).length ≤ second.position.offset
  few : lexer.tokens.items.length ≤ input.length + 1
  /-- The iterator gives these tokens and then nothing any more. -/
  items : ∀ more, lexer.items (lexer.tokens.items.length + more) =
    lexer.tokens.items.map some ++ List.replicate more none

theorem Stream.Fresh.partitions {s : Stream} (fresh : s.Fresh input cause?) :
    ({ input := s } : Lexer).Partitions input := by
  have runs := fresh.stands_lexer.runs
  obtain ⟨k, e, covered, last⟩ := runs.partition
  have reached := Reaches.refl (.start input)
  constructor
  case covers =>
    refine ⟨k, e, covered, last.imp id ?_⟩
    rintro ⟨d, gap, nothing, last⟩
    have total := ((reached.trans covered.reaches).trans gap.reaches).split.2
    rw [nothing] at total
    exact ⟨d, gap, nothing, total, last⟩
  case lexemes =>
    intro token member
    obtain ⟨some, -, same⟩ := covered.lexemes reached token member
    exact ⟨some, same⟩
  case ordered => exact covered.ordered reached
  case few =>
    have room : _ ≤ input.length := covered.length
    rw [Tokens.items, List.length_append, List.length_map, List.length_singleton]
    omega
  case items => exact runs.items LexerContext.noConfusion

/-- The tokens of some bytes partition them, and those of a source partition what it delivers, up to the first error. -/
theorem tokens_partition_input :
    (∀ input, (Lexer.ofBytes input).Partitions input) ∧
      ∀ source : Source, (Lexer.ofSource source).Partitions source.content :=
  ⟨fun input => (Stream.ofBytes_fresh input).partitions, fun source => (Stream.ofSource_fresh source).partitions⟩

end XmlBinding
