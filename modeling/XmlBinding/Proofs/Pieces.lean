import XmlBinding.Proofs.Pairing

/-! Reading in pieces. Two streams with the same bytes and the same ending to come are read alike, whatever the
reads that bring the bytes: both readers and the lexer give the same results, places and errors included. -/
namespace XmlBinding
open Text

namespace Stream

/-- The same bytes are still to come of two streams. The second fails as the first does, or is spared all failures. -/
structure SameToCome (spared : Bool) (s t : Stream) : Prop where
  rest : s.rest = t.rest
  pending : t.pending? = if spared then none else s.pending?
  failure : t.failure = if spared then none else s.failure

theorem SameToCome.run {s t : Stream} (same : s.SameToCome spared t) (abreast : s.Abreast start ready room t)
    {scan : Scan α} (regular : scan.Regular reach) :
    (s.run scan).1 = (t.run scan).1 ∧ (s.run scan).2.SameToCome spared (t.run scan).2 := by
  have first := run_answers regular abreast.first
  have second := run_answers regular abreast.second
  refine ⟨by rw [first.result, second.result, same.rest], by rw [first.same.rest, second.same.rest, same.rest],
    ?_, ?_⟩
  · cases early : scan.early s.rest with
    | some result =>
      rw [(first.early (by rw [early]; rfl)).2, (second.early (by rw [← same.rest, early]; rfl)).2, same.pending]
    | none =>
      simp [pending?, (first.ended early).2, (second.ended (same.rest ▸ early)).2]
  · cases early : scan.early s.rest with
    | some result =>
      rw [(first.early (by rw [early]; rfl)).1, (second.early (by rw [← same.rest, early]; rfl)).1, same.failure]
    | none =>
      rw [(first.ended early).1, (second.ended (same.rest ▸ early)).1, same.pending, same.failure]
      cases spared <;> rfl

theorem SameToCome.failed {s t : Stream} (same : s.SameToCome spared t) (failed : s.failure = some cause) :
    t.failure = some cause ∨ spared = true ∧ t.failure = none := by
  have second := same.failure
  cases spared with
  | true => exact .inr ⟨rfl, second⟩
  | false => exact .inl (second.trans failed)

theorem SameToCome.unfailed {s t : Stream} (same : s.SameToCome spared t) (unfailed : s.failure = none) :
    t.failure = none := by
  rw [same.failure, unfailed, ite_self]

theorem SameToCome.advance {s t : Stream} (same : s.SameToCome spared t) (abreast : s.Abreast start ready room t)
    (enough : n ≤ ready) : (s.advance n).SameToCome spared (t.advance n) := by
  obtain ⟨-, -, first, -⟩ := advance_holds abreast.first enough
  obtain ⟨-, -, second, -⟩ := advance_holds abreast.second enough
  exact ⟨by rw [first, second, same.rest], same.pending, same.failure⟩

end Stream

/-- Streams of which the same is to come stay together. -/
def Pairing.same : Pairing where
  Related := Stream.SameToCome false
  Lost _ := False
  Spoilt _ := False
  run regular _ _ _ _ _ abreast related := .inl (related.run abreast regular)
  advance abreast enough related := related.advance abreast enough
  setMark related := ⟨related.rest, related.pending, related.failure⟩
  failure related := related.failure.symm
  run_lost _ _ lost := lost.elim
  advance_lost _ lost := lost.elim
  setMark_lost lost := lost.elim
  failure_lost lost := lost.elim
  text_lost lost := lost.elim
  tags_lost lost := lost.elim
  depth_lost lost := lost.elim

namespace Stream

/-- A stream that nothing has been read from, with what it will bring and how it will end. -/
structure Fresh (input : List UInt8) (cause? : Option String) (s : Stream) : Prop where
  position : s.position = .start
  behind : s.behind = []
  mark : s.mark = 0
  rest : s.rest = input
  pending : s.pending? = cause?
  failure : s.failure = none

theorem ofSource_fresh (source : Source) : (ofSource source).Fresh source.content source.ending.cause? :=
  ⟨rfl, rfl, rfl, rfl, rfl, rfl⟩

theorem ofBytes_fresh (input : List UInt8) : (ofBytes input).Fresh input none :=
  ⟨rfl, rfl, rfl, List.append_nil _, rfl, rfl⟩

namespace Fresh
variable {s t : Stream}

theorem holds (fresh : s.Fresh input cause?) : s.Holds 0 0 where
  marked := Nat.le_of_eq fresh.mark
  before := Nat.zero_le _
  held := by rw [offset, fresh.position]; exact Nat.zero_le _
  ready := Nat.zero_le _

theorem abreast (fresh : s.Fresh input cause?) (fresh' : t.Fresh longer cause?') (more : input <+: longer) :
    s.Abreast 0 0 (input.length + 1) t where
  position := by rw [fresh.position, fresh'.position]
  rest := by rwa [fresh.rest, fresh'.rest]
  room := by rw [fresh.rest]; exact Nat.lt_succ_self _
  held := by rw [bytesFrom, bytesFrom, fresh.behind, fresh'.behind, List.take_nil, List.take_nil]
  first := fresh.holds
  second := fresh'.holds

theorem same (fresh : s.Fresh input cause?) (fresh' : t.Fresh input cause?) : s.SameToCome false t :=
  ⟨fresh.rest.trans fresh'.rest.symm, fresh'.pending.trans fresh.pending.symm,
    fresh'.failure.trans fresh.failure.symm⟩

/-- Bytes that are all there are spared the failure of the same bytes from elsewhere. -/
theorem same_spared (fresh : s.Fresh input cause?) (fresh' : t.Fresh input none) : s.SameToCome true t :=
  ⟨fresh.rest.trans fresh'.rest.symm, fresh'.pending, fresh'.failure⟩

end Fresh
end Stream

namespace Reading
variable {s t : Stream}

/-- What is read as a document depends only on what the stream brings. -/
theorem document_fresh (builder : Builder ε) (fresh : s.Fresh input cause?) (fresh' : t.Fresh input cause?) :
    (document builder s).map Prod.fst = (document builder t).map Prod.fst := by
  have reads : Pairing.same.Tracks 0 0 (input.length + 1) (prolog builder input.length)
      (prolog builder input.length) 0 (input.length + 1) := .prolog builder (.inl rfl) (.inl rfl)
  have outcome := reads.pair (fresh.same fresh') (fresh.abreast fresh' (List.prefix_refl _))
  rw [document_eq, document_eq, fresh.rest, fresh'.rest]
  generalize prolog builder input.length s = one at outcome ⊢
  generalize prolog builder input.length t = two at outcome ⊢
  cases outcome with
  | together => rfl
  | refused => rfl
  | spoilt spoilt => exact spoilt.elim
  | lost lost => exact lost.elim

/-- What is refused as a document is refused for its markup, or for a failure of the input. -/
theorem document_error (builder : Builder ε) (fresh : s.Fresh input cause?)
    (failed : document builder s = .error error) : error.OfReading := by
  have reads : Pairing.same.Tracks 0 0 (input.length + 1) (prolog builder input.length)
      (prolog builder input.length) 0 (input.length + 1) := .prolog builder (.inl rfl) (.inl rfl)
  have outcome := reads.pair (fresh.same fresh) (fresh.abreast fresh (List.prefix_refl _))
  rw [document_eq, fresh.rest] at failed
  generalize prolog builder input.length s = one at outcome failed
  subst failed
  cases outcome with
  | refused _ ofReading => exact ofReading
  | spoilt spoilt => exact spoilt.elim

end Reading

namespace Stream

/-- The failure that will be met, or that has been. -/
def failing? (s : Stream) : Option String :=
  s.pending?.or s.failure

theorem Answers.failing {s : Stream} {given : α × Stream} {scan : Scan α}
    (answers : Answers scan reach start ready s given) : given.2.failing? = s.failing? := by
  cases early : scan.early s.rest with
  | some result =>
    obtain ⟨failure, pending⟩ := answers.early (by rw [early]; rfl)
    rw [failing?, failing?, failure, pending]
  | none =>
    obtain ⟨failure, exhausted⟩ := answers.ended early
    simp [failing?, pending?, failure, exhausted]

/-- Two streams at the same place, of which the same is still to come. -/
structure Alike (spared : Bool) (start ready : Nat) (s t : Stream) : Prop where
  same : s.SameToCome spared t
  abreast : s.Abreast start ready (s.rest.length + 1) t

namespace Alike
variable {s t : Stream}

theorem fewer (alike : s.Alike spared start ready t) (fewer : less ≤ ready) : s.Alike spared start less t :=
  ⟨alike.same, alike.abreast.weaken fewer (Nat.le_refl _)⟩

theorem setMark (alike : s.Alike spared start ready t) : s.setMark.Alike spared s.offset ready t.setMark :=
  ⟨⟨alike.same.rest, alike.same.pending, alike.same.failure⟩, alike.abreast.setMark⟩

theorem advance (alike : s.Alike spared start ready t) (enough : n ≤ ready) :
    (s.advance n).Alike spared start (ready - n) (t.advance n) where
  same := alike.same.advance alike.abreast enough
  abreast := { alike.abreast.advance enough with room := Nat.lt_succ_self _ }

/-- Both answer for all that is to come. -/
theorem run (alike : s.Alike spared start ready t) {scan : Scan α} (regular : scan.Regular reach) :
    ∃ s' t', s.run scan = (scan.whole s.rest, s') ∧ t.run scan = (scan.whole s.rest, t') ∧
      s'.Alike spared start (max ready (reach (scan.whole s.rest))) t' ∧ s'.position = s.position ∧ s'.rest = s.rest ∧
      s'.failing? = s.failing? ∧ (scan.early s.rest = none → s'.failure = s.failing?) := by
  have answers := run_answers regular alike.abreast.first
  obtain ⟨equal, same⟩ := alike.same.run alike.abreast regular
  have abreast := alike.abreast.run regular equal
  rw [answers.result] at abreast equal
  exact ⟨_, _, Prod.ext answers.result rfl, Prod.ext equal.symm rfl,
    ⟨same, { abreast with room := Nat.lt_succ_self _ }⟩, answers.same.position, answers.same.rest, answers.failing,
    fun none => (answers.ended none).1⟩

end Alike
end Stream

/-- The same tokens up to the last, and the same last or the failure that the second are spared. -/
structure Tokens.Alike (spared : Bool) (failing? : Option String) (tokens tokens' : Tokens) : Prop where
  same : tokens.tokens = tokens'.tokens
  last : tokens.last = tokens'.last ∨
    spared = true ∧ ∃ cause, failing? = some cause ∧ tokens.last = .error (.readFailed cause)

theorem Tokens.Alike.eq {tokens tokens' : Tokens} (alike : tokens.Alike false failing? tokens') : tokens = tokens' := by
  obtain ⟨list, last⟩ := tokens
  obtain ⟨rfl, rfl | ⟨spare, -⟩⟩ := alike
  · rfl
  · cases spare

/-- The end of the input is not among the tokens. -/
structure Tokens.Endless (tokens : Tokens) : Prop where
  before : ∀ token ∈ tokens.tokens, token.kind ≠ .endOfInput
  last : ∀ token, tokens.last = .ok token → token.kind ≠ .endOfInput

namespace Lexer

/-- Two lexers at the same place, of which the same is still to come. Only what has ended is done. -/
structure Alike (spared : Bool) (l l' : Lexer) : Prop where
  context : l.context = l'.context
  input : ∃ start, l.input.Alike spared start 0 l'.input
  done : l.context = .done → l.input.failing? = none

/-- The two give the same and stay alike, unless the first fails where the second is spared, which has ended there.
Up to its failure a lexer forgets none, and the end of the input is no failure. -/
inductive Gives (spared : Bool) (failing? : Option String) : (x y : Except Error Token × Lexer) → Prop
  | same (alike : l.Alike spared l') (kept : ∀ token, result = .ok token → l.input.failing? = failing?)
      (ended : ∀ token, result = .ok token → token.kind = .endOfInput → failing? = none) :
      Gives spared failing? (result, l) (result, l')
  | failed (spare : spared = true) (fails : failing? = some cause)
      (last : ∀ token, result = .ok token → token.kind = .endOfInput) :
      Gives spared failing? (.error (.readFailed cause), l) (result, l')

variable {s t : Stream} {context : LexerContext}

theorem gives_token (alike : s.Alike spared start ready t) (kind : token.kind ≠ .endOfInput) (going : context ≠ .done) :
    Gives spared s.failing? (.ok token, ⟨s, context⟩) (.ok token, ⟨t, context⟩) := by
  refine .same ⟨rfl, ⟨start, alike.fewer (Nat.zero_le _)⟩, fun done => absurd done going⟩ (fun _ _ => rfl) ?_
  rintro _ ⟨⟩ ended
  exact absurd ended kind

theorem gives_error (alike : s.Alike spared start ready t) (error : Error) (going : context ≠ .done) :
    Gives spared failing? (.error error, ⟨s, context⟩) (.error error, ⟨t, context⟩) :=
  .same ⟨rfl, ⟨start, alike.fewer (Nat.zero_le _)⟩, fun done => absurd done going⟩ nofun nofun

theorem take_gives (alike : s.Alike spared start ready t) (here : start = s.offset) (enough : length ≤ ready)
    {kind : TokenKind} (wanted : kind ≠ .endOfInput) (going : context ≠ .done) :
    Gives spared s.failing? (take ⟨s, context⟩ kind length) (take ⟨t, context⟩ kind length) := by
  have after := alike.advance enough
  have place := alike.abreast.position
  have text := after.abreast.textFrom
  unfold take
  dsimp only
  rw [← place]
  change start = s.position.offset at here
  rw [here] at text
  rw [← text]
  cases read : (s.advance length).textFrom s.position.offset with
  | error error => exact gives_error after error going
  | ok lexeme => exact gives_token (s := s.advance length) after wanted going

theorem finish_failed (failed : s.failure = some cause) : finish ⟨s, context⟩ =
    (.error (.readFailed cause), ⟨{ s with failure := none }, context⟩) := by
  simp only [finish, Stream.takeFailure, failed]

theorem finish_ended (unfailed : s.failure = none) : finish ⟨s, context⟩ =
    (.ok ⟨.endOfInput, "", s.position⟩, ⟨s, .done⟩) := by
  simp only [finish, Stream.takeFailure, unfailed]
  rw [← unfailed]

theorem forget_alike (alike : s.Alike spared start ready t) :
    ({ s with failure := none } : Stream).Alike spared start ready { t with failure := none } where
  same := ⟨alike.same.rest, alike.same.pending, (ite_self _).symm⟩
  abreast := { alike.abreast with first := { alike.abreast.first with }, second := { alike.abreast.second with } }

/-- Where the input has ended, there is a failure if there ever will be one. -/
theorem finish_gives (alike : s.Alike spared start ready t) (met : s.failure = s.failing?)
    (done : context = .done → s.failing? = none) :
    Gives spared s.failing? (finish ⟨s, context⟩) (finish ⟨t, context⟩) := by
  cases failed : s.failure with
  | some cause =>
    rw [finish_failed failed]
    obtain failed' | ⟨spare, unfailed⟩ := alike.same.failed failed
    · rw [finish_failed failed']
      refine gives_error (forget_alike alike) _ fun ended => ?_
      cases (met.symm.trans failed).symm.trans (done ended)
    · rw [finish_ended unfailed]
      refine .failed spare (met.symm.trans failed) ?_
      rintro _ ⟨⟩
      rfl
  | none =>
    rw [finish_ended failed, finish_ended (alike.same.unfailed failed), ← alike.abreast.position]
    have none := met.symm.trans failed
    exact .same ⟨rfl, ⟨start, alike.fewer (Nat.zero_le _)⟩, fun _ => none⟩ (fun _ _ => rfl) fun _ _ _ => none

theorem openSection_gives (alike : s.Alike spared start ready t) (sec : Section)
    (enough : (bytes sec.opening).length ≤ ready) (going : context ≠ .done) :
    Gives spared s.failing? (openSection ⟨s, context⟩ sec) (openSection ⟨t, context⟩ sec) := by
  have after := alike.advance enough
  obtain ⟨s₁, t₁, ran, ran', after, -, -, cause, met⟩ := after.run (Scan.find_regular _)
  unfold openSection
  dsimp only
  rw [ran, ran', ← alike.abreast.position]
  change s₁.failing? = s.failing? at cause
  rw [← cause]
  cases found : (Scan.find (bytes sec.terminator)).whole (s.advance (bytes sec.opening).length).rest with
  | some length =>
    rw [found] at after
    exact gives_token after (show sec.startKind ≠ .endOfInput by cases sec <;> decide) LexerContext.noConfusion
  | none =>
    have forgotten := forget_alike after
    have met := (met (by rw [Scan.early_find, show Scan.indexOf? _ _ = none from found]; rfl)).trans cause.symm
    simp only [Stream.takeFailure]
    cases failed : s₁.failure with
    | some cause =>
      obtain failed' | ⟨spare, unfailed⟩ := after.same.failed failed
      · rw [failed']
        exact gives_error forgotten _ going
      · rw [unfailed]
        exact .failed spare (met.symm.trans failed) nofun
    | none =>
      rw [after.same.unfailed failed]
      exact gives_error forgotten _ going

theorem startsWith_alike (alike : s.Alike spared start ready t) (literal : List UInt8) :
    ∃ found s' t', s.startsWith literal = (found, s') ∧ t.startsWith literal = (found, t') ∧
      s'.Alike spared start (if found then literal.length else ready) t' ∧ s'.position = s.position ∧
      s'.failing? = s.failing? := by
  obtain ⟨s', t', ran, ran', alike, place, -, cause, -⟩ := alike.run (Scan.startsWith_regular literal)
  refine ⟨_, s', t', ran, ran', alike.fewer ?_, place, cause⟩
  split
  · exact Nat.le_max_right _ _
  · exact Nat.le_max_left _ _

theorem eat_alike (alike : s.Alike spared start ready t) (literal : List UInt8) :
    ∃ found s' t', s.eat literal = (found, s') ∧ t.eat literal = (found, t') ∧ s'.Alike spared start 0 t' ∧
      (found = false → s'.position = s.position) ∧ s'.failing? = s.failing? := by
  obtain ⟨found, s', t', ran, ran', alike, place, cause⟩ := startsWith_alike alike literal
  unfold Stream.eat
  rw [ran, ran']
  cases found with
  | true => exact ⟨true, _, _, rfl, rfl, (alike.advance (Nat.le_refl _)).fewer (Nat.zero_le _), nofun, cause⟩
  | false => exact ⟨false, _, _, rfl, rfl, alike.fewer (Nat.zero_le _), fun _ => place, cause⟩

theorem inSection_gives (alike : s.Alike spared start ready t) (sec : Section) (going : context ≠ .done) :
    Gives spared s.failing? (inSection ⟨s, context⟩ sec) (inSection ⟨t, context⟩ sec) := by
  obtain ⟨found, s₁, t₁, ran, ran', after, place, cause⟩ := eat_alike alike.setMark _
  unfold inSection
  dsimp only
  rw [ran, ran', ← alike.abreast.position, ← show s₁.failing? = s.failing? from cause]
  cases found with
  | true =>
    exact gives_token after (show sec.endKind ≠ .endOfInput by cases sec <;> decide) LexerContext.noConfusion
  | false =>
    obtain ⟨s₂, t₂, ran, ran', after, place', -, cause, -⟩ := after.run (Scan.find_regular _)
    dsimp only
    rw [ran, ran', ← cause]
    generalize (Scan.find (bytes sec.terminator)).whole _ = found at after ⊢
    cases found with
    | none => exact gives_error after _ going
    | some length =>
      refine take_gives after ?_ (Nat.le_trans (Nat.le_add_right _ _) (Nat.le_max_right _ _))
        (show sec.contentKind ≠ .endOfInput by cases sec <;> decide) going
      exact congrArg Position.offset ((place'.trans (place rfl)).symm)

theorem findSection_alike (alike : s.Alike spared start ready t) (list : List Section) :
    ∃ found s' t', findSection s list = (found, s') ∧ findSection t list = (found, t') ∧
      s'.Alike spared start (found.elim ready fun sec => (bytes sec.opening).length) t' ∧ s'.position = s.position ∧
      s'.failing? = s.failing? := by
  induction list generalizing s t with
  | nil => exact ⟨none, s, t, rfl, rfl, alike, rfl, rfl⟩
  | cons sec rest ih =>
    obtain ⟨found, s₁, t₁, ran, ran', after, place, cause⟩ := startsWith_alike alike (bytes sec.opening)
    simp only [findSection, ran, ran']
    cases found with
    | true => exact ⟨some sec, s₁, t₁, rfl, rfl, after, place, cause⟩
    | false =>
      obtain ⟨found, s₂, t₂, ran, ran', after, place', cause'⟩ := ih after
      exact ⟨found, s₂, t₂, ran, ran', after, place'.trans place, cause'.trans cause⟩

theorem eatFixed_alike (alike : s.Alike spared start ready t) (list : List (String × TokenKind × LexerContext)) :
    ∃ found s' t', eatFixed s list = (found, s') ∧ eatFixed t list = (found, t') ∧ s'.Alike spared start 0 t' ∧
      (found = none → s'.position = s.position) ∧ s'.failing? = s.failing? ∧
      ∀ entry, found = some entry → entry ∈ list := by
  induction list generalizing s t ready with
  | nil => exact ⟨none, s, t, rfl, rfl, alike.fewer (Nat.zero_le _), fun _ => rfl, rfl, fun _ same => by cases same⟩
  | cons entry rest ih =>
    obtain ⟨found, s₁, t₁, ran, ran', after, place, cause⟩ := eat_alike alike (bytes entry.1)
    simp only [eatFixed, ran, ran']
    cases found with
    | true =>
      refine ⟨some entry, s₁, t₁, rfl, rfl, after, (fun none => by cases none), cause, fun _ same => ?_⟩
      cases same
      exact List.mem_cons_self
    | false =>
      obtain ⟨found, s₂, t₂, ran, ran', after, place', cause', member⟩ := ih after
      exact ⟨found, s₂, t₂, ran, ran', after, fun none => (place' none).trans (place rfl), cause'.trans cause,
        fun entry same => List.mem_cons_of_mem _ (member entry same)⟩

/-- A stream that has ended has met its failure, if there will be one. -/
theorem isAtEnd_alike (alike : s.Alike spared start ready t) :
    ∃ ended s' t', s.isAtEnd = (ended, s') ∧ t.isAtEnd = (ended, t') ∧ s'.Alike spared start 0 t' ∧
      s'.failing? = s.failing? ∧ (ended = true → s'.failure = s'.failing?) := by
  obtain ⟨s', t', ran, ran', after, -, -, cause, met⟩ := alike.run (Scan.available_regular 1)
  refine ⟨_, s', t', congrArg (fun p => (!p.1, p.2)) ran, congrArg (fun p => (!p.1, p.2)) ran',
    after.fewer (Nat.zero_le _), cause, fun ended => ?_⟩
  have nothing : s.rest = [] := by
    cases rest : s.rest with
    | nil => rfl
    | cons b more =>
      rw [rest] at ended
      cases ended
  rw [cause, met (nothing ▸ rfl)]

theorem peek_alike (alike : s.Alike spared start ready t) :
    ∃ b? s' t', s.peek = (b?, s') ∧ t.peek = (b?, t') ∧ s'.Alike spared start 0 t' ∧ s'.position = s.position ∧
      s'.failing? = s.failing? ∧ (b? = none → s'.failure = s'.failing?) := by
  obtain ⟨s', t', ran, ran', after, place, -, cause, met⟩ := alike.run (Scan.byteAt_regular 0)
  refine ⟨_, s', t', ran, ran', after.fewer (Nat.zero_le _), place, cause, fun none => ?_⟩
  have nothing : s.rest = [] := by
    cases rest : s.rest with
    | nil => rfl
    | cons b more =>
      rw [rest] at none
      cases none
  rw [cause, met (nothing ▸ rfl)]

theorem inContent_gives (alike : s.Alike spared start ready t) (going : context ≠ .done) :
    Gives spared s.failing? (inContent ⟨s, context⟩) (inContent ⟨t, context⟩) := by
  obtain ⟨ended, s₁, t₁, ran, ran', after, cause, met⟩ := isAtEnd_alike alike.setMark
  unfold inContent
  dsimp only
  rw [ran, ran', ← alike.abreast.position, ← show s₁.failing? = s.failing? from cause]
  cases ended with
  | true => exact finish_gives after (met rfl) fun done => absurd done going
  | false =>
    obtain ⟨found, s₂, t₂, ran, ran', after, -, cause⟩ := findSection_alike after Section.all
    dsimp only
    rw [ran, ran', ← cause]
    cases found with
    | some sec => exact openSection_gives after sec (Nat.le_refl _) going
    | none =>
      obtain ⟨found, s₃, t₃, ran, ran', after, -, cause⟩ := eat_alike after (bytes "</")
      dsimp only
      rw [ran, ran', ← cause]
      cases found with
      | true => exact gives_token after TokenKind.noConfusion LexerContext.noConfusion
      | false =>
        obtain ⟨found, s₄, t₄, ran, ran', after, -, cause⟩ := eat_alike after (bytes "<")
        dsimp only
        rw [ran, ran', ← cause]
        cases found with
        | true => exact gives_token after TokenKind.noConfusion LexerContext.noConfusion
        | false =>
          obtain ⟨s₅, t₅, ran, ran', after, place, -, cause, -⟩ := after.setMark.run Scan.textLength_regular
          dsimp only
          rw [ran, ran', ← show s₅.failing? = s₄.failing? from cause]
          exact take_gives after (congrArg Position.offset place).symm (Nat.le_max_right _ _) TokenKind.noConfusion
            going

/-- A quoted string or a name is measured alike. -/
theorem measure_alike (alike : s.Alike spared start ready t) (b : UInt8) :
    ∃ length kind s' t',
      (if isQuote b then ((s.run .quotedLength).1.getD 0, TokenKind.string, (s.run .quotedLength).2)
        else ((s.run .nameLength).1, TokenKind.name, (s.run .nameLength).2)) = (length, kind, s') ∧
      (if isQuote b then ((t.run .quotedLength).1.getD 0, TokenKind.string, (t.run .quotedLength).2)
        else ((t.run .nameLength).1, TokenKind.name, (t.run .nameLength).2)) = (length, kind, t') ∧
      s'.Alike spared start length t' ∧ s'.position = s.position ∧ s'.failing? = s.failing? ∧ kind ≠ .endOfInput := by
  cases isQuote b with
  | true =>
    obtain ⟨s', t', ran, ran', after, place, -, cause, -⟩ := alike.run Scan.quotedLength_regular
    rw [ran, ran']
    exact ⟨_, _, s', t', rfl, rfl, after.fewer (Nat.le_max_right _ _), place, cause, TokenKind.noConfusion⟩
  | false =>
    obtain ⟨s', t', ran, ran', after, place, -, cause, -⟩ := alike.run Scan.nameLength_regular
    rw [ran, ran']
    exact ⟨_, _, s', t', rfl, rfl, after.fewer (Nat.le_max_right _ _), place, cause, TokenKind.noConfusion⟩

theorem inTag_gives (alike : s.Alike spared start ready t) (going : context ≠ .done) :
    Gives spared s.failing? (inTag ⟨s, context⟩) (inTag ⟨t, context⟩) := by
  obtain ⟨b?, s₁, t₁, ran, ran', after, place, cause, met⟩ := peek_alike alike.setMark
  unfold inTag
  dsimp only
  rw [ran, ran', ← alike.abreast.position, ← show s₁.failing? = s.failing? from cause]
  cases b? with
  | none => exact finish_gives after (met rfl) fun done => absurd done going
  | some b =>
    obtain ⟨found, s₂, t₂, ran, ran', after, place', cause, member⟩ := eatFixed_alike after tagTokens
    dsimp only
    rw [ran, ran', ← cause]
    cases found with
    | some entry =>
      have fixed : ∀ entry ∈ tagTokens, entry.2.1 ≠ .endOfInput ∧ entry.2.2 ≠ .done := by decide
      obtain ⟨kind, context⟩ := fixed entry (member entry rfl)
      exact gives_token after kind context
    | none =>
      obtain ⟨length, kind, s₃, t₃, ran, ran', after, place'', cause, wanted⟩ := measure_alike after b
      have here : s.offset = s₃.offset :=
        congrArg Position.offset ((place''.trans (place' rfl)).trans place).symm
      dsimp only
      rw [ran, ran', ← cause]
      dsimp only
      split
      · exact take_gives after here (Nat.le_refl _) wanted going
      · obtain ⟨s₄, t₄, ran, ran', after, place, -, cause, -⟩ := after.run Scan.charLength_regular
        rw [ran, ran', ← cause]
        exact take_gives after (here.trans (congrArg Position.offset place).symm) (Nat.le_max_right _ _)
          TokenKind.noConfusion going

/-- Lexers that are alike give the same, and are alike afterwards. -/
theorem next_gives {l l' : Lexer} (alike : l.Alike spared l') :
    Gives spared l.input.failing? l.next l'.next := by
  obtain ⟨s, context⟩ := l
  obtain ⟨t, context'⟩ := l'
  obtain ⟨rfl : context = context', ⟨start, alike⟩, done⟩ := alike
  unfold next
  dsimp only at alike ⊢
  cases context with
  | content => exact inContent_gives alike LexerContext.noConfusion
  | inside sec => exact inSection_gives alike sec LexerContext.noConfusion
  | tagStart =>
    obtain ⟨s₁, t₁, ran, ran', after, place, -, cause, -⟩ := alike.setMark.run Scan.nameLength_regular
    dsimp only
    rw [ran, ran', ← show s₁.failing? = s.failing? from cause]
    dsimp only
    split
    · exact take_gives after (congrArg Position.offset place).symm (Nat.le_max_right _ _) TokenKind.noConfusion
        LexerContext.noConfusion
    · exact inTag_gives after LexerContext.noConfusion
  | tag =>
    obtain ⟨s₁, t₁, ran, ran', after, place, -, cause, -⟩ := alike.run Scan.spaces_regular
    simp only [Stream.skipSpace, ran, ran']
    have further := after.advance (Nat.le_max_right _ _)
    rw [← show (s₁.advance _).failing? = s.failing? from cause]
    exact inTag_gives further LexerContext.noConfusion
  | done =>
    have none := done rfl
    exact finish_gives alike ((Option.or_eq_none_iff.1 none).2.trans none.symm) done

/-- What a number of calls give, each made whatever the ones before gave. -/
def results : (calls : Nat) → Lexer → List (Except Error Token)
  | 0, _ => []
  | calls + 1, lexer => lexer.next.1 :: results calls lexer.next.2

variable {l l' : Lexer}

theorem results_alike (alike : l.Alike false l') (calls : Nat) : l.results calls = l'.results calls := by
  induction calls generalizing l l' with
  | zero => rfl
  | succ calls ih =>
    have gives := next_gives alike
    rw [results, results]
    generalize l.next = one at gives ⊢
    generalize l'.next = two at gives ⊢
    cases gives with
    | same alike => rw [ih alike]
    | failed spare => cases spare

theorem tokensWithin_alike (alike : l.Alike spared l') (fuel : Nat) :
    (l.tokensWithin fuel).Alike spared l.input.failing? (l'.tokensWithin fuel) := by
  induction fuel generalizing l l' with
  | zero =>
    have gives := next_gives alike
    rw [tokensWithin, tokensWithin]
    generalize l.next = one at gives ⊢
    generalize l'.next = two at gives ⊢
    cases gives with
    | same => exact ⟨rfl, .inl rfl⟩
    | failed spare fails => exact ⟨rfl, .inr ⟨spare, _, fails, rfl⟩⟩
  | succ fuel ih =>
    have gives := next_gives alike
    rw [tokensWithin, tokensWithin]
    generalize l.next = one at gives ⊢
    generalize l'.next = two at gives ⊢
    cases gives with
    | @same result l l' alike kept =>
      cases result with
      | error error => exact ⟨rfl, .inl rfl⟩
      | ok token =>
        dsimp only
        split
        · exact ⟨rfl, .inl rfl⟩
        · obtain ⟨same, last⟩ := ih alike
          exact ⟨congrArg (token :: ·) same, kept token rfl ▸ last⟩
    | @failed cause result _ _ spare fails last =>
      cases result with
      | error error => exact ⟨rfl, .inr ⟨spare, _, fails, rfl⟩⟩
      | ok token =>
        dsimp only
        rw [if_pos (last token rfl)]
        exact ⟨rfl, .inr ⟨spare, _, fails, rfl⟩⟩

theorem remaining_eq (l : Lexer) : l.remaining = l.input.rest.length :=
  List.length_append.symm

theorem tokens_alike (alike : l.Alike spared l') : l.tokens.Alike spared l.input.failing? l'.tokens := by
  obtain ⟨start, input⟩ := alike.input
  rw [tokens, tokens, remaining_eq, remaining_eq, input.same.rest]
  exact tokensWithin_alike alike _

/-- The tokens of what will fail never come to the end of the input. -/
theorem tokensWithin_failing (alike : l.Alike false l) (failing : l.input.failing? = some cause) (fuel : Nat) :
    (l.tokensWithin fuel).Endless := by
  induction fuel generalizing l with
  | zero =>
    have gives := next_gives alike
    rw [tokensWithin]
    generalize l.next = one at gives ⊢
    cases gives with
    | same _ _ ended =>
      refine ⟨nofun, fun token given kind => ?_⟩
      cases failing.symm.trans (ended token given kind)
    | failed spare => cases spare
  | succ fuel ih =>
    have gives := next_gives alike
    rw [tokensWithin]
    generalize l.next = one at gives ⊢
    cases gives with
    | @same result l _ alike kept ended =>
      cases result with
      | error error => exact ⟨nofun, nofun⟩
      | ok token =>
        have wanted : token.kind ≠ .endOfInput := fun kind => by
          cases failing.symm.trans (ended token rfl kind)
        obtain ⟨inner, last⟩ := ih alike ((kept token rfl).trans failing)
        dsimp only
        rw [if_neg wanted]
        exact ⟨List.forall_mem_cons.2 ⟨wanted, inner⟩, last⟩
    | failed spare => cases spare

end Lexer

end XmlBinding
