import XmlBinding.Proofs.Agreement
import XmlBinding.Proofs.Lockstep

/-! Input that breaks off with a failure. Neither reader takes it for a document. -/
namespace XmlBinding
open Text

namespace Tokens.Alike
variable {tokens tokens' : Tokens}

theorem current_ok (alike : tokens.Alike spared failing? tokens') (read : tokens.current = .ok token) :
    tokens'.current = .ok token := by
  unfold Tokens.current at read ⊢
  rw [← alike.same]
  split at read
  · exact read
  · obtain last | ⟨-, cause, -, failed⟩ := alike.last
    · exact last ▸ read
    · cases failed.symm.trans read

theorem current_error (alike : tokens.Alike true (some cause) tokens') (read : tokens.current = .error error) :
    error = .readFailed cause ∨ tokens'.current = .error error := by
  unfold Tokens.current at read ⊢
  rw [← alike.same]
  split at read
  · cases read
  · obtain last | ⟨-, _, ⟨⟩, failed⟩ := alike.last
    · exact .inr (last ▸ read)
    · exact .inl (Except.error.inj (read.symm.trans failed))

end Tokens.Alike

theorem Tokens.Endless.current {tokens : Tokens} (endless : tokens.Endless) (read : tokens.current = .ok token) :
    token.kind ≠ .endOfInput := by
  unfold Tokens.current at read
  split at read
  · rename_i split
    cases read
    exact endless.before token (split ▸ List.mem_cons_self)
  · exact endless.last token read

namespace Parse

/-- A parser of the tokens of what will fail, beside one of the same tokens that is spared the failure. -/
def Lockstep.failing (cause : String) : Lockstep Unit Unit where
  Related p q := p.tokens.Alike true (some cause) q.tokens ∧ p.tokens.Endless
  Allowed _ := True
  Shared _ := True
  Spoilt error := error = .readFailed cause
  same related := related.1.same
  behind related suffix :=
    ⟨⟨rfl, related.1.last⟩, fun token member => related.2.before token (suffix.subset member), related.2.last⟩
  reads related read := ⟨related.1.current_ok read, trivial⟩
  unread related read := (related.1.current_error read).imp_right fun read => ⟨read, trivial⟩
  faults _ _ := trivial
  entered _ _ _ _ := .inr fun _ _ _ => trivial

theorem Lockstep.failing_supplied (cause : String) : (failing cause).Supplied .fresh .fresh where
  properties related := ⟨_, _, _, rfl, rfl, List.forall_mem_nil _, related⟩
  items related := ⟨_, _, _, rfl, rfl, List.forall_mem_nil _, related⟩

theorem fromRoot_ended {supply : Supply σ} (ran : fromRoot supply parts p = .ok root p') :
    ∃ token, p'.tokens.current = .ok token ∧ token.kind = .endOfInput := by
  unfold fromRoot at ran
  obtain ⟨_, _, -, ran⟩ := bind_ok.1 ran
  obtain ⟨_, _, -, ran⟩ := bind_ok.1 ran
  obtain ⟨token, read, ran⟩ := current_bind ran
  obtain ⟨ended, ran⟩ := when_ok failAt_ne ran
  obtain ⟨-, rfl⟩ := pure_ok.1 ran
  exact ⟨token, read, Decidable.not_not.1 ended⟩

/-- Behind a document the tokens have come to the end of the input. -/
theorem document_ended {supply : Supply σ} (ran : document supply p = .ok root p') :
    ∃ token, p'.tokens.current = .ok token ∧ token.kind = .endOfInput := by
  unfold document at ran
  obtain ⟨_, _, -, ran⟩ := bind_ok.1 ran
  obtain ⟨_, _, -, ran⟩ := bind_ok.1 ran
  obtain ⟨_, _, -, ran⟩ := bind_ok.1 ran
  obtain ⟨_, -, ran⟩ := current_bind ran
  split at ran
  · obtain ⟨_, _, -, ran⟩ := bind_ok.1 ran
    obtain ⟨_, _, -, ran⟩ := bind_ok.1 ran
    exact fromRoot_ended ran
  · obtain ⟨_, _, -, ran⟩ := bind_ok.1 ran
    exact fromRoot_ended ran

end Parse

/-- No tree is read from tokens that do not come to the end of the input. What is reported is the failure, or the fault
that is found where the failure is spared. -/
theorem Node.ofTokens_failing {tokens tokens' : Tokens} (alike : tokens.Alike true (some cause) tokens')
    (endless : tokens.Endless) : ∃ error, Node.ofTokens tokens = .error error ∧
      (error = .readFailed cause ∨ Node.ofTokens tokens' = .error error) := by
  have outcome := Parse.Lockstep.Runs.document (Parse.Lockstep.failing_supplied cause) ⟨tokens, ()⟩ ⟨tokens', ()⟩
    ⟨alike, endless⟩
  unfold Node.ofTokens
  generalize ran : Parse.document .fresh ⟨tokens, ()⟩ = one at outcome ⊢
  generalize Parse.document .fresh ⟨tokens', ()⟩ = other at outcome ⊢
  cases outcome with
  | together _ related =>
    obtain ⟨token, read, ended⟩ := Parse.document_ended ran
    exact absurd ended (related.2.current read)
  | refused => exact ⟨_, rfl, .inr rfl⟩
  | spoilt failed => exact ⟨_, rfl, .inl failed⟩

namespace Stream

/-- What is never answered early is answered once the source is exhausted. -/
theorem run_exhausted {scan : Scan α} (late : ∀ done seen, scan.look done seen ≠ .ok result) {s : Stream}
    (answered : (s.run scan).1 = result) : (s.run scan).2.source = none := by
  have answer (ending : Ending) (reads : List Read) (done : Nat) (s : Stream)
      (answered : (answer scan ending reads done s).1 = result) :
      (answer scan ending reads done s).2.source = none := by
    induction reads generalizing done s with
    | nil =>
      unfold Stream.answer at answered ⊢
      split at answered
      · rename_i early
        exact absurd (early.trans (congrArg Except.ok answered)) (late _ _)
      · cases ending <;> rfl
    | cons read later ih =>
      unfold Stream.answer at answered ⊢
      split at answered
      · rename_i early
        exact absurd (early.trans (congrArg Except.ok answered)) (late _ _)
      · exact ih _ _ answered
  unfold run at answered ⊢
  cases given : s.source with
  | none => exact given
  | some source =>
    rw [given] at answered
    exact answer _ _ _ _ answered

theorem isAtEnd_exhausted {s s' : Stream} (ended : s.isAtEnd = (true, s')) : s'.source = none := by
  have same : (s.run (.available 1)).2 = s' := congrArg Prod.snd ended
  have answered : (s.run (.available 1)).1 = false := by
    have first : (!(s.run (.available 1)).1) = true := congrArg Prod.fst ended
    simpa using first
  rw [← same]
  refine run_exhausted (fun done seen => ?_) answered
  simp only [Scan.available]
  split <;> simp

end Stream

namespace Reading

/-- A document is read only where the source has ended and has not failed. -/
theorem root_exhausted {builder : Builder ε} (ran : root builder parts s = .ok (made, s')) :
    s'.failure = none ∧ s'.source = none := by
  unfold root at ran
  obtain ⟨_, _, -, ran⟩ := bind_ok.1 ran
  obtain ⟨_, _, -, ran⟩ := bind_ok.1 ran
  obtain ⟨_, _, -, ran⟩ := bind_ok.1 ran
  obtain ⟨_, s₁, looked, ran⟩ := bind_ok.1 ran
  obtain ⟨rfl, ran⟩ := unless_ok ran
  obtain ⟨_, _, got, ran⟩ := bind_ok.1 ran
  cases got
  have exhausted := Stream.isAtEnd_exhausted (Except.ok.inj looked)
  cases failed : s₁.failure with
  | some cause =>
    rw [failed] at ran
    cases ran
  | none =>
    rw [failed] at ran
    obtain ⟨-, rfl⟩ := pure_ok.1 ran
    exact ⟨failed, exhausted⟩

theorem prolog_exhausted {builder : Builder ε} (ran : prolog builder parts s = .ok (made, s')) :
    s'.failure = none ∧ s'.source = none := by
  unfold prolog declared at ran
  obtain ⟨_, _, -, ran⟩ := bind_ok.1 ran
  obtain ⟨found, _, -, ran⟩ := bind_ok.1 ran
  cases found with
  | true =>
    obtain ⟨_, _, -, ran⟩ := bind_ok.1 ran
    exact root_exhausted ran
  | false => exact root_exhausted ran

end Reading

/-- The faults by which the direct reader refuses the last lexeme of what breaks off before it looks for the
failure: a text or name that ends inside a character, a closing name that is not whole, and the beginning of
some markup taken for one more element than may be nested. -/
def Fault.IsOfFragment : Fault → Prop
  | .invalidText | .mismatchedTags _ _ | .nestingTooDeep _ => True
  | _ => False

/-- The first stream will fail, and the second not, unless it is the first. The first is lost once it has failed. -/
def Pairing.failing (cause : String) : Pairing where
  Related s t := s.failure = none ∧ t.failure = none ∧ s.pending? = some cause
  Lost s := s.failure = some cause ∧ s.source = none
  Spoilt error := error = .readFailed cause ∨ ∃ fault place, error = .malformed fault place ∧ fault.IsOfFragment
  run := by
    rintro α scan reach regular s t start ready room abreast ⟨unfailed, unfailed', pending⟩
    have first := Stream.run_answers regular abreast.first
    have second := Stream.run_answers regular abreast.second
    obtain ⟨more, split⟩ := abreast.rest
    cases early : scan.early s.rest with
    | some result =>
      have early' : scan.early t.rest = some result := split ▸ regular.keeps early
      obtain ⟨failure, pending'⟩ := first.early (early ▸ rfl)
      obtain ⟨failure', -⟩ := second.early (early' ▸ rfl)
      refine .inl ⟨?_, failure.trans unfailed, failure'.trans unfailed', pending'.trans pending⟩
      rw [first.result, second.result, ← split, regular.settled.final _ more _ early]
      exact (List.append_nil s.rest ▸ regular.settled.final _ [] _ early)
    | none =>
      obtain ⟨failure, exhausted⟩ := first.ended early
      exact .inr ⟨by rw [failure, pending]; rfl, exhausted⟩
  advance _ _ related := related
  setMark related := related
  failure related := related.1.trans related.2.1.symm
  run_lost := by
    rintro α scan reach regular s ⟨failed, exhausted⟩
    simp only [Stream.run, exhausted]
    exact ⟨failed, trivial⟩
  advance_lost _ lost := lost
  setMark_lost lost := lost
  failure_lost lost := ⟨cause, lost.1, .inl rfl⟩
  text_lost _ _ := .inr ⟨_, _, rfl, trivial⟩
  tags_lost _ _ _ _ := .inr ⟨_, _, rfl, trivial⟩
  depth_lost _ _ := .inr ⟨_, _, rfl, trivial⟩

namespace Reading
variable {s t : Stream}

theorem skipSpace_starved (nothing : s.rest = []) (holds : s.Holds start ready) (pending : s.pending? = some cause) :
    ∃ s', skipSpace s = .ok ((), s') ∧ s'.failure = some cause ∧ s'.source = none := by
  have answers := Stream.run_answers Scan.spaces_regular holds
  obtain ⟨failure, exhausted⟩ := answers.ended (nothing ▸ rfl)
  exact ⟨_, rfl, by rw [pending] at failure; exact failure, exhausted⟩

/-- What will fail is no document. -/
theorem prolog_failing (builder : Builder ε) (parts : Nat) (fresh : s.Fresh input (some cause)) :
    prolog builder parts s ≠ .ok (made, s') := by
  intro ran
  have reads : (Pairing.failing cause).Tracks 0 0 (input.length + 1) (prolog builder parts) (prolog builder parts) 0
      (input.length + 1) := .prolog builder (.inl rfl) (.inl rfl)
  have outcome := reads.pair ⟨fresh.failure, fresh.failure, fresh.pending⟩ (fresh.abreast fresh (List.prefix_refl _))
  obtain ⟨unfailed, exhausted⟩ := prolog_exhausted ran
  rw [ran] at outcome
  cases outcome with
  | together related =>
    have pending := related.2.2
    rw [Stream.pending?, exhausted] at pending
    cases pending
  | lost lost => cases unfailed.symm.trans lost.1

/-- Where the beginning of some document breaks off with a failure, that failure is reported or a fault of the
fragment that is the last lexeme. -/
theorem document_failing (builder : Builder ε) (fresh : s.Fresh input (some cause)) (fresh' : t.Fresh longer cause?)
    (more : input <+: longer) : ∃ error, document builder s = .error error ∧
      ((Pairing.failing cause).Spoilt error ∨ document builder t = .error error) := by
  rw [document_eq, document_eq, fresh.rest, fresh'.rest]
  have never {made s'} : prolog builder input.length s ≠ .ok (made, s') := prolog_failing builder input.length fresh
  cases input with
  | nil =>
    obtain ⟨s', ran, lost⟩ := skipSpace_starved fresh.rest fresh.holds fresh.pending
    have same : prolog builder 0 s = declared builder 0 s' := bind_of ran fun _ => declared builder 0
    have reads : (Pairing.failing cause).Tracks 0 0 0 (declared builder 0) (declared builder 0) 0 0 :=
      .declared builder (.inl rfl) (.inl rfl)
    have after := reads.lost lost
    rw [List.length_nil, same] at never ⊢
    cases done : declared builder 0 s' with
    | ok result => exact absurd done never
    | error error => exact ⟨error, rfl, .inl (done ▸ after : (Pairing.failing cause).After (.error error))⟩
  | cons b rest =>
    have reads : (Pairing.failing cause).Tracks 0 0 ((b :: rest).length + 1) (prolog builder (b :: rest).length)
        (prolog builder longer.length) 0 ((b :: rest).length + 1) :=
      .prolog builder (.inr ⟨by omega, more.length_le⟩)
        (.inr ⟨by rw [List.length_cons]; omega, more.length_le⟩)
    have outcome := reads.pair ⟨fresh.failure, fresh'.failure, fresh.pending⟩ (fresh.abreast fresh' more)
    generalize prolog builder (b :: rest).length s = one at outcome never ⊢
    generalize prolog builder longer.length t = two at outcome ⊢
    cases outcome with
    | together => exact absurd rfl never
    | lost => exact absurd rfl never
    | refused error _ => exact ⟨error, rfl, .inr rfl⟩
    | spoilt spoilt => exact ⟨_, rfl, .inl spoilt⟩

end Reading

namespace Stream.Fresh
variable {s t : Stream}

theorem lexer_alike (fresh : s.Fresh input cause?) (fresh' : t.Fresh input cause?') (same : s.SameToCome spared t) :
    Lexer.Alike spared ⟨s, .content⟩ ⟨t, .content⟩ where
  context := rfl
  input := ⟨0, same, fresh.rest.symm ▸ fresh.abreast fresh' (List.prefix_refl _)⟩
  done := LexerContext.noConfusion

theorem results (fresh : s.Fresh input cause?) (fresh' : t.Fresh input cause?) (calls : Nat) :
    (Lexer.mk s .content).results calls = (Lexer.mk t .content).results calls :=
  Lexer.results_alike (lexer_alike fresh fresh' (fresh.same fresh')) calls

theorem tree (fresh : s.Fresh input cause?) (fresh' : t.Fresh input cause?) :
    Node.ofTokens (Lexer.mk s .content).tokens = Node.ofTokens (Lexer.mk t .content).tokens :=
  congrArg Node.ofTokens (Lexer.tokens_alike (lexer_alike fresh fresh' (fresh.same fresh'))).eq

/-- The tree reader reports the failure, or the fault of the bytes that came before it. -/
theorem tree_failing (fresh : s.Fresh input (some cause)) : ∃ error,
    Node.ofTokens (Lexer.mk s .content).tokens = .error error ∧
      (error = .readFailed cause ∨ Node.ofBytes input = .error error) := by
  have failing : s.failing? = some cause := by
    rw [failing?, fresh.pending, Option.some_or]
  have whole := ofBytes_fresh input
  have alike := Lexer.tokens_alike (lexer_alike fresh whole (fresh.same_spared whole))
  rw [failing] at alike
  exact Node.ofTokens_failing alike
    (Lexer.tokensWithin_failing (lexer_alike fresh fresh (fresh.same fresh)) failing _)

theorem validate (fresh : s.Fresh input cause?) (fresh' : t.Fresh input cause?) :
    XmlBinding.validate s = XmlBinding.validate t :=
  Reading.document_fresh .nothing fresh fresh'

theorem value (fresh : s.Fresh input cause?) (fresh' : t.Fresh input cause?) : Value.ofStream s = Value.ofStream t := by
  have parts (result : Except Error (Entries × Stream)) :
      (result.map fun made => Value.map made.1) = (result.map Prod.fst).map Value.map := by
    cases result <;> rfl
  rw [Value.ofStream, Value.ofStream, parts, parts, Reading.document_fresh .entries fresh fresh']

/-- What breaks off with a failure is nowhere taken for a document. -/
theorem refused (fresh : s.Fresh input (some cause)) : (∀ node, Node.ofTokens (Lexer.mk s .content).tokens ≠ .ok node) ∧
    XmlBinding.validate s ≠ .ok () ∧ ∀ value, Value.ofStream s ≠ .ok value := by
  have never {ε : Type} (builder : Builder ε) : ∃ error, Reading.document builder s = .error error := by
    obtain ⟨error, failed, -⟩ := Reading.document_failing builder fresh fresh (List.prefix_refl _)
    exact ⟨error, failed⟩
  refine ⟨fun node made => ?_, fun valid => ?_, fun value made => ?_⟩
  · obtain ⟨error, failed, -⟩ := fresh.tree_failing
    cases made.symm.trans failed
  · obtain ⟨error, failed⟩ := never .nothing
    rw [XmlBinding.validate, failed] at valid
    cases valid
  · obtain ⟨error, failed⟩ := never .entries
    rw [Value.ofStream, failed] at made
    cases made

end Stream.Fresh

/-- What is read depends only on the bytes a source brings and on how it ends: not on the size of its reads, nor on
where it is interrupted. Bytes that come to their end are read as if they had all been there, and input that
breaks off with a failure is no document. -/
theorem reading_ignores_delivery (source source' : Source) (content : source.content = source'.content)
    (ending : source.ending = source'.ending) :
    ((∀ calls, (Lexer.ofSource source).results calls = (Lexer.ofSource source').results calls) ∧
      Node.ofSource source = Node.ofSource source' ∧
      validate (.ofSource source) = validate (.ofSource source') ∧
      Value.ofStream (.ofSource source) = Value.ofStream (.ofSource source')) ∧
    (source.ending = .endOfInput →
      (∀ calls, (Lexer.ofSource source).results calls = (Lexer.ofBytes source.content).results calls) ∧
      Node.ofSource source = Node.ofBytes source.content ∧
      validate (.ofSource source) = validate (.ofBytes source.content) ∧
      Value.ofStream (.ofSource source) = Value.ofStream (.ofBytes source.content)) ∧
    ∀ cause, source.ending = .failure cause →
      (∀ node, Node.ofSource source ≠ .ok node) ∧ validate (.ofSource source) ≠ .ok () ∧
      ∀ value, Value.ofStream (.ofSource source) ≠ .ok value := by
  have fresh := Stream.ofSource_fresh source
  have fresh' := Stream.ofSource_fresh source'
  rw [← content, ← ending] at fresh'
  refine ⟨⟨fresh.results fresh', fresh.tree fresh', fresh.validate fresh', fresh.value fresh'⟩, fun ended => ?_,
    fun cause failing => ?_⟩
  · have whole := Stream.ofBytes_fresh source.content
    rw [ended] at fresh
    exact ⟨fresh.results whole, fresh.tree whole, fresh.validate whole, fresh.value whole⟩
  · rw [failing] at fresh
    exact fresh.refused

/-- Some bytes that come one at a time with interruptions are read as if they came at once, and not at all if they
break off. -/
theorem reading_ignores_interruptions :
    Node.ofSource (.inPieces 0 true (bytes "<a>é</a>") .endOfInput) = Node.ofBytes (bytes "<a>é</a>") ∧
      ∀ node, Node.ofSource (.inPieces 0 true (bytes "<a>é</a>") (.failure "gone")) ≠ .ok node := by
  have content (ending : Ending) :
      (Source.inPieces 0 true (bytes "<a>é</a>") ending).content = bytes "<a>é</a>" := by
    cases ending <;> rfl
  constructor
  · have read := reading_ignores_delivery (.inPieces 0 true (bytes "<a>é</a>") .endOfInput)
      (.inPieces 9 false (bytes "<a>é</a>") .endOfInput) (by rfl) rfl
    rw [(read.2.1 rfl).2.1, content]
  · exact ((reading_ignores_delivery (.inPieces 0 true (bytes "<a>é</a>") (.failure "gone"))
      (.inPieces 9 false (bytes "<a>é</a>") (.failure "gone")) (by rfl) rfl).2.2 "gone" rfl).1

/-- Where a document breaks off with a failure, no reader takes the fragment for a document. The direct reader reports
the failure, unless it refuses the last lexeme for what is missing of it. The tree reader reports the failure, unless
it refuses the fragment for a fault that it finds in the same bytes from memory. -/
theorem reading_of_fragment (source : Source) (missing : List UInt8) (failing : source.ending = .failure cause)
    (accepted : validate (.ofBytes (source.content ++ missing)) = .ok ()) :
    (∃ error, validate (.ofSource source) = .error error ∧ (error = .readFailed cause ∨
      ∃ fault place, error = .malformed fault place ∧ fault.IsOfFragment)) ∧
    (∃ error, Value.ofStream (.ofSource source) = .error error ∧ (error = .readFailed cause ∨
      ∃ fault place, error = .malformed fault place ∧ fault.IsOfFragment)) ∧
    ∃ error, Node.ofSource source = .error error ∧
      (error = .readFailed cause ∨ Node.ofBytes source.content = .error error) := by
  have fresh := Stream.ofSource_fresh source
  have whole := Stream.ofBytes_fresh (source.content ++ missing)
  rw [failing] at fresh
  have valid := validate_eq_ok_iff.1 accepted
  have direct {ε : Type} (builder : Builder ε) : ∃ error, Reading.document builder (.ofSource source) = .error error ∧
      (Pairing.failing cause).Spoilt error := by
    obtain ⟨error, failed, spoilt | failed'⟩ := Reading.document_failing builder fresh whole (List.prefix_append _ _)
    · exact ⟨error, failed, spoilt⟩
    · obtain ⟨tag, inside, document⟩ := valid
      obtain ⟨s', ran⟩ := Reading.document_complete builder document
      cases failed'.symm.trans ran
  refine ⟨?_, ?_, fresh.tree_failing⟩
  · obtain ⟨error, failed, spoilt⟩ := direct .nothing
    exact ⟨error, by rw [validate, failed]; rfl, spoilt⟩
  · obtain ⟨error, failed, spoilt⟩ := direct .entries
    exact ⟨error, by rw [Value.ofStream, failed]; rfl, spoilt⟩

/-- A closing name that breaks off is compared with the opening name before the failure is looked for. A string that
breaks off is a character that no tag may hold, and so is the first half of `/>`; a comment whose opening breaks off is
taken for a second root. -/
theorem fragment_faults : validate (.ofBytes (bytes "<abc></abc>")) = .ok () ∧
    validate (.ofSource (.inPieces 3 false (bytes "<abc></ab") (.failure "gone"))) =
      .error (.malformed (.mismatchedTags "abc" "ab") ⟨7, 1, 8⟩) ∧
    validate (.ofBytes (bytes "<a x='b'/>")) = .ok () ∧
    Node.ofSource (.inPieces 3 false (bytes "<a x='b") (.failure "gone")) =
      .error (.malformed .unterminatedString ⟨5, 1, 6⟩) ∧
    validate (.ofBytes (bytes "<a/><!---->")) = .ok () ∧
    Node.ofSource (.inPieces 3 false (bytes "<a/") (.failure "gone")) =
      .error (.malformed (.unexpectedToken .restOfTag (.lexeme .text "/")) ⟨2, 1, 3⟩) ∧
    Node.ofSource (.inPieces 3 false (bytes "<a/><!") (.failure "gone")) =
      .error (.malformed .trailingContent ⟨4, 1, 5⟩) :=
  ⟨by rfl, by rfl, by rfl, by rfl, by rfl, by rfl, by rfl⟩

theorem reading_of_fragment_closing :
    let source := Source.inPieces 3 false (bytes "<abc></ab") (.failure "gone")
    (∃ error, validate (.ofSource source) = .error error ∧ (error = .readFailed "gone" ∨
      ∃ fault place, error = .malformed fault place ∧ fault.IsOfFragment)) ∧
    (∃ error, Value.ofStream (.ofSource source) = .error error ∧ (error = .readFailed "gone" ∨
      ∃ fault place, error = .malformed fault place ∧ fault.IsOfFragment)) ∧
    ∃ error, Node.ofSource source = .error error ∧
      (error = .readFailed "gone" ∨ Node.ofBytes (bytes "<abc></ab") = .error error) :=
  reading_of_fragment (.inPieces 3 false (bytes "<abc></ab") (.failure "gone")) (bytes "c>") rfl (by rfl)

end XmlBinding
