import XmlBinding.Proofs.Lookahead

/-! How a source cuts its bytes into reads has no bearing on what a stream answers. A scan answers for all
the bytes that are still to come, wherever the reads end; what it takes in and gives up on the way changes
neither the place, nor these bytes, nor those held since the mark. -/
namespace XmlBinding

/-- What every scan of the readers obeys. An early answer stands when more bytes arrive, and the bytes an
answer speaks of have all been seen. -/
structure Scan.Regular (scan : Scan α) (reach : α → Nat) : Prop where
  settled : scan.Settled
  keeps : ∀ {seen more result}, scan.early seen = some result → scan.early (seen ++ more) = some result
  within : ∀ seen, reach (scan.whole seen) ≤ seen.length

namespace Scan

theorem available_regular (n : Nat) : (available n).Regular (fun found => if found then n else 0) where
  settled := available_settled n
  keeps answered := by
    simp only [early_available, Option.ite_none_right_eq_some, hasAtLeast_iff, List.length_append] at answered ⊢
    exact ⟨by omega, answered.2⟩
  within seen := by
    cases found : (available n).whole seen with
    | false => exact Nat.zero_le _
    | true => exact hasAtLeast_iff.1 found

theorem byteAt_regular (n : Nat) : (byteAt n).Regular (fun found => if found.isSome then n + 1 else 0) where
  settled := byteAt_settled n
  keeps answered := by
    simp only [early_byteAt, Option.map_eq_some_iff] at answered ⊢
    obtain ⟨b, found, rfl⟩ := answered
    exact ⟨b, by rw [List.getElem?_append_left (List.getElem?_eq_some_iff.1 found).1, found], rfl⟩
  within seen := by
    change (if seen[n]?.isSome then n + 1 else 0) ≤ seen.length
    cases found : seen[n]? with
    | none => exact Nat.zero_le _
    | some b => exact (List.getElem?_eq_some_iff.1 found).1

theorem startsWith_regular (literal : List UInt8) :
    (startsWith literal).Regular (fun found => if found then literal.length else 0) where
  settled := startsWith_settled literal
  keeps {seen more _} answered := by
    have kept := (startsWith_settled literal).final seen more _ answered
    simp only [early_startsWith, Option.ite_none_right_eq_some, hasAtLeast_iff, List.length_append] at answered ⊢
    exact ⟨by omega, congrArg Option.some kept⟩
  within seen := by
    cases found : (startsWith literal).whole seen with
    | false => exact Nat.zero_le _
    | true => exact (List.isPrefixOf_iff_prefix.1 found).length_le

theorem spaces_regular : spaces.Regular id where
  settled := spaces_settled
  keeps {seen more _} answered := by
    have kept := spaces_settled.final seen more _ answered
    rw [early_spaces, kept]
    simp only [early_spaces, Option.ite_none_right_eq_some, Option.some.injEq] at answered
    obtain ⟨shorter, rfl⟩ := answered
    rw [if_pos (Nat.lt_of_lt_of_le shorter (List.sublist_append_left seen more).length_le)]
  within seen := (List.takeWhile_sublist _).length_le

theorem indexOf?_within {needle seen : List UInt8} {k : Nat} (found : indexOf? needle seen = some k) :
    k + needle.length ≤ seen.length := by
  obtain ⟨bound, here, -⟩ := indexOf?_eq_some_iff.1 found
  have fits := here.length_le
  rw [List.length_drop] at fits
  omega

theorem find_regular (needle : List UInt8) :
    (find needle).Regular (fun found => found.elim 0 (· + needle.length)) where
  settled := find_settled needle
  keeps answered := by
    simp only [early_find, Option.map_eq_some_iff] at answered ⊢
    obtain ⟨k, found, rfl⟩ := answered
    exact ⟨k, indexOf?_append found _, rfl⟩
  within seen := by
    cases found : (find needle).whole seen with
    | none => exact Nat.zero_le _
    | some k => exact indexOf?_within found

theorem textLength_regular : textLength.Regular id where
  settled := textLength_settled
  keeps answered := by
    rw [early_textLength] at answered ⊢
    exact indexOf?_append answered _
  within seen := by
    simp only [textLength, id]
    cases found : indexOf? [0x3C] seen with
    | none => exact Nat.le_refl _
    | some k => exact Nat.le_trans (Nat.le_add_right _ _) (indexOf?_within found)

/-- Where no tag begins there is text. -/
theorem textLength_some {seen : List UInt8} (more : 0 < seen.length)
    (untagged : [0x3C].isPrefixOf seen = false) : 1 ≤ textLength.whole seen := by
  simp only [textLength]
  cases seen with
  | nil => cases more
  | cons b rest =>
    simp only [indexOf?, untagged]
    cases indexOf? [0x3C] rest <;> simp

theorem nameLength_regular : nameLength.Regular id where
  settled := nameLength_settled
  keeps answered := by
    rename_i seen more _
    rw [early_nameLength] at answered ⊢
    split at answered
    · cases answered
    · rename_i ended
      cases answered
      have extent : Text.nameExtent true 0 seen = (Text.nameLength seen, false) :=
        Prod.ext rfl (Bool.not_eq_true _ ▸ ended)
      rw [Text.nameLength, nameExtent_append extent]
      rfl
  within seen := by
    rcases Nat.eq_zero_or_pos (Text.nameLength seen) with none | some
    · exact Nat.le_trans (Nat.le_of_eq none) (Nat.zero_le _)
    · obtain ⟨chars, rest, split, length, -⟩ := Text.nameLength_pos some
      have total := congrArg List.length split
      rw [List.length_append, ← length] at total
      exact Nat.le.intro total.symm

theorem closingQuote?_within {quote : UInt8} {seen : List UInt8} {k : Nat}
    (found : closingQuote? quote seen = some k) : k < seen.length := by
  fun_induction closingQuote? quote seen generalizing k with
  | case1 => cases found
  | case2 b rest closes =>
    cases found
    exact Nat.succ_pos _
  | case3 => cases found
  | case4 b other escape next rest ih =>
    obtain ⟨k, inner, rfl⟩ := Option.map_eq_some_iff.1 found
    have := ih inner
    simp only [List.length_cons]
    omega
  | case5 b rest other plain ih =>
    obtain ⟨k, inner, rfl⟩ := Option.map_eq_some_iff.1 found
    have := ih inner
    simp only [List.length_cons]
    omega

theorem quotedLength_regular : quotedLength.Regular (·.getD 0) where
  settled := quotedLength_settled
  keeps answered := by
    rename_i seen more _
    have kept := quotedLength_settled.final seen more _ answered
    simp only [early_quotedLength, Option.map_eq_some_iff] at answered ⊢
    obtain ⟨k, -, rfl⟩ := answered
    exact ⟨k, kept, rfl⟩
  within seen := by
    cases seen with
    | nil => exact Nat.le_refl _
    | cons quote rest =>
      simp only [quotedLength, quotedLength?]
      cases found : closingQuote? quote rest with
      | none => exact Nat.zero_le _
      | some k => exact Nat.succ_le_succ (closingQuote?_within found)

theorem charLength_regular : charLength.Regular id where
  settled := charLength_settled
  keeps answered := by
    rename_i seen more _
    rw [early_charLength] at answered ⊢
    cases seen with
    | nil => cases answered
    | cons b rest =>
      simp only [List.cons_append, Option.ite_none_right_eq_some, hasAtLeast_iff,
        List.length_cons, List.length_append] at answered ⊢
      exact ⟨by omega, answered.2⟩
  within seen := by
    cases seen with
    | nil => exact Nat.le_refl _
    | cons b rest =>
      simp only [charLength, hasAtLeast_iff, id]
      split
      · assumption
      · exact Nat.succ_le_succ (Nat.zero_le _)

end Scan

/-- The failure that is the ending, if it is one. -/
def Ending.cause? : Ending → Option String
  | .endOfInput => none
  | .failure cause => some cause

namespace Stream

/-- The bytes from the cursor on, read already or not. -/
def rest (s : Stream) : List UInt8 :=
  s.ahead ++ s.source.elim [] Source.content

/-- The failure the stream has not met yet. -/
def pending? (s : Stream) : Option String :=
  s.source.bind (·.ending.cause?)

/-- The bytes since an offset are held, and at least `ready` bytes ahead have been read. -/
structure Holds (start ready : Nat) (s : Stream) : Prop where
  marked : s.mark ≤ start
  before : start ≤ s.offset
  held : s.offset - start ≤ s.behind.length
  ready : ready ≤ s.ahead.length

/-- What taking in more of the input leaves as it was. -/
structure Same (start : Nat) (s s' : Stream) : Prop where
  position : s'.position = s.position
  rest : s'.rest = s.rest
  held : s'.bytesFrom start = s.bytesFrom start

variable {s s' : Stream} {start ready : Nat}

theorem Holds.weaken (holds : s.Holds start ready) (fewer : less ≤ ready) : s.Holds start less :=
  { holds with ready := Nat.le_trans fewer holds.ready }

/-- Compaction gives up nothing that has to be held. -/
theorem compact_holds (holds : s.Holds start ready) :
    s.compact.Holds start ready ∧ s.compact.bytesFrom start = s.bytesFrom start := by
  have marked := holds.marked
  have held := holds.held
  unfold compact
  dsimp only
  split
  · have enough : s.offset - start ≤ s.behind.length - min (s.mark - s.base) s.behind.length := by
      simp only [base]
      omega
    refine ⟨⟨marked, holds.before, ?_, holds.ready⟩, ?_⟩
    · exact Nat.le_trans (Nat.le_min.2 ⟨enough, held⟩) (List.length_take ▸ Nat.le_refl _)
    · exact congrArg List.reverse ((List.take_take ..).trans (congrArg (s.behind.take ·) (Nat.min_eq_left enough)))
  · exact ⟨holds, rfl⟩

theorem compact_fields (s : Stream) : s.compact.position = s.position ∧ s.compact.ahead = s.ahead ∧
    s.compact.source = s.source ∧ s.compact.failure = s.failure := by
  unfold compact
  dsimp only
  split <;> exact ⟨rfl, rfl, rfl, rfl⟩

/-- A scan is answered for the whole rest of the input. The ending is met exactly if even the whole rest
does not settle the answer early. -/
structure Answers (scan : Scan α) (reach : α → Nat) (start ready : Nat) (s : Stream) (given : α × Stream) :
    Prop where
  result : given.1 = scan.whole s.rest
  same : Same start s given.2
  holds : given.2.Holds start (max ready (reach given.1))
  early : (scan.early s.rest).isSome → given.2.failure = s.failure ∧ given.2.pending? = s.pending?
  ended : scan.early s.rest = none → given.2.failure = s.pending?.or s.failure ∧ given.2.source = none

private theorem answers_early {scan : Scan α} (regular : scan.Regular reach) (holds : s.Holds start ready)
    (answered : scan.early s.ahead = some result) : Answers scan reach start ready s (result, s) := by
  have whole := regular.settled.final s.ahead [] result answered
  have within := regular.within (s.ahead ++ [])
  have further : scan.early s.rest = some result := regular.keeps answered
  rw [whole, List.append_nil] at within
  refine ⟨(regular.settled.final s.ahead _ result answered).symm, ⟨rfl, rfl, rfl⟩,
    { holds with ready := Nat.max_le.2 ⟨holds.ready, within⟩ }, fun _ => ⟨rfl, rfl⟩, fun none => ?_⟩
  rw [further] at none
  cases none

private theorem answers_ended {scan : Scan α} (regular : scan.Regular reach) (holds : s.Holds start ready)
    (unanswered : scan.early s.ahead = none) (ending : Ending) :
    Answers scan reach start ready { s with source := some ⟨[], ending⟩ }
      (scan.whole s.ahead, s.compact.close ending) := by
  obtain ⟨kept, bytes⟩ := compact_holds holds
  obtain ⟨position, ahead, -, failure⟩ := compact_fields s
  have nothing : ({ s with source := some ⟨[], ending⟩ } : Stream).rest = s.ahead := List.append_nil _
  have within := regular.within s.ahead
  have closed : (s.compact.close ending).Holds start ready := by cases ending <;> exact ⟨kept.1, kept.2, kept.3, kept.4⟩
  have still : (s.compact.close ending).position = s.compact.position ∧
      (s.compact.close ending).rest = s.compact.ahead ∧
      (s.compact.close ending).ahead = s.compact.ahead ∧
      (s.compact.close ending).bytesFrom start = s.compact.bytesFrom start := by
    cases ending <;> exact ⟨rfl, List.append_nil _, rfl, rfl⟩
  obtain ⟨position', rest', ahead', bytes'⟩ := still
  refine ⟨by rw [nothing], ⟨position'.trans position, by rw [rest', ahead, nothing], bytes'.trans bytes⟩,
    { closed with ready := Nat.max_le.2 ⟨closed.ready, by rw [ahead', ahead]; exact within⟩ }, fun some => ?_,
    fun _ => ?_⟩
  · rw [nothing, unanswered] at some
    cases some
  · cases ending
    · exact ⟨failure, rfl⟩
    · exact ⟨rfl, rfl⟩

theorem answer_answers {scan : Scan α} (regular : scan.Regular reach) (ending : Ending) (reads : List Read)
    (holds : s.Holds start ready) (dealt : scan.Dealt done s.ahead) :
    Answers scan reach start ready { s with source := some ⟨reads, ending⟩ } (answer scan ending reads done s) := by
  induction reads generalizing s done with
  | nil =>
    unfold answer
    split
    · rename_i result answered
      exact answers_early (s := { s with source := some ⟨[], ending⟩ }) regular ⟨holds.1, holds.2, holds.3, holds.4⟩
        (regular.settled.look dealt answered)
    · rename_i stopped
      exact answers_ended regular holds (regular.settled.unanswered dealt stopped) ending
  | cons read later ih =>
    unfold answer
    split
    · rename_i result answered
      exact answers_early (s := { s with source := some ⟨read :: later, ending⟩ }) regular
        ⟨holds.1, holds.2, holds.3, holds.4⟩ (regular.settled.look dealt answered)
    · rename_i further stopped
      obtain ⟨kept, bytes⟩ := compact_holds holds
      obtain ⟨position, ahead, -, failure⟩ := compact_fields s
      have received : (s.compact.receive read).ahead = s.ahead ++ read.content := by rw [receive, ahead]
      have more : s.ahead.length ≤ (s.compact.receive read).ahead.length := by
        rw [received, List.length_append]
        omega
      have rest : ({ s.compact.receive read with source := some ⟨later, ending⟩ } : Stream).rest =
          ({ s with source := some ⟨read :: later, ending⟩ } : Stream).rest := by
        simp [Stream.rest, receive, ahead, Source.content]
      obtain ⟨result, same, held, early, ended⟩ :=
        ih (s := s.compact.receive read) ⟨kept.1, kept.2, kept.3, Nat.le_trans holds.ready more⟩
          (received ▸ dealt.later stopped)
      rw [rest] at result early ended
      refine ⟨result, ⟨same.position.trans position, same.rest.trans rest, same.held.trans bytes⟩, held, ?_, ?_⟩
      · intro some
        exact ⟨(early some).1.trans failure, (early some).2⟩
      · intro none
        exact ⟨(ended none).1.trans (congrArg _ failure), (ended none).2⟩

/-- However the rest of the input arrives, a scan is answered for all of it. -/
theorem run_answers {scan : Scan α} (regular : scan.Regular reach) (holds : s.Holds start ready) :
    Answers scan reach start ready s (s.run scan) := by
  unfold run
  split
  · rename_i exhausted
    have all : s.rest = s.ahead := by simp [rest, exhausted]
    cases answered : scan.early s.ahead with
    | some result => exact answers_early regular holds answered
    | none =>
      have within := regular.within s.ahead
      refine ⟨by rw [all]; rfl, ⟨rfl, rfl, rfl⟩,
        { holds with ready := Nat.max_le.2 ⟨holds.ready, within⟩ }, fun some => ?_, fun _ => ?_⟩
      · rw [all, answered] at some
        cases some
      · simp [pending?, exhausted]
  · rename_i source exhausted
    have whole := answer_answers regular source.ending source.reads holds .start
    rwa [← exhausted] at whole

theorem advance_holds (holds : s.Holds start ready) (enough : n ≤ ready) :
    (s.advance n).Holds start (ready - n) ∧ (s.advance n).position = s.position.advance (s.rest.take n) ∧
      (s.advance n).rest = s.rest.drop n ∧
      (s.advance n).bytesFrom start = s.bytesFrom start ++ s.rest.take n := by
  have there : n ≤ s.ahead.length := Nat.le_trans enough holds.ready
  have taken : s.ahead.take n = s.rest.take n := (List.take_append_of_le_length there).symm
  have offset : (s.advance n).offset = s.offset + n := by
    change (s.position.advance _).offset = _
    rw [Position.advance_offset, List.length_take, Nat.min_eq_left there]
    rfl
  obtain ⟨marked, before, held, ready⟩ := holds
  refine ⟨⟨marked, by omega, ?_, ?_⟩, congrArg s.position.advance taken, (List.drop_append_of_le_length there).symm, ?_⟩
  · rw [offset]
    simp only [advance, List.length_append, List.length_reverse, List.length_take]
    omega
  · simp only [advance, List.length_drop]
    omega
  · have length : s.offset + n - start = (s.ahead.take n).reverse.length + (s.offset - start) := by
      rw [List.length_reverse, List.length_take]
      omega
    rw [bytesFrom, offset, length, ← taken]
    change ((((s.ahead.take n).reverse ++ s.behind).take _)).reverse = _
    rw [List.take_length_add_append, List.reverse_append, List.reverse_reverse]
    rfl

theorem setMark_holds (holds : s.Holds start ready) : s.setMark.Holds s.offset ready :=
  ⟨Nat.le_refl _, Nat.le_refl _, by simp [setMark, offset], holds.ready⟩

end Stream
end XmlBinding
