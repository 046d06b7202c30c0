import XmlBinding.Input.Operation
import XmlBinding.Proofs.Pieces

/-! A stream that reads as it is asked against one whose bytes are all there. What is held is at any time a stretch of
the input, from the base over the cursor to what has been read; giving up bytes before the mark and taking in more
bytes ahead keep it one. Every answer therefore is an answer about the input at the cursor, and no operation can tell
the two streams apart. -/
namespace XmlBinding
open Text

namespace Stream

/-- What a stream holds, as a stretch of an input. -/
structure Represents (s : Stream) (input : List UInt8) : Prop where
  /-- The base is not before the beginning of the input. -/
  held : s.behind.length ≤ s.offset
  /-- From the base on the input is what is held and what is still to be read. -/
  buffer : s.behind.reverse ++ s.rest = input.drop s.base
  /-- Nothing has been given up from the mark on. -/
  kept : s.base ≤ s.mark
  marked : s.mark ≤ s.offset
  inside : s.offset ≤ input.length
  place : s.position = Position.start.advance (input.take s.offset)

theorem Fresh.represents {s : Stream} (fresh : s.Fresh input cause?) : s.Represents input where
  held := by simp [fresh.behind]
  buffer := by simp [base, offset, fresh.behind, fresh.position, fresh.rest, Position.start]
  kept := by simp [base, offset, fresh.position, Position.start]
  marked := by simp [fresh.mark]
  inside := by simp [offset, fresh.position, Position.start]
  place := by simp [offset, fresh.position, Position.start, Position.advance_nil]

namespace Represents
variable {s t : Stream} {input : List UInt8}

theorem base_add (represents : s.Represents input) : s.base + s.behind.length = s.offset :=
  Nat.sub_add_cancel represents.held

/-- What is to come is the input from the cursor on. -/
theorem rest (represents : s.Represents input) : s.rest = input.drop s.offset := by
  have dropped := congrArg (List.drop s.behind.reverse.length) represents.buffer
  rwa [List.drop_left, List.drop_drop, List.length_reverse, represents.base_add] at dropped

/-- What is behind the cursor is the input from the base on. -/
theorem behind (represents : s.Represents input) : s.behind.reverse = (input.take s.offset).drop s.base := by
  have taken := congrArg (List.take s.behind.reverse.length) represents.buffer
  rw [List.take_left, List.take_drop, List.length_reverse, represents.base_add] at taken
  exact taken

/-- From a start behind the mark the bytes held are those of the input. -/
theorem bytesFrom (represents : s.Represents input) (marked : s.mark ≤ start) (before : start ≤ s.offset) :
    s.bytesFrom start = (input.take s.offset).drop start := by
  have based := represents.base_add
  have kept := represents.kept
  rw [Stream.bytesFrom, List.reverse_take, represents.behind, List.drop_drop]
  exact congrArg (List.drop · _) (by omega)

/-- All from the mark on is held. -/
theorem holds (represents : s.Represents input) : s.Holds s.mark s.ahead.length where
  marked := Nat.le_refl _
  before := represents.marked
  held := by
    have based := represents.base_add
    have kept := represents.kept
    omega
  ready := Nat.le_refl _

/-- It makes no difference where the bytes to come are kept. -/
theorem same (represents : s.Represents input) (behind : t.behind = s.behind) (mark : t.mark = s.mark)
    (position : t.position = s.position) (rest : t.rest = s.rest) : t.Represents input := by
  have offset : t.offset = s.offset := congrArg Position.offset position
  have base : t.base = s.base := by rw [Stream.base, Stream.base, offset, behind]
  constructor
  case held => rw [behind, offset]; exact represents.held
  case buffer => rw [behind, rest, base]; exact represents.buffer
  case kept => rw [base, mark]; exact represents.kept
  case marked => rw [mark, offset]; exact represents.marked
  case inside => rw [offset]; exact represents.inside
  case place => rw [position, offset]; exact represents.place

/-- Giving up bytes before the mark moves the base towards it, and not beyond. -/
theorem cut (represents : s.Represents input) (fewer : spare ≤ s.behind.length) (before : s.base + spare ≤ s.mark) :
    ({ s with behind := s.behind.take (s.behind.length - spare) } : Stream).Represents input := by
  have based := represents.base_add
  have base : s.offset - (s.behind.take (s.behind.length - spare)).length = s.base + spare := by
    rw [List.length_take]
    omega
  have behind : (s.behind.take (s.behind.length - spare)).reverse = s.behind.reverse.drop spare := by
    rw [List.reverse_take]
    exact congrArg (List.drop · _) (by omega)
  refine ⟨?_, ?_, Nat.le_trans (Nat.le_of_eq base) before, represents.marked, represents.inside, represents.place⟩
  · exact Nat.le_trans (List.length_take_le' _ _) represents.held
  · change (s.behind.take (s.behind.length - spare)).reverse ++ s.rest =
      input.drop (s.offset - (s.behind.take (s.behind.length - spare)).length)
    rw [← List.length_reverse] at fewer
    rw [base, ← List.drop_drop, ← represents.buffer, behind, List.drop_append_of_le_length fewer]

end Represents

/-- Compaction gives up bytes before the mark, or none. -/
theorem compact_cuts (s : Stream) (kept : s.base ≤ s.mark) : ∃ spare ≤ s.behind.length, s.base + spare ≤ s.mark ∧
    s.compact = { s with behind := s.behind.take (s.behind.length - spare) } := by
  unfold compact
  dsimp only
  split
  · exact ⟨_, Nat.min_le_right _ _, by omega, rfl⟩
  · exact ⟨0, Nat.zero_le _, kept, by rw [Nat.sub_zero, List.take_length]⟩

theorem compact_mark (s : Stream) : s.compact.mark = s.mark :=
  (apply_ite Stream.mark _ _ _).trans (ite_self _)

/-- No question moves the mark. -/
theorem run_mark (s : Stream) (scan : Scan α) : (s.run scan).2.mark = s.mark := by
  have answer (ending : Ending) (reads : List Read) (done : Nat) (s : Stream) :
      (answer scan ending reads done s).2.mark = s.mark := by
    induction reads generalizing done s with
    | nil =>
      unfold Stream.answer
      split
      · rfl
      · cases ending <;> exact s.compact_mark
    | cons read later ih =>
      unfold Stream.answer
      split
      · rfl
      · exact (ih _ _).trans s.compact_mark
  unfold run
  split
  · rfl
  · exact answer _ _ _ s

/-- However a scan is answered, what is held stays a stretch of the input. -/
theorem answer_represents {scan : Scan α} {ending : Ending} {reads : List Read} {done : Nat} {s : Stream}
    (represents : ({ s with source := some ⟨reads, ending⟩ } : Stream).Represents input) :
    (answer scan ending reads done s).2.Represents input := by
  obtain ⟨spare, fewer, before, compacted⟩ := s.compact_cuts represents.kept
  have left := represents.cut fewer before
  induction reads generalizing s done spare with
  | nil =>
    unfold answer
    split
    · exact represents
    · rw [compacted]
      cases ending <;> exact left.same rfl rfl rfl rfl
  | cons read later ih =>
    unfold answer
    split
    · exact represents
    · have received : ({ s.compact.receive read with source := some ⟨later, ending⟩ } : Stream).Represents input := by
        rw [compacted]
        exact left.same rfl rfl rfl (by simp [Stream.rest, receive, Source.content])
      obtain ⟨spare, fewer, before, compacted⟩ := (s.compact.receive read).compact_cuts received.kept
      exact ih received spare fewer before compacted (received.cut fewer before)

theorem advance_offset (s : Stream) (n : Nat) : (s.advance n).offset = s.offset + min n s.ahead.length := by
  change (s.position.advance (s.ahead.take n)).offset = _
  rw [Position.advance_offset, List.length_take]
  rfl

/-- No more is moved over than was asked for. -/
theorem advance_left (s : Stream) (n : Nat) : s.ahead.length ≤ (s.advance n).ahead.length + n := by
  change s.ahead.length ≤ (s.ahead.drop n).length + n
  rw [List.length_drop]
  omega

namespace Represents
variable {s t : Stream} {input : List UInt8}

/-- No question is the end of what is held. -/
theorem ask (represents : s.Represents input) (scan : Scan α) : (s.run scan).2.Represents input := by
  unfold Stream.run
  split
  · exact represents
  · rename_i source waiting
    refine answer_represents ?_
    rw [← waiting]
    exact represents

/-- A scan is answered for the input from the cursor on; what it reaches has been read. -/
theorem run (represents : s.Represents input) {scan : Scan α} (regular : scan.Regular reach) :
    ∃ s', s.run scan = (scan.whole (input.drop s.offset), s') ∧ s'.Represents input ∧ s'.position = s.position ∧
      s'.mark = s.mark ∧ max s.ahead.length (reach (scan.whole (input.drop s.offset))) ≤ s'.ahead.length := by
  have answers := run_answers regular represents.holds
  have result := answers.result.trans (congrArg scan.whole represents.rest)
  have ready := answers.holds.ready
  rw [result] at ready
  exact ⟨_, Prod.ext result rfl, represents.ask scan, answers.same.position, s.run_mark scan, ready⟩

theorem setMark (represents : s.Represents input) : s.setMark.Represents input where
  held := represents.held
  buffer := represents.buffer
  kept := Nat.le_trans represents.kept represents.marked
  marked := Nat.le_refl _
  inside := represents.inside
  place := represents.place

/-- The cursor moves along the input, and nothing is given up. -/
theorem advance (represents : s.Represents input) (n : Nat) : (s.advance n).Represents input := by
  have offset := s.advance_offset n
  have behind : (s.advance n).behind.length = s.behind.length + min n s.ahead.length := by
    change ((s.ahead.take n).reverse ++ s.behind).length = _
    rw [List.length_append, List.length_reverse, List.length_take, Nat.add_comm]
  have base : (s.advance n).base = s.base := by
    rw [Stream.base, Stream.base, offset, behind, Nat.add_sub_add_right]
  have moved : s.ahead.take n = (input.drop s.offset).take (min n s.ahead.length) := by
    rw [← represents.rest, Stream.rest, List.take_append_of_le_length (Nat.min_le_right _ _), ← List.take_take]
    simp
  have room := congrArg List.length represents.rest
  rw [Stream.rest, List.length_append, List.length_drop] at room
  have inside := represents.inside
  refine ⟨?_, ?_, base ▸ represents.kept, ?_, ?_, ?_⟩
  · rw [behind, offset]
    exact Nat.add_le_add_right represents.held _
  · have whole : (s.advance n).behind.reverse ++ (s.advance n).rest = s.behind.reverse ++ s.rest := by
      change ((s.ahead.take n).reverse ++ s.behind).reverse ++ (s.ahead.drop n ++ s.source.elim [] Source.content) = _
      rw [List.reverse_append, List.reverse_reverse, List.append_assoc, ← List.append_assoc (s.ahead.take n),
        List.take_append_drop]
      rfl
    rw [whole, base]
    exact represents.buffer
  · rw [offset]
    exact Nat.le_trans represents.marked (Nat.le_add_right _ _)
  · omega
  · rw [offset, List.take_add, Position.advance_append, ← represents.place, ← moved]
    rfl

end Represents
end Stream

namespace Operation

/-- An operation moves over no more bytes than have been read, as those have that an answer speaks of, and reads back
no more than has to be held. -/
def Allowed (s : Stream) : Operation → Prop
  | advance n => n ≤ s.ahead.length
  | textFrom start | checkFrom start => s.mark ≤ start ∧ start ≤ s.offset
  | _ => True

instance decidableAllowed (s : Stream) : (op : Operation) → Decidable (op.Allowed s)
  | advance n => inferInstanceAs (Decidable (n ≤ s.ahead.length))
  | textFrom start | checkFrom start => inferInstanceAs (Decidable (s.mark ≤ start ∧ start ≤ s.offset))
  | mark | fill _ | isAtEnd | peek | byteAt _ | startsWith _ | eat _ | skipSpace | find _ | findByte _ | textLength
  | nameLength | quotedLength | charLength => .isTrue trivial

/-- The text of an input from a start up to a place. -/
def spelled (input : List UInt8) (place : Position) (start : Nat) : Except Error String :=
  match ofBytes? ((input.take place.offset).drop start) with
  | some text => .ok text
  | none => .error (.malformed .invalidText place)

/-- What an operation answers where an input has been passed up to a place. -/
def answer (input : List UInt8) (place : Position) : Operation → Answer
  | mark => .offset place.offset
  | fill n => .flag (hasAtLeast n (input.drop place.offset))
  | isAtEnd => .flag (input.drop place.offset).isEmpty
  | peek => .byte (input.drop place.offset).head?
  | byteAt index => .byte (input.drop place.offset)[index]?
  | startsWith literal | eat literal => .flag (literal.isPrefixOf (input.drop place.offset))
  | advance _ | skipSpace => .nothing
  | find needle => .distance (Scan.indexOf? needle (input.drop place.offset))
  | findByte b => .distance (Scan.indexOf? [b] (input.drop place.offset))
  | textLength => .length (Scan.textLength.whole (input.drop place.offset))
  | nameLength => .length (Text.nameLength (input.drop place.offset))
  | quotedLength => .distance (Scan.quotedLength? (input.drop place.offset))
  | charLength => .length (Scan.charLength.whole (input.drop place.offset))
  | textFrom start => .text (spelled input place start)
  | checkFrom start => .check ((spelled input place start).map fun _ => ())

/-- Over how many of the bytes ahead an operation moves. -/
def moves (ahead : List UInt8) : Operation → Nat
  | advance n => n
  | eat literal => if literal.isPrefixOf ahead then literal.length else 0
  | skipSpace => Scan.spaces.whole ahead
  | _ => 0

/-- The mark behind an operation. -/
def markAfter (offset mark : Nat) : Operation → Nat
  | .mark => offset
  | _ => mark

/-- How many of the bytes ahead an answer speaks of. -/
def measured : Operation → Answer → Nat
  | fill n, .flag true => n
  | isAtEnd, .flag false => 1
  | peek, .byte (some _) => 1
  | byteAt index, .byte (some _) => index + 1
  | startsWith literal, .flag true => literal.length
  | find needle, .distance (some distance) => distance + needle.length
  | findByte _, .distance (some distance) => distance + 1
  | textLength, .length length | nameLength, .length length | charLength, .length length => length
  | quotedLength, .distance (some length) => length
  | _, _ => 0

/-- An operation has done on a stream what it does on the input that the stream represents. -/
structure Performed (op : Operation) (input : List UInt8) (s : Stream) (given : Answer × Stream) : Prop where
  answer : given.1 = op.answer input s.position
  represents : given.2.Represents input
  offset : given.2.offset = s.offset + op.moves (input.drop s.offset)
  mark : given.2.mark = op.markAfter s.offset s.mark
  measured : op.measured given.1 ≤ given.2.ahead.length
  left : s.ahead.length ≤ given.2.ahead.length + op.moves (input.drop s.offset)

end Operation

namespace Stream.Represents
variable {s : Stream} {input : List UInt8} (represents : s.Represents input)
include represents

theorem textFrom (marked : s.mark ≤ start) (before : start ≤ s.offset) :
    s.textFrom start = Operation.spelled input s.position start := by
  rw [Stream.textFrom, represents.bytesFrom marked before]
  rfl

/-- A question that leaves the cursor where it is. -/
theorem asked {op : Operation} {scan : Scan α} (regular : scan.Regular reach) (make : α → Answer)
    (performs : s.perform op = (make (s.run scan).1, (s.run scan).2))
    (answers : op.answer input s.position = make (scan.whole (input.drop s.offset)))
    (stays : op.moves (input.drop s.offset) = 0) (unmarked : op.markAfter s.offset s.mark = s.mark)
    (measures : ∀ result, op.measured (make result) ≤ reach result) : op.Performed input s (s.perform op) := by
  obtain ⟨s', ran, there, position, mark, ready⟩ := represents.run regular
  rw [performs, ran]
  refine ⟨answers.symm, there, ?_, mark.trans unmarked.symm, ?_, ?_⟩
  · rw [stays]
    exact congrArg Position.offset position
  · exact Nat.le_trans (measures _) (Nat.le_trans (Nat.le_max_right _ _) ready)
  · rw [stays]
    exact Nat.le_trans (Nat.le_max_left _ _) ready

/-- A question, and moving over bytes that its answer speaks of. -/
theorem moved {op : Operation} {scan : Scan α} (regular : scan.Regular reach) {given : Answer} {n : Nat}
    (enough : n ≤ reach (scan.whole (input.drop s.offset)))
    (performs : s.perform op = (given, (s.run scan).2.advance n)) (answers : op.answer input s.position = given)
    (moves : op.moves (input.drop s.offset) = n) (unmarked : op.markAfter s.offset s.mark = s.mark)
    (measures : op.measured given = 0) : op.Performed input s (s.perform op) := by
  obtain ⟨s', ran, there, position, mark, ready⟩ := represents.run regular
  have held : s.ahead.length ≤ s'.ahead.length := Nat.le_trans (Nat.le_max_left _ _) ready
  have offset := s'.advance_offset n
  rw [Nat.min_eq_left (Nat.le_trans enough (Nat.le_trans (Nat.le_max_right _ _) ready))] at offset
  rw [performs, ran]
  refine ⟨answers.symm, there.advance n, ?_, mark.trans unmarked.symm, ?_, ?_⟩
  · rw [moves]
    exact offset.trans (congrArg (Position.offset · + n) position)
  · rw [measures]
    exact Nat.zero_le _
  · rw [moves]
    exact Nat.le_trans held (s'.advance_left n)

/-- Each operation answers for the input and moves along it. -/
theorem perform (op : Operation) (allowed : op.Allowed s) : op.Performed input s (s.perform op) := by
  cases op with
  | mark => exact ⟨rfl, represents.setMark, rfl, rfl, Nat.zero_le _, Nat.le_refl _⟩
  | fill n =>
    refine represents.asked (Scan.available_regular n) .flag rfl rfl rfl rfl fun found => ?_
    cases found <;> exact Nat.le_refl _
  | isAtEnd =>
    refine represents.asked (Scan.available_regular 1) (fun found => .flag !found) rfl ?_ rfl rfl fun found => ?_
    · change Answer.flag (input.drop s.offset).isEmpty = .flag !hasAtLeast 1 (input.drop s.offset)
      cases input.drop s.offset <;> simp [hasAtLeast]
    · cases found <;> exact Nat.le_refl _
  | peek =>
    refine represents.asked (Scan.byteAt_regular 0) .byte rfl ?_ rfl rfl fun found => ?_
    · exact congrArg Answer.byte List.head?_eq_getElem?
    · cases found <;> exact Nat.le_refl _
  | byteAt index =>
    refine represents.asked (Scan.byteAt_regular index) .byte rfl rfl rfl rfl fun found => ?_
    cases found <;> exact Nat.le_refl _
  | startsWith literal =>
    refine represents.asked (Scan.startsWith_regular literal) .flag rfl rfl rfl rfl fun found => ?_
    cases found <;> exact Nat.le_refl _
  | find needle =>
    refine represents.asked (Scan.find_regular needle) .distance rfl rfl rfl rfl fun found => ?_
    cases found <;> exact Nat.le_refl _
  | findByte b =>
    refine represents.asked (Scan.find_regular [b]) .distance rfl rfl rfl rfl fun found => ?_
    cases found <;> exact Nat.le_refl _
  | textLength => exact represents.asked Scan.textLength_regular .length rfl rfl rfl rfl fun _ => Nat.le_refl _
  | nameLength => exact represents.asked Scan.nameLength_regular .length rfl rfl rfl rfl fun _ => Nat.le_refl _
  | charLength => exact represents.asked Scan.charLength_regular .length rfl rfl rfl rfl fun _ => Nat.le_refl _
  | quotedLength =>
    refine represents.asked Scan.quotedLength_regular .distance rfl rfl rfl rfl fun found => ?_
    cases found <;> exact Nat.le_refl _
  | advance n =>
    have offset := s.advance_offset n
    rw [Nat.min_eq_left allowed] at offset
    exact ⟨rfl, represents.advance n, offset, rfl, Nat.zero_le _, s.advance_left n⟩
  | eat literal =>
    have regular := Scan.startsWith_regular literal
    obtain ⟨s', ran, -⟩ := represents.run regular
    change s.run (.startsWith literal) = (literal.isPrefixOf (input.drop s.offset), s') at ran
    cases ahead : literal.isPrefixOf (input.drop s.offset) with
    | false =>
      have refused : s.perform (.eat literal) =
          (.flag (s.run (.startsWith literal)).1, (s.run (.startsWith literal)).2) := by
        simp only [Stream.perform, Stream.eat, Stream.startsWith, ran, ahead, Bool.false_eq_true, if_false]
      have stays : (Operation.eat literal).moves (input.drop s.offset) = 0 := by simp [Operation.moves, ahead]
      exact represents.asked regular .flag refused rfl stays rfl fun _ => Nat.zero_le _
    | true =>
      have ate : s.perform (.eat literal) =
          (.flag true, (s.run (.startsWith literal)).2.advance literal.length) := by
        simp only [Stream.perform, Stream.eat, Stream.startsWith, ran, ahead, if_true]
      have moves : (Operation.eat literal).moves (input.drop s.offset) = literal.length := by
        simp [Operation.moves, ahead]
      exact represents.moved regular (Nat.le_of_eq moves.symm) ate (congrArg Answer.flag ahead) moves rfl rfl
  | skipSpace =>
    obtain ⟨s', ran, -⟩ := represents.run Scan.spaces_regular
    have skipped : s.perform .skipSpace =
        (.nothing, (s.run .spaces).2.advance (Scan.spaces.whole (input.drop s.offset))) := by
      simp only [Stream.perform, Stream.skipSpace, ran]
    exact represents.moved Scan.spaces_regular (Nat.le_refl _) skipped rfl rfl rfl rfl
  | textFrom start =>
    obtain ⟨marked, before⟩ := allowed
    exact ⟨congrArg Answer.text (represents.textFrom marked before), represents, rfl, rfl, Nat.zero_le _,
      Nat.le_refl _⟩
  | checkFrom start =>
    obtain ⟨marked, before⟩ := allowed
    refine ⟨?_, represents, rfl, rfl, Nat.zero_le _, Nat.le_refl _⟩
    change Answer.check (s.checkFrom start) = .check _
    rw [Stream.checkFrom_eq, represents.textFrom marked before]

end Stream.Represents

namespace Stream

/-- The operations are allowed, each where the ones before it lead. -/
def Allows : Stream → List Operation → Prop
  | _, [] => True
  | s, op :: later => op.Allowed s ∧ (s.perform op).2.Allows later

instance decidableAllows : (s : Stream) → (operations : List Operation) → Decidable (s.Allows operations)
  | _, [] => .isTrue trivial
  | s, op :: later =>
    have := decidableAllows (s.perform op).2 later
    inferInstanceAs (Decidable (op.Allowed s ∧ (s.perform op).2.Allows later))

/-- What the operations answer, each with the position behind it. -/
def answers : Stream → List Operation → List (Answer × Position)
  | _, [] => []
  | s, op :: later => ((s.perform op).1, (s.perform op).2.position) :: (s.perform op).2.answers later

/-- Where the operations lead. -/
def after : Stream → List Operation → Stream
  | s, [] => s
  | s, op :: later => (s.perform op).2.after later

/-- What an operation can count on, and what its answer means. -/
structure Serves (input : List UInt8) (s : Stream) (op : Operation) : Prop where
  /-- The base is an offset of the input, and where a lexeme may begin is held. -/
  based : s.base + s.behind.length = s.offset ∧
    ∀ start, s.mark ≤ start → start ≤ s.offset → s.base ≤ start ∧ start - s.base ≤ s.behind.length
  /-- A text is that between its start and the cursor. -/
  text : ∀ start, op = .textFrom start → (s.perform op).1 = .text (match ofBytes? ((input.take s.offset).drop start) with
    | some text => .ok text
    | none => .error (.malformed .invalidText s.position))
  /-- What is found is the first occurrence, however it was cut. -/
  found : ∀ needle distance, op = .find needle → (s.perform op).1 = .distance (some distance) →
    needle <+: input.drop (s.offset + distance) ∧ ∀ nearer < distance, ¬ needle <+: input.drop (s.offset + nearer)
  missing : ∀ needle, op = .find needle → (s.perform op).1 = .distance none →
    ∀ distance, ¬ needle <+: input.drop (s.offset + distance)
  /-- What an answer speaks of has been read, and may be moved over. -/
  measured : op.measured (s.perform op).1 ≤ (s.perform op).2.ahead.length
  /-- It still may later, as nothing that has been read is lost but what is moved over. -/
  left : s.ahead.length ≤ (s.perform op).2.ahead.length + op.moves (input.drop s.offset)

/-- Two streams at the same place of an input, of which the second has read all of it. -/
structure Together (input : List UInt8) (s t : Stream) : Prop where
  first : s.Represents input
  second : t.Represents input
  offset : s.offset = t.offset
  mark : s.mark = t.mark
  whole : t.source = none

theorem Represents.serves {s : Stream} (represents : s.Represents input) (allowed : op.Allowed s) :
    s.Serves input op := by
  have performed := represents.perform op allowed
  have based := represents.base_add
  constructor
  case based =>
    refine ⟨based, fun start marked before => ⟨Nat.le_trans represents.kept marked, ?_⟩⟩
    omega
  case text =>
    rintro start rfl
    exact performed.answer
  case found =>
    rintro needle distance rfl found
    have index := Answer.distance.inj (performed.answer.symm.trans found)
    obtain ⟨-, here, first⟩ := Scan.indexOf?_eq_some_iff.1 index
    simp only [List.drop_drop] at here first
    exact ⟨here, first⟩
  case missing =>
    rintro needle rfl missing distance here
    have none := Answer.distance.inj (performed.answer.symm.trans missing)
    have there : needle <+: (input.drop s.offset).drop distance := by rwa [List.drop_drop]
    obtain ⟨index, found⟩ := Scan.indexOf?_of_prefix there
    cases none.symm.trans found
  case measured => exact performed.measured
  case left => exact performed.left

/-- A stream that has read its whole input asks for nothing more. -/
theorem perform_whole {t : Stream} (whole : t.source = none) (op : Operation) : (t.perform op).2.source = none := by
  have answered {α : Type} (scan : Scan α) : (t.run scan).2.source = none := by
    simp only [run, whole]
  cases op with
  | eat literal =>
    have found : (t.startsWith literal).2.source = none := answered _
    change (t.eat literal).2.source = none
    unfold eat
    generalize t.startsWith literal = result at found ⊢
    obtain ⟨ahead, t'⟩ := result
    cases ahead <;> exact found
  | skipSpace => exact answered .spaces
  | fill | isAtEnd | peek | byteAt | startsWith | find | findByte | textLength | nameLength | quotedLength
  | charLength => exact answered _
  | mark | advance | textFrom | checkFrom => exact whole

namespace Together
variable {s t : Stream} {input : List UInt8}

/-- What may be done with the first stream may be done with the second, which has read more. -/
theorem allowed (together : Together input s t) {op : Operation} (allowed : op.Allowed s) : op.Allowed t := by
  cases op with
  | advance n =>
    have room : s.ahead.length ≤ t.ahead.length := by
      have rest : s.rest = t.rest := by rw [together.first.rest, together.second.rest, together.offset]
      rw [Stream.rest, Stream.rest, together.whole, Option.elim_none, List.append_nil] at rest
      exact rest ▸ List.length_append ▸ Nat.le_add_right _ _
    exact Nat.le_trans allowed room
  | textFrom start => exact ⟨together.mark ▸ allowed.1, together.offset ▸ allowed.2⟩
  | checkFrom start => exact ⟨together.mark ▸ allowed.1, together.offset ▸ allowed.2⟩
  | _ => exact trivial

theorem position (together : Together input s t) : s.position = t.position := by
  rw [together.first.place, together.second.place, together.offset]

/-- No operation can tell the two apart. -/
theorem perform (together : Together input s t) {op : Operation} (allowed : op.Allowed s) :
    (s.perform op).1 = (t.perform op).1 ∧ Together input (s.perform op).2 (t.perform op).2 := by
  have first := together.first.perform op allowed
  have second := together.second.perform op (together.allowed allowed)
  refine ⟨by rw [first.answer, second.answer, together.position], first.represents, second.represents, ?_, ?_, ?_⟩
  · rw [first.offset, second.offset, together.offset]
  · rw [first.mark, second.mark, together.mark, together.offset]
  · exact perform_whole together.whole op

/-- Nor can any sequence of them. -/
theorem answers (together : Together input s t) {operations : List Operation} (allows : s.Allows operations) :
    s.answers operations = t.answers operations := by
  induction operations generalizing s t with
  | nil => rfl
  | cons op later ih =>
    obtain ⟨allowed, allows⟩ := allows
    obtain ⟨answer, further⟩ := together.perform allowed
    rw [Stream.answers, Stream.answers, answer, further.position, ih further allows]

/-- Wherever operations lead, the next one is served. -/
theorem serves (together : Together input s t) {done : List Operation} (allows : s.Allows (done ++ op :: later)) :
    (s.after done).Serves input op := by
  induction done generalizing s t with
  | nil => exact together.first.serves allows.1
  | cons first done ih =>
    obtain ⟨allowed, allows⟩ := allows
    exact ih (together.perform allowed).2 allows

end Together

theorem ofSource_together (source : Source) :
    Together source.content (ofSource source) (ofBytes source.content) where
  first := (ofSource_fresh source).represents
  second := (ofBytes_fresh source.content).represents
  offset := rfl
  mark := rfl
  whole := rfl

/-- A stream that reads from a source gives the same answers and moves to the same places as one over all the bytes
that the source brings, whatever is done with it and however the source cuts and ends them. -/
theorem ofSource_refines_ofBytes (source : Source) (operations : List Operation)
    (allows : (ofSource source).Allows operations) :
    (ofSource source).answers operations = (ofBytes source.content).answers operations ∧
      ∀ done op later, operations = done ++ op :: later → ((ofSource source).after done).Serves source.content op := by
  refine ⟨(ofSource_together source).answers allows, ?_⟩
  rintro done op later rfl
  exact (ofSource_together source).serves allows

/-- A comment that comes two bytes at a time from a source which then fails. Its end is cut by the reads, and what is
before the mark is given up while it is looked for. -/
theorem ofSource_refines_ofBytes_cut :
    let source := Source.inPieces 1 true (bytes "<!--a-b-->é") (.failure "gone")
    let done := [Operation.fill 4, .advance 4, .mark, .find (bytes "-->"), .advance 3]
    (ofSource source).Allows (done ++ [.textFrom 4]) ∧
      (ofSource source).answers (done ++ [.textFrom 4]) = (ofBytes source.content).answers (done ++ [.textFrom 4]) ∧
      ((ofSource source).after done).Serves source.content (.textFrom 4) ∧
      0 < ((ofSource source).after done).base := by
  intro source done
  have allows : (ofSource source).Allows (done ++ [.textFrom 4]) := by decide +kernel
  obtain ⟨answers, serves⟩ := ofSource_refines_ofBytes source _ allows
  exact ⟨allows, answers, serves done (.textFrom 4) [] rfl, by decide +kernel⟩

end Stream
end XmlBinding
