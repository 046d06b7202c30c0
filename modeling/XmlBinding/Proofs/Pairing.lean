import XmlBinding.Proofs.Delivery
import XmlBinding.Proofs.Reading

/-! Two streams read side by side. As long as both answer alike, whatever the direct reader does with one it
does with the other. A pairing says what the two have in common, when the first is lost, because it has met
its ending where the second goes on, and how a reading may end that is lost. -/
namespace XmlBinding
open Text

namespace Stream

/-- Two streams at the same place that hold the same bytes since an offset, and of which at least `ready`
bytes ahead have been read. The first has fewer than `room` bytes to come, and the second at least these. -/
structure Abreast (start ready room : Nat) (s t : Stream) : Prop where
  position : s.position = t.position
  rest : s.rest <+: t.rest
  room : s.rest.length < room
  held : s.bytesFrom start = t.bytesFrom start
  first : s.Holds start ready
  second : t.Holds start ready

namespace Abreast
variable {s t : Stream} {start ready room : Nat}

theorem weaken (abreast : s.Abreast start ready room t) (fewer : less ≤ ready) (wider : room ≤ more) :
    s.Abreast start less more t :=
  { abreast with
    room := Nat.lt_of_lt_of_le abreast.room wider
    first := abreast.first.weaken fewer
    second := abreast.second.weaken fewer }

theorem textFrom (abreast : s.Abreast start ready room t) : s.textFrom start = t.textFrom start := by
  simp only [Stream.textFrom, abreast.held, abreast.position]

theorem run (abreast : s.Abreast start ready room t) {scan : Scan α} (regular : scan.Regular reach)
    (alike : (s.run scan).1 = (t.run scan).1) :
    (s.run scan).2.Abreast start (max ready (reach (s.run scan).1)) room (t.run scan).2 := by
  have first := run_answers regular abreast.first
  have second := run_answers regular abreast.second
  refine ⟨?_, ?_, ?_, ?_, first.holds, alike ▸ second.holds⟩
  · rw [first.same.position, second.same.position, abreast.position]
  · rw [first.same.rest, second.same.rest]
    exact abreast.rest
  · rw [first.same.rest]
    exact abreast.room
  · rw [first.same.held, second.same.held, abreast.held]

theorem advance (abreast : s.Abreast start ready room t) (enough : n ≤ ready) :
    (s.advance n).Abreast start (ready - n) (room - n) (t.advance n) := by
  obtain ⟨first, position, rest, held⟩ := advance_holds abreast.first enough
  obtain ⟨second, position', rest', held'⟩ := advance_holds abreast.second enough
  obtain ⟨more, split⟩ := abreast.rest
  have there : n ≤ s.rest.length := by
    have := abreast.first.ready
    simp only [Stream.rest, List.length_append]
    omega
  have taken : s.rest.take n = t.rest.take n := by rw [← split, List.take_append_of_le_length there]
  refine ⟨?_, ?_, ?_, ?_, first, second⟩
  · rw [position, position', taken, abreast.position]
  · rw [rest, rest', ← split, List.drop_append_of_le_length there]
    exact List.prefix_append _ _
  · have := abreast.room
    rw [rest, List.length_drop]
    omega
  · rw [held, held', taken, abreast.held]

theorem setMark (abreast : s.Abreast start ready room t) :
    s.setMark.Abreast s.offset ready room t.setMark := by
  have offset : t.offset = s.offset := congrArg Position.offset abreast.position.symm
  refine ⟨abreast.position, abreast.rest, abreast.room, ?_, setMark_holds abreast.first,
    offset ▸ setMark_holds abreast.second⟩
  change (s.behind.take (s.offset - s.offset)).reverse = (t.behind.take (t.offset - s.offset)).reverse
  rw [offset, Nat.sub_self, List.take_zero, List.take_zero]

end Abreast
end Stream

namespace Reading

/-- A failed read is reported in place of a fault. -/
theorem failAt_eq (fault : Fault) (place : Position) (s : Stream) : (failAt fault place : Reading α) s =
    .error ((s.failure.map Error.readFailed).getD (.malformed fault place)) := by
  cases failure : s.failure <;>
    · simp only [failAt, bind, StateT.bind, get, getThe, MonadStateOf.get, StateT.get, pure, Except.pure, Except.bind,
        failure]
      rfl

theorem failAt_bind (fault : Fault) (place : Position) (f : α → Reading β) :
    (failAt fault place >>= f) = failAt fault place := by
  funext s
  show (failAt fault place s).bind (fun p => f p.1 p.2) = failAt fault place s
  rw [failAt_eq, failAt_eq]
  rfl

theorem fail_bind (fault : Fault) (f : α → Reading β) : (fail fault >>= f) = fail fault := by
  funext s
  exact congrFun (failAt_bind fault s.position f) s

theorem eat_bind (literal : String) (f : Bool → Reading β) : eat literal >>= f =
    startsWith literal >>= fun found =>
      if found = true then advance (bytes literal).length >>= fun _ => f true else f false := by
  funext s
  change (Except.ok (s.eat (bytes literal))).bind (fun p => f p.1 p.2) =
    (Except.ok (s.startsWith (bytes literal))).bind fun p =>
      (if p.1 = true then advance (bytes literal).length >>= fun _ => f true else f false) p.2
  unfold Stream.eat
  generalize s.startsWith (bytes literal) = found
  obtain ⟨found, s⟩ := found
  cases found <;> rfl

theorem startsWith_bind (literal : String) (f : Bool → Reading β) (s : Stream) : (startsWith literal >>= f) s =
    f (s.run (.startsWith (bytes literal))).1 (s.run (.startsWith (bytes literal))).2 := rfl

theorem skipSpace_eq : skipSpace = ask .spaces >>= fun length => advance length >>= fun _ => pure () := rfl

/-- What is read from the root element on. -/
def root (builder : Builder ε) (parts : Nat) : Reading ε := do
  skipMisc builder.keepsText parts
  let (_, root) ← element builder parts maxDepth
  skipMisc builder.keepsText parts
  unless ← isAtEnd do fail .trailingContent
  match (← get).failure with
  | some cause => throw (.readFailed cause)
  | none => return root

/-- What is read from the declaration on. -/
def declared (builder : Builder ε) (parts : Nat) : Reading ε := do
  if ← startsWith Section.declaration.opening then
    discard (delimited builder.keepsText .declaration)
  root builder parts

/-- What is read once it is known how many parts there can be. -/
def prolog (builder : Builder ε) (parts : Nat) : Reading ε := do
  skipSpace
  declared builder parts

theorem document_eq (builder : Builder ε) (s : Stream) : document builder s = prolog builder s.rest.length s := by
  rw [Stream.rest, List.length_append]
  rfl

end Reading

/-- What two streams have in common besides their place, when the first is lost, and the errors with which
a reading that is lost may end. -/
structure Pairing where
  Related : Stream → Stream → Prop
  Lost : Stream → Prop
  Spoilt : Error → Prop
  run {α : Type} {scan : Scan α} {reach : α → Nat} (regular : scan.Regular reach) {s t : Stream}
    {start ready room : Nat} (abreast : s.Abreast start ready room t) (related : Related s t) :
    ((s.run scan).1 = (t.run scan).1 ∧ Related (s.run scan).2 (t.run scan).2) ∨ Lost (s.run scan).2
  advance {s t : Stream} {n start ready room : Nat} (abreast : s.Abreast start ready room t) (enough : n ≤ ready)
    (related : Related s t) : Related (s.advance n) (t.advance n)
  setMark {s t : Stream} (related : Related s t) : Related s.setMark t.setMark
  failure {s t : Stream} (related : Related s t) : s.failure = t.failure
  run_lost {α : Type} {scan : Scan α} {reach : α → Nat} (regular : scan.Regular reach) {s : Stream}
    (lost : Lost s) : Lost (s.run scan).2
  advance_lost {s : Stream} (n : Nat) (lost : Lost s) : Lost (s.advance n)
  setMark_lost {s : Stream} (lost : Lost s) : Lost s.setMark
  failure_lost {s : Stream} (lost : Lost s) : ∃ cause, s.failure = some cause ∧ Spoilt (.readFailed cause)
  text_lost {s : Stream} (lost : Lost s) (place : Position) : Spoilt (.malformed .invalidText place)
  tags_lost {s : Stream} (lost : Lost s) (opening closing : String) (place : Position) :
    Spoilt (.malformed (.mismatchedTags opening closing) place)
  depth_lost {s : Stream} (lost : Lost s) (place : Position) :
    Spoilt (.malformed (.nestingTooDeep maxDepth) place)

/-- Errors of the markup and of the input. -/
inductive Error.OfReading : Error → Prop where
  | malformed : OfReading (.malformed fault place)
  | readFailed : OfReading (.readFailed cause)

namespace Pairing

/-- How a reading that is lost may go on. -/
def After (P : Pairing) : Except Error (α × Stream) → Prop
  | .ok (_, s) => P.Lost s
  | .error error => P.Spoilt error

/-- How two readings side by side may go on. At least `left` bytes ahead have been read by both. -/
inductive Outcome (P : Pairing) (left room : Nat) :
    Except Error (α × Stream) → Except Error (α × Stream) → Prop
  | together (related : P.Related s t) (abreast : s.Abreast start left room t) :
      Outcome P left room (.ok (a, s)) (.ok (a, t))
  | refused (error : Error) (ofReading : error.OfReading) : Outcome P left room (.error error) (.error error)
  | spoilt (spoilt : P.Spoilt error) : Outcome P left room (.error error) y
  | lost (lost : P.Lost s) : Outcome P left room (.ok (a, s)) y

theorem Outcome.ofAfter {P : Pairing} {x y : Except Error (α × Stream)} (after : P.After x) :
    P.Outcome left room x y :=
  match x, after with
  | .ok _, after => .lost after
  | .error _, after => .spoilt after

theorem Outcome.widen {P : Pairing} {x y : Except Error (α × Stream)} (outcome : P.Outcome left less x y)
    (wider : less ≤ room) : P.Outcome left room x y := by
  cases outcome with
  | together related abreast => exact .together related (abreast.weaken (Nat.le_refl _) wider)
  | refused error ofReading => exact .refused error ofReading
  | spoilt spoilt => exact .spoilt spoilt
  | lost lost => exact .lost lost

/-- Two readings of which the second does with its stream what the first does with the stream paired with it. -/
structure Tracks (P : Pairing) (start ready room : Nat) (x y : Reading α) (left room' : Nat) : Prop where
  lost {s : Stream} (lost : P.Lost s) : P.After (x s)
  pair {s t : Stream} (related : P.Related s t) (abreast : s.Abreast start ready room t) :
    P.Outcome left room' (x s) (y t)

namespace Tracks
variable {P : Pairing} {start ready room left room' : Nat}

theorem pure (a : α) (fewer : left ≤ ready) (wider : room ≤ room') :
    P.Tracks start ready room (pure a) (pure a) left room' where
  lost lost := lost
  pair related abreast := .together related (abreast.weaken fewer wider)

theorem bind {x y : Reading α} {f g : α → Reading β} (first : P.Tracks start ready room x y between among)
    (rest : ∀ a start, P.Tracks start between among (f a) (g a) left room') :
    P.Tracks start ready room (x >>= f) (y >>= g) left room' where
  lost {s} lost := by
    have after := first.lost lost
    change P.After ((x s).bind fun p => f p.1 p.2)
    generalize x s = one at after
    match one with
    | .error error => exact after
    | .ok (a, s) => exact (rest a 0).lost after
  pair {s t} related abreast := by
    have after := first.pair related abreast
    change P.Outcome left room' ((x s).bind fun p => f p.1 p.2) ((y t).bind fun p => g p.1 p.2)
    generalize x s = one at after
    generalize y t = two at after
    cases after with
    | together related abreast => exact (rest _ _).pair related abreast
    | refused error ofReading => exact .refused error ofReading
    | spoilt spoilt => exact .spoilt spoilt
    | @lost _ s a _ lost => exact .ofAfter ((rest a 0).lost lost)

theorem weaken {x y : Reading α} (tracks : P.Tracks start less more x y left room') (fewer : less ≤ ready)
    (wider : room ≤ more) : P.Tracks start ready room x y left room' where
  lost := tracks.lost
  pair related abreast := tracks.pair related (abreast.weaken fewer wider)

theorem widen {x y : Reading α} (tracks : P.Tracks start ready room x y left less) (wider : less ≤ room') :
    P.Tracks start ready room x y left room' where
  lost := tracks.lost
  pair related abreast := (tracks.pair related abreast).widen wider

theorem discard {x y : Reading α} (tracks : P.Tracks start ready room x y left room') :
    P.Tracks start ready room (discard x) (discard y) left room' :=
  bind tracks fun _ _ => pure _ (Nat.le_refl _) (Nat.le_refl _)

/-- What cannot fail and leaves the bytes held since an offset as they are can be followed by what reads
them. -/
theorem step {x : Reading α} {f g : α → Reading β} {between among : α → Nat}
    (lost : ∀ {s}, P.Lost s → ∃ a s', x s = .ok (a, s') ∧ P.Lost s')
    (pair : ∀ {s t}, P.Related s t → s.Abreast start ready room t → ∃ a s', x s = .ok (a, s') ∧
      (P.Lost s' ∨ ∃ t', x t = .ok (a, t') ∧ P.Related s' t' ∧ s'.Abreast start (between a) (among a) t'))
    (rest : ∀ a, P.Tracks start (between a) (among a) (f a) (g a) left room') :
    P.Tracks start ready room (x >>= f) (x >>= g) left room' where
  lost {s} isLost := by
    obtain ⟨a, s', ran, isLost⟩ := lost isLost
    rw [Reading.bind_of ran]
    exact (rest a).lost isLost
  pair {s t} related abreast := by
    obtain ⟨a, s', ran, after⟩ := pair related abreast
    rw [Reading.bind_of ran]
    rcases after with isLost | ⟨t', ran', related, abreast⟩
    · exact .ofAfter ((rest a).lost isLost)
    · rw [Reading.bind_of ran']
      exact (rest a).pair related abreast

section Primitives

/-- Two scans side by side: an answer speaks of the bytes to come, and the same place is left. -/
theorem run_cases (P : Pairing) {scan : Scan α} (regular : scan.Regular reach) {s t : Stream}
    (related : P.Related s t) (abreast : s.Abreast start ready room t) :
    (∃ s' t', s.run scan = (scan.whole s.rest, s') ∧ t.run scan = (scan.whole s.rest, t') ∧ s'.rest = s.rest ∧
      P.Related s' t' ∧ s'.Abreast start (max ready (reach (scan.whole s.rest))) room t') ∨
    ∃ answer s', s.run scan = (answer, s') ∧ P.Lost s' := by
  have answers := Stream.run_answers regular abreast.first
  rcases P.run regular abreast related with ⟨alike, related⟩ | lost
  · have after := abreast.run regular alike
    rw [answers.result] at after alike
    exact .inl ⟨_, _, Prod.ext answers.result rfl, Prod.ext alike.symm rfl, answers.same.rest, related, after⟩
  · exact .inr ⟨_, _, rfl, lost⟩

theorem ask_keeping {scan : Scan α} (regular : scan.Regular reach) {f g : α → Reading β}
    (rest : ∀ a, P.Tracks start (max ready (reach a)) room (f a) (g a) left room') :
    P.Tracks start ready room (Reading.ask scan >>= f) (Reading.ask scan >>= g) left room' := by
  refine step (fun {s} lost => ⟨_, (s.run scan).2, rfl, P.run_lost regular lost⟩) ?_ rest
  intro s t related abreast
  rcases run_cases P regular related abreast with ⟨s', t', ran, ran', -, related, abreast⟩ | ⟨answer, s', ran, lost⟩
  · exact ⟨_, s', congrArg Except.ok ran, .inr ⟨t', congrArg Except.ok ran', related, abreast⟩⟩
  · exact ⟨answer, s', congrArg Except.ok ran, .inl lost⟩

theorem ask {scan : Scan α} (regular : scan.Regular reach) {f g : α → Reading β}
    (rest : ∀ a, P.Tracks start (reach a) room (f a) (g a) left room') :
    P.Tracks start ready room (Reading.ask scan >>= f) (Reading.ask scan >>= g) left room' :=
  ask_keeping regular fun a => (rest a).weaken (Nat.le_max_right _ _) (Nat.le_refl _)

theorem advance {f g : Unit → Reading β} (enough : n ≤ ready)
    (rest : P.Tracks start (ready - n) (room - n) (f ()) (g ()) left room') :
    P.Tracks start ready room (Reading.advance n >>= f) (Reading.advance n >>= g) left room' :=
  step (fun lost => ⟨_, _, rfl, P.advance_lost n lost⟩)
    (fun related abreast => ⟨_, _, rfl, .inr ⟨_, rfl, P.advance abreast enough related,
      abreast.advance enough⟩⟩)
    (fun _ => rest)

theorem mark {f g : Nat → Reading β} (rest : ∀ start, P.Tracks start ready room (f start) (g start) left room') :
    P.Tracks start ready room (Reading.mark >>= f) (Reading.mark >>= g) left room' where
  lost lost := (rest _).lost (P.setMark_lost lost)
  pair {s t} related abreast := by
    have offset : s.offset = t.offset := congrArg Position.offset abreast.position
    have after := (rest s.offset).pair (P.setMark related) abreast.setMark
    change P.Outcome left room' (f s.offset s.setMark) (g t.offset t.setMark)
    rwa [← offset]

/-- The place is the same in both. -/
theorem place {f g : Stream → Reading β}
    (rest : ∀ s t, s.position = t.position → P.Tracks start ready room (f s) (g t) left room') :
    P.Tracks start ready room (get >>= f) (get >>= g) left room' where
  lost {s} lost := (rest s s rfl).lost lost
  pair {s t} related abreast := (rest s t abreast.position).pair related abreast

/-- The text since the offset from which bytes are held. -/
theorem textFrom {f g : String → Reading β}
    (rest : ∀ text, P.Tracks start ready room (f text) (g text) left room') :
    P.Tracks start ready room (Reading.textFrom start >>= f) (Reading.textFrom start >>= g) left room' where
  lost {s} lost := by
    change P.After (((s.textFrom start).map fun text => (text, s)).bind fun p => f p.1 p.2)
    rw [Stream.textFrom]
    split
    · exact (rest _).lost lost
    · exact P.text_lost lost _
  pair {s t} related abreast := by
    change P.Outcome left room' (((s.textFrom start).map fun text => (text, s)).bind fun p => f p.1 p.2)
      (((t.textFrom start).map fun text => (text, t)).bind fun p => g p.1 p.2)
    rw [← abreast.textFrom, Stream.textFrom]
    split
    · exact (rest _).pair related abreast
    · exact .refused _ .malformed

theorem failAt (fault : Fault) (place : Position) :
    P.Tracks start ready room (Reading.failAt fault place : Reading α) (Reading.failAt fault place) left room' where
  lost {s} lost := by
    obtain ⟨cause, failed, spoilt⟩ := P.failure_lost lost
    rw [Reading.failAt_eq, failed]
    exact spoilt
  pair {s t} related _ := by
    rw [Reading.failAt_eq, Reading.failAt_eq, ← P.failure related]
    cases s.failure with
    | some cause => exact .refused _ .readFailed
    | none => exact .refused _ .malformed

theorem fail (fault : Fault) :
    P.Tracks start ready room (Reading.fail fault : Reading α) (Reading.fail fault) left room' :=
  place fun _ _ same => same ▸ failAt fault _

theorem fail_bind (fault : Fault) (f g : α → Reading β) :
    P.Tracks start ready room (Reading.fail fault >>= f) (Reading.fail fault >>= g) left room' := by
  rw [Reading.fail_bind, Reading.fail_bind]
  exact fail fault

theorem thrown {error : Error} (ofReading : error.OfReading) (spoilt : ∀ {s}, P.Lost s → P.Spoilt error) :
    P.Tracks start ready room (throw error : Reading α) (throw error) left room' where
  lost lost := spoilt lost
  pair _ _ := .refused error ofReading

theorem ite {x x' y y' : Reading α} (b : Bool) (yes : b = true → P.Tracks start ready room x y left room')
    (no : b = false → P.Tracks start ready room x' y' left room') :
    P.Tracks start ready room (if b = true then x else x') (if b = true then y else y') left room' := by
  cases b with
  | false => exact no rfl
  | true => exact yes rfl

theorem startsWith {literal : String} {f g : Bool → Reading β}
    (yes : P.Tracks start (bytes literal).length room (f true) (g true) left room')
    (no : P.Tracks start ready room (f false) (g false) left room') :
    P.Tracks start ready room (Reading.startsWith literal >>= f) (Reading.startsWith literal >>= g) left room' :=
  ask_keeping (Scan.startsWith_regular _) fun found => match found with
    | true => yes.weaken (Nat.le_max_right _ _) (Nat.le_refl _)
    | false => no.weaken (Nat.le_max_left _ _) (Nat.le_refl _)

theorem eat {literal : String} {f g : Bool → Reading β}
    (yes : P.Tracks start 0 (room - (bytes literal).length) (f true) (g true) left room')
    (no : P.Tracks start 0 room (f false) (g false) left room') :
    P.Tracks start ready room (Reading.eat literal >>= f) (Reading.eat literal >>= g) left room' := by
  rw [Reading.eat_bind, Reading.eat_bind]
  refine startsWith (advance (Nat.le_refl _) ?_) (no.weaken (Nat.zero_le _) (Nat.le_refl _))
  exact yes.weaken (Nat.zero_le _) (Nat.le_refl _)

theorem isAtEnd {f g : Bool → Reading β} (ended : P.Tracks start 0 room (f true) (g true) left room')
    (more : P.Tracks start 1 room (f false) (g false) left room') :
    P.Tracks start ready room (Reading.isAtEnd >>= f) (Reading.isAtEnd >>= g) left room' :=
  ask (Scan.available_regular 1) (f := fun found => f (!found)) (g := fun found => g (!found)) fun found =>
    match found with
    | true => more
    | false => ended

theorem peek {f g : Option UInt8 → Reading β} (rest : ∀ b, P.Tracks start 0 room (f b) (g b) left room') :
    P.Tracks start ready room (modifyGet (·.peek) >>= f) (modifyGet (·.peek) >>= g) left room' :=
  ask (Scan.byteAt_regular 0) fun found => (rest found).weaken (Nat.zero_le _) (Nat.le_refl _)

theorem skipSpace {f g : Unit → Reading β} (rest : P.Tracks start 0 room (f ()) (g ()) left room') :
    P.Tracks start ready room (Reading.skipSpace >>= f) (Reading.skipSpace >>= g) left room' := by
  rw [Reading.skipSpace_eq, bind_assoc, bind_assoc]
  refine ask Scan.spaces_regular fun length => advance (Nat.le_refl _) ?_
  exact rest.weaken (Nat.zero_le _) (Nat.sub_le _ _)

theorem lexeme (keepsText : Bool) {f g : Option String → Reading β}
    (rest : ∀ text?, P.Tracks start ready room (f text?) (g text?) left room') :
    P.Tracks start ready room (Reading.lexeme keepsText start >>= f) (Reading.lexeme keepsText start >>= g)
      left room' := by
  rw [Reading.lexeme_eq, bind_assoc, bind_assoc]
  exact textFrom fun text => rest _

end Primitives

end Tracks

/-- Two amounts of fuel that last equally long: they are the same, or neither runs out before fewer than
`room` bytes do, of which every round takes at least `cost`. -/
def Lasts (cost room fuel fuel' : Nat) : Prop :=
  fuel = fuel' ∨ (room ≤ cost * fuel ∧ fuel ≤ fuel')

namespace Lasts
variable {cost room fuel fuel' : Nat}

theorem less (lasts : Lasts cost room fuel fuel') (less : room' ≤ room) : Lasts cost room' fuel fuel' :=
  lasts.imp_right fun ⟨enough, more⟩ => ⟨Nat.le_trans less enough, more⟩

theorem zero (lasts : Lasts cost room 0 fuel') : fuel' = 0 ∨ room = 0 :=
  lasts.imp Eq.symm fun ⟨enough, _⟩ => Nat.le_zero.1 enough

theorem succ (lasts : Lasts cost room (fuel + 1) fuel') :
    ∃ later, fuel' = later + 1 ∧ ∀ taken, cost ≤ taken → Lasts cost (room - taken) fuel later := by
  rcases lasts with rfl | ⟨enough, more⟩
  · exact ⟨fuel, rfl, fun _ _ => .inl rfl⟩
  · refine ⟨fuel' - 1, by omega, fun taken costs => .inr ⟨?_, by omega⟩⟩
    rw [Nat.mul_succ] at enough
    omega

end Lasts

namespace Tracks
variable {P : Pairing} {start ready room left room' : Nat}

/-- Nothing is left to be read side by side. -/
theorem starved {x y z : Reading α} (tracks : P.Tracks start ready 0 x z left room') :
    P.Tracks start ready 0 x y left room' where
  lost := tracks.lost
  pair _ abreast := absurd abreast.room (Nat.not_lt_zero _)

theorem finding {f g : Finding → Reading β} (rest : ∀ found, P.Tracks start 0 room (f found) (g found) left room') :
    P.Tracks start ready room (Reading.finding >>= f) (Reading.finding >>= g) left room' := by
  rw [Reading.finding, bind_assoc, bind_assoc]
  refine peek fun b => ?_
  cases b <;> exact rest _

theorem delimited (keepsText : Bool) (sec : Section) :
    P.Tracks start (bytes sec.opening).length room (Reading.delimited keepsText sec)
      (Reading.delimited keepsText sec) 0 (room - (bytes sec.opening).length) := by
  unfold Reading.delimited
  refine place fun s t same => ?_
  rw [same]
  refine advance (Nat.le_refl _) ?_
  refine mark fun bodyStart => ask (Scan.find_regular _) fun found => ?_
  cases found with
  | none => exact failAt _ _
  | some length =>
    refine advance (Nat.le_add_right _ _) ?_
    refine lexeme keepsText fun body => ?_
    refine advance (Nat.le_of_eq (Nat.add_sub_cancel_left ..).symm) (pure _ (Nat.zero_le _) ?_)
    omega

theorem skipMisc (keepsText : Bool) (lasts : Lasts 4 room fuel fuel') :
    P.Tracks start ready room (Reading.skipMisc keepsText fuel) (Reading.skipMisc keepsText fuel') 0 room := by
  induction fuel generalizing start ready room fuel' with
  | zero =>
    have spaces (room : Nat) : P.Tracks start ready room Reading.skipSpace Reading.skipSpace 0 room :=
      skipSpace (pure _ (Nat.zero_le _) (Nat.le_refl _))
    rcases lasts.zero with rfl | rfl
    · exact spaces room
    · exact starved (spaces 0)
  | succ fuel ih =>
    obtain ⟨later, rfl, shorter⟩ := lasts.succ
    refine skipSpace (startsWith ?_ (pure _ (Nat.zero_le _) (Nat.le_refl _)))
    exact bind (delimited keepsText .comment).discard fun _ _ =>
      (ih (shorter 4 (Nat.le_refl _))).widen (Nat.sub_le _ _)

theorem name (missing : Fault) :
    P.Tracks start ready room (Reading.name missing) (Reading.name missing) 0 (room - 1) := by
  unfold Reading.name
  refine mark fun start => ask Scan.nameLength_regular fun length => ?_
  by_cases none : length = 0
  · subst none
    exact fail_bind _ _ _
  · dsimp only
    rw [if_neg none]
    refine advance (Nat.le_refl _) ?_
    rw [← bind_pure (Reading.textFrom start)]
    exact textFrom fun text => pure _ (Nat.zero_le _) (Nat.sub_le_sub_left (Nat.one_le_iff_ne_zero.2 none) _)

theorem readAttribute (builder : Builder ε) (element : ε) :
    P.Tracks start ready room (Reading.readAttribute builder element) (Reading.readAttribute builder element) 0
      (room - 1) := by
  unfold Reading.readAttribute
  refine bind (name _) fun name _ => skipSpace (eat ?_ (fail_bind _ _ _))
  refine skipSpace (mark fun start => peek fun b => ite _ (fun _ => ?_) (fun _ => fail_bind _ _ _))
  refine ask Scan.quotedLength_regular fun found => ?_
  cases found with
  | none => exact fail _
  | some length =>
    refine advance (Nat.le_refl _) (lexeme _ fun text? => ?_)
    cases text? <;> exact pure _ (Nat.zero_le _) (by omega)

theorem restOfTag (builder : Builder ε) (element : ε) (lasts : Lasts 1 room fuel fuel') :
    P.Tracks start ready room (Reading.restOfTag builder fuel element) (Reading.restOfTag builder fuel' element)
      0 room := by
  induction fuel generalizing start ready room fuel' element with
  | zero =>
    have ends (room : Nat) : P.Tracks start ready room (Reading.restOfTag builder 0 element)
        (Reading.restOfTag builder 0 element) 0 room := fail _
    rcases lasts.zero with rfl | rfl
    · exact ends room
    · exact starved (ends 0)
  | succ fuel ih =>
    obtain ⟨later, rfl, shorter⟩ := lasts.succ
    unfold Reading.restOfTag
    refine skipSpace (eat (pure _ (Nat.le_refl _) (Nat.sub_le _ _)) ?_)
    refine eat (pure _ (Nat.le_refl _) (Nat.sub_le _ _)) ?_
    refine isAtEnd (fail_bind _ _ _) ?_
    exact bind (readAttribute builder element) fun element _ =>
      (ih element (shorter 1 (Nat.le_refl _))).widen (Nat.sub_le _ _)

/-- Where no tag is ahead the text ahead has at least one byte. -/
theorem textOrTag {x y : Reading β} {f g : Nat → Nat → Reading β} (tag : P.Tracks start 1 room x y left room')
    (text : ∀ {less} start length, less ≤ room → 1 ≤ length ∨ less = 0 →
      P.Tracks start length less (f start length) (g start length) left room') :
    P.Tracks start 1 room
      (Reading.startsWith "<" >>= fun found => if found = true then x else
        Reading.mark >>= fun start => Reading.ask .textLength >>= fun length => f start length)
      (Reading.startsWith "<" >>= fun found => if found = true then y else
        Reading.mark >>= fun start => Reading.ask .textLength >>= fun length => g start length) left room' := by
  -- What is lost can be followed with no bytes left, whatever the length.
  have reads (start ready : Nat) : P.Tracks start ready 0
      (Reading.mark >>= fun start => Reading.ask .textLength >>= fun length => f start length)
      (Reading.mark >>= fun start => Reading.ask .textLength >>= fun length => g start length) left room' :=
    mark fun start => ask Scan.textLength_regular fun length => text start length (Nat.zero_le _) (.inr rfl)
  have nothing : P.Tracks start 1 0 (Reading.startsWith "<" >>= _) (Reading.startsWith "<" >>= _) left room' :=
    startsWith (f := fun found => if found = true then x else _)
      (g := fun found => if found = true then y else _) (tag.weaken (by decide) (Nat.zero_le _)) (reads start 1)
  refine ⟨nothing.lost, fun {s t} related abreast => ?_⟩
  have some : 0 < s.rest.length := by
    refine Nat.lt_of_lt_of_le abreast.first.ready ?_
    exact Nat.le_trans (Nat.le_add_right _ _) (Nat.le_of_eq List.length_append.symm)
  rw [Reading.startsWith_bind, Reading.startsWith_bind]
  have regular := Scan.startsWith_regular (bytes "<")
  rcases run_cases P regular related abreast with
    ⟨s₁, t₁, ran, ran', rest, related, abreast⟩ | ⟨found, s₁, ran, lost⟩
  · rw [ran, ran']
    dsimp only
    cases untagged : (Scan.startsWith (bytes "<")).whole s.rest with
    | true => exact tag.pair related (abreast.weaken (Nat.le_max_left _ _) (Nat.le_refl _))
    | false =>
      have offset : s₁.offset = t₁.offset := congrArg Position.offset abreast.position
      have some : 1 ≤ Scan.textLength.whole s₁.setMark.rest := Scan.textLength_some (rest ▸ some) (rest ▸ untagged)
      change P.Outcome left room' (f s₁.offset (s₁.setMark.run .textLength).1 (s₁.setMark.run .textLength).2)
        (g t₁.offset (t₁.setMark.run .textLength).1 (t₁.setMark.run .textLength).2)
      rcases run_cases P Scan.textLength_regular (P.setMark related) abreast.setMark with
        ⟨s₂, t₂, ran, ran', -, related, abreast⟩ | ⟨length, s₂, ran, lost⟩
      · rw [ran, ran', ← offset]
        refine (text _ _ (Nat.le_refl _) (.inl some)).pair related ?_
        exact abreast.weaken (Nat.le_max_right _ _) (Nat.le_refl _)
      · rw [ran]
        exact .ofAfter ((text _ _ (Nat.zero_le _) (.inr rfl)).lost lost)
  · rw [ran]
    cases found with
    | true => exact .ofAfter (tag.lost lost)
    | false => exact .ofAfter ((reads 0 0).lost lost)

theorem content (builder : Builder ε) {child child' : Reading (String × ε)} (outer : String)
    (element : ε) (text : String) (cdata? : Option String)
    (reads : ∀ {start ready less}, less ≤ room → P.Tracks start ready less child child' 0 (less - 1))
    (lasts : Lasts 1 room fuel fuel') :
    P.Tracks start ready room (Reading.content builder child outer fuel element text cdata?)
      (Reading.content builder child' outer fuel' element text cdata?) 2 room := by
  induction fuel generalizing start ready room fuel' element text cdata? with
  | zero =>
    have ends (room : Nat) : P.Tracks start ready room (Reading.content builder child outer 0 element text cdata?)
        (Reading.content builder child' outer 0 element text cdata?) 2 room := fail _
    rcases lasts.zero with rfl | rfl
    · exact ends room
    · exact starved (ends 0)
  | succ fuel ih =>
    obtain ⟨later, rfl, shorter⟩ := lasts.succ
    -- Every part takes at least a byte, so what follows it has one unit of fuel less.
    have further {less : Nat} (lasts : Lasts 1 less fuel later) (within : less ≤ room) (element : ε) (text : String)
        (cdata? : Option String) {start ready : Nat} : P.Tracks start ready less
          (Reading.content builder child outer fuel element text cdata?)
          (Reading.content builder child' outer later element text cdata?) 2 room :=
      (ih element text cdata? (fun less => reads (Nat.le_trans less within)) lasts).widen within
    unfold Reading.content
    refine isAtEnd (fail_bind _ _ _) (startsWith (pure _ (by decide) (Nat.le_refl _)) ?_)
    refine startsWith (bind (delimited _ .comment).discard fun _ _ => ?_) ?_
    · exact further (shorter _ (by decide)) (Nat.sub_le _ _) element text cdata?
    refine startsWith (bind (delimited _ .cdata) fun body _ => ?_) ?_
    · exact further (shorter _ (by decide)) (Nat.sub_le _ _) element text _
    refine startsWith (fail _) ?_
    refine textOrTag (bind (reads (Nat.le_refl _)) fun made _ => ?_) fun {less} start length within some => ?_
    · exact further (shorter 1 (Nat.le_refl _)) (Nat.sub_le _ _) _ text cdata?
    · refine advance (Nat.le_refl _) (lexeme _ fun run => ?_)
      rcases some with some | rfl
      · exact further ((shorter length some).less (Nat.sub_le_sub_right within _))
          (Nat.le_trans (Nat.sub_le _ _) within) element _ cdata?
      · exact further ((shorter _ (Nat.le_add_left 1 room)).less (by omega)) (by omega) element _ cdata?

theorem openTag (builder : Builder ε) (lasts : Lasts 1 (room - 1) parts parts') :
    P.Tracks start ready room (Reading.openTag builder parts) (Reading.openTag builder parts') 0 (room - 1) := by
  unfold Reading.openTag
  refine eat ?_ (finding fun found => fail_bind _ _ _)
  refine bind (name _) fun opening _ => bind (restOfTag builder _ (lasts.less (Nat.sub_le _ _))) fun made _ => ?_
  exact pure _ (Nat.le_refl _) (Nat.sub_le _ _)

theorem closeTag (opening : String) :
    P.Tracks start 2 room (Reading.closeTag opening) (Reading.closeTag opening) 0 room := by
  unfold Reading.closeTag
  refine advance (Nat.le_refl _) (place fun s t same => ?_)
  rw [same]
  refine bind (name _) fun closing _ => ?_
  by_cases equal : closing = opening
  · dsimp only
    rw [if_neg (not_not_intro equal)]
    refine skipSpace (eat (pure _ (Nat.le_refl _) (by omega)) ?_)
    exact finding fun found => fail _
  · dsimp only
    rw [if_pos equal]
    exact thrown .malformed fun lost => P.tags_lost lost _ _ _

theorem element (builder : Builder ε) (levels : Nat) (lasts : Lasts 1 (room - 1) parts parts') :
    P.Tracks start ready room (Reading.element builder parts levels) (Reading.element builder parts' levels) 0
      (room - 1) := by
  induction levels generalizing start ready room with
  | zero =>
    refine place fun s t same => eat ?_ (finding fun found => fail_bind _ _ _)
    rw [same]
    exact thrown .malformed fun lost => P.depth_lost lost _
  | succ levels ih =>
    rw [Reading.element_succ, Reading.element_succ]
    refine bind (openTag builder lasts) fun opened _ => ?_
    refine ite _ (fun _ => pure _ (Nat.le_refl _) (Nat.le_refl _)) fun _ => ?_
    refine bind (content builder _ _ _ _ (fun less => ?_) lasts) fun made _ => ?_
    · exact ih (lasts.less (by omega))
    · exact bind (closeTag _) fun _ _ => pure _ (Nat.le_refl _) (Nat.le_refl _)

theorem root (builder : Builder ε) (lasts : Lasts 1 (room - 1) parts parts') (misc : Lasts 4 room parts parts') :
    P.Tracks start ready room (Reading.root builder parts) (Reading.root builder parts') 0 room := by
  unfold Reading.root
  refine bind (skipMisc _ misc) fun _ _ => bind (element builder _ lasts) fun made _ => ?_
  refine bind (skipMisc _ (misc.less (Nat.sub_le _ _))) fun _ _ => isAtEnd ?_ (fail_bind _ _ _)
  refine ⟨fun {s} lost => ?_, fun {s t} related abreast => ?_⟩
  · obtain ⟨cause, failed, spoilt⟩ := P.failure_lost lost
    change P.After ((match s.failure with | some _ => _ | none => _ : Reading ε) s)
    rw [failed]
    exact spoilt
  · change P.Outcome 0 room ((match s.failure with | some _ => _ | none => _ : Reading ε) s)
      ((match t.failure with | some _ => _ | none => _ : Reading ε) t)
    rw [← P.failure related]
    cases s.failure with
    | some cause => exact .refused _ .readFailed
    | none => exact .together related (abreast.weaken (Nat.le_refl _) (Nat.sub_le _ _))

theorem declared (builder : Builder ε) (lasts : Lasts 1 (room - 1) parts parts') (misc : Lasts 4 room parts parts') :
    P.Tracks start ready room (Reading.declared builder parts) (Reading.declared builder parts') 0 room := by
  refine startsWith ?_ (root builder lasts misc)
  have fewer (n : Nat) : room - n - 1 ≤ room - 1 := by omega
  exact bind (delimited _ .declaration).discard fun _ _ =>
    (root builder (lasts.less (fewer _)) (misc.less (Nat.sub_le _ _))).widen (Nat.sub_le _ _)

theorem prolog (builder : Builder ε) (lasts : Lasts 1 (room - 1) parts parts') (misc : Lasts 4 room parts parts') :
    P.Tracks start ready room (Reading.prolog builder parts) (Reading.prolog builder parts') 0 room :=
  skipSpace (declared builder lasts misc)

end Tracks
end Pairing
end XmlBinding
