import XmlBinding.Proofs.Pairing

/-! One reading for all builders. What a builder makes of a document has no influence on how the document is read: the
same questions are asked in the same order, the same lexemes are checked whether or not they are made, and the reading
ends at the same byte or with the same error. -/
namespace XmlBinding
open Text

namespace Reading

/-- Two readings have come to the same: to the same stream, with related results, or to the same error. -/
inductive SameEnd (related : α → β → Prop) : Except Error (α × Stream) → Except Error (β × Stream) → Prop where
  | read (holds : related a b) : SameEnd related (.ok (a, s)) (.ok (b, s))
  | refused (error : Error) : SameEnd related (.error error) (.error error)

/-- Two steps that come to the same from every stream. -/
def SameRun (related : α → β → Prop) (x : Reading α) (y : Reading β) : Prop :=
  ∀ s, SameEnd related (x s) (y s)

/-- Two results that need have nothing to do with each other. -/
abbrev Unrelated (_ : α) (_ : β) : Prop := True

namespace SameRun
variable {related : α → β → Prop}

theorem pure {a : α} {b : β} (holds : related a b) : SameRun related (pure a) (pure b) :=
  fun _ => .read holds

/-- Whatever is no matter of builders is the same for both. -/
theorem refl (x : Reading α) : SameRun Eq x x := by
  intro s
  cases ran : x s with
  | ok result => exact .read rfl
  | error error => exact .refused error

theorem bind {x : Reading α} {y : Reading β} {f : α → Reading γ} {g : β → Reading δ} {related' : γ → δ → Prop}
    (first : SameRun related x y) (rest : ∀ a b, related a b → SameRun related' (f a) (g b)) :
    SameRun related' (x >>= f) (y >>= g) := by
  intro s
  have same := first s
  change SameEnd related' ((x s).bind fun result => f result.1 result.2) ((y s).bind fun result => g result.1 result.2)
  generalize x s = one at same ⊢
  generalize y s = two at same ⊢
  cases same with
  | read holds => exact rest _ _ holds _
  | refused error => exact .refused error

/-- A step that is the same for both, and what goes on from its result. -/
theorem step (x : Reading α) {f : α → Reading γ} {g : α → Reading δ} {related' : γ → δ → Prop}
    (rest : ∀ a, SameRun related' (f a) (g a)) : SameRun related' (x >>= f) (x >>= g) :=
  bind (refl x) fun a _ same => same ▸ rest a

theorem discard {x : Reading α} {y : Reading β} (same : SameRun related x y) : SameRun Eq (discard x) (discard y) := by
  intro s
  have same := same s
  change SameEnd Eq ((x s).map fun result => ((), result.2)) ((y s).map fun result => ((), result.2))
  generalize x s = one at same ⊢
  generalize y s = two at same ⊢
  cases same with
  | read => exact .read rfl
  | refused error => exact .refused error

theorem ite {q : Prop} [Decidable q] {x x' : Reading α} {y y' : Reading β} (yes : SameRun related x y)
    (no : SameRun related x' y') : SameRun related (if q then x else x') (if q then y else y') := by
  split
  · exact yes
  · exact no

theorem failAt (fault : Fault) (place : Position) : SameRun related (failAt fault place) (failAt fault place) := by
  intro s
  rw [failAt_eq, failAt_eq]
  exact .refused _

theorem fail (fault : Fault) : SameRun related (fail fault) (fail fault) :=
  step get fun s => failAt fault s.position

theorem thrown (error : Error) : SameRun related (throw error : Reading α) (throw error : Reading β) :=
  fun _ => .refused error

/-- What must hold for a step to go on. -/
theorem required {q : Prop} [Decidable q] {stop : Reading Unit} {next : Unit → Reading α} {next' : Unit → Reading β}
    (rest : SameRun related (next ()) (next' ())) :
    SameRun related (if q then next () else stop >>= next) (if q then next' () else stop >>= next') :=
  ite rest (step stop fun _ => rest)

/-- What is done before a step goes on where a condition holds. -/
theorem firstIf {q : Prop} [Decidable q] {stop stop' : Reading Unit} {next : Unit → Reading α}
    {next' : Unit → Reading β} (stops : SameRun Eq stop stop') (rest : SameRun related (next ()) (next' ())) :
    SameRun related (if q then stop >>= next else next ()) (if q then stop' >>= next' else next' ()) :=
  ite (bind stops fun _ _ _ => rest) rest

/-- What must be ahead for a step to go on. -/
theorem expected {q : Prop} [Decidable q] (fault : Finding → Fault) {next : Unit → Reading α}
    {next' : Unit → Reading β} (rest : SameRun related (next ()) (next' ())) :
    SameRun related (if q then next () else finding >>= fun found => Reading.fail (fault found) >>= next)
      (if q then next' () else finding >>= fun found => Reading.fail (fault found) >>= next') :=
  ite rest (step finding fun _ => step _ fun _ => rest)

/-- A lexeme is refused for the same reason whether it is made or only checked. -/
theorem lexeme (keepsText keepsText' : Bool) (start : Nat) :
    SameRun Unrelated (Reading.lexeme keepsText start) (Reading.lexeme keepsText' start) := by
  rw [lexeme_eq, lexeme_eq]
  exact step (textFrom start) fun _ => pure trivial

theorem delimited (keepsText keepsText' : Bool) (sec : Section) :
    SameRun Unrelated (Reading.delimited keepsText sec) (Reading.delimited keepsText' sec) := by
  refine step get fun s => step (advance _) fun _ => step mark fun bodyStart => step (ask _) fun found => ?_
  cases found with
  | none => exact failAt _ _
  | some length =>
    exact step (advance length) fun _ => bind (lexeme _ _ bodyStart) fun _ _ _ => step (advance _) fun _ => pure trivial

theorem skipMisc (keepsText keepsText' : Bool) (fuel : Nat) :
    SameRun Eq (Reading.skipMisc keepsText fuel) (Reading.skipMisc keepsText' fuel) := by
  induction fuel with
  | zero => exact refl skipSpace
  | succ fuel ih =>
    refine step skipSpace fun _ => step (startsWith _) fun _ => ite ?_ (pure rfl)
    exact bind (delimited _ _ .comment).discard fun _ _ _ => ih

section Builders
variable (builder : Builder ε) (builder' : Builder ε')

theorem readAttribute (element : ε) (element' : ε') :
    SameRun Unrelated (Reading.readAttribute builder element) (Reading.readAttribute builder' element') := by
  refine step (name _) fun name => step skipSpace fun _ => step (eat _) fun _ => required ?_
  refine step skipSpace fun _ => step mark fun start => step (modifyGet _) fun b => required ?_
  refine step (ask _) fun found => ?_
  cases found with
  | none => exact fail _
  | some length =>
    refine step (advance length) fun _ => bind (lexeme _ _ start) fun raw raw' _ => ?_
    cases raw <;> cases raw' <;> exact pure trivial

theorem restOfTag (fuel : Nat) (element : ε) (element' : ε') :
    SameRun (fun tag tag' => tag.2 = tag'.2) (Reading.restOfTag builder fuel element)
      (Reading.restOfTag builder' fuel element') := by
  induction fuel generalizing element element' with
  | zero => exact fail _
  | succ fuel ih =>
    refine step skipSpace fun _ => step (eat _) fun _ => ite (pure rfl) (step (eat _) fun _ => ite (pure rfl) ?_)
    refine step isAtEnd fun _ => firstIf (fail _) ?_
    exact bind (readAttribute builder builder' element element') fun made made' _ => ih made made'

/-- What has been gathered of the text and CDATA of an element does not matter before the element is complete. -/
theorem content {child : Reading (String × ε)} {child' : Reading (String × ε')}
    (reads : SameRun (fun made made' => made.1 = made'.1) child child') (name : String) (fuel : Nat) {element : ε}
    {element' : ε'} {text text' : String} {cdata? cdata?' : Option String} :
    SameRun Unrelated (Reading.content builder child name fuel element text cdata?)
      (Reading.content builder' child' name fuel element' text' cdata?') := by
  induction fuel generalizing element element' text text' cdata? cdata?' with
  | zero => exact fail _
  | succ fuel ih =>
    refine step isAtEnd fun _ => firstIf (fail _) (step (startsWith _) fun _ => ite (pure trivial) ?_)
    refine step (startsWith _) fun _ => ite (bind (delimited _ _ _).discard fun _ _ _ => ih) ?_
    refine step (startsWith _) fun _ => ite (bind (delimited _ _ _) fun _ _ _ => ih) ?_
    refine step (startsWith _) fun _ => ite (fail _) (step (startsWith _) fun _ => ite ?_ ?_)
    · exact bind reads fun _ _ _ => ih
    · refine step mark fun start => step (ask _) fun length => step (advance length) fun _ => ?_
      exact bind (lexeme _ _ start) fun _ _ _ => ih

theorem element (parts levels : Nat) :
    SameRun (fun made made' => made.1 = made'.1) (Reading.element builder parts levels)
      (Reading.element builder' parts levels) := by
  induction levels with
  | zero => exact step get fun s => step (eat _) fun _ => expected _ (thrown _)
  | succ levels ih =>
    refine step (eat _) fun _ => expected _ (step (name _) fun opening => ?_)
    refine bind (restOfTag builder builder' parts _ _) fun tag tag' same => ?_
    obtain ⟨made, isEmpty⟩ := tag
    obtain ⟨made', _⟩ := tag'
    obtain rfl : isEmpty = _ := same
    refine ite (pure rfl) (bind (content builder builder' ih opening parts) fun made made' _ => ?_)
    refine step (advance 2) fun _ => step get fun s => step (name _) fun closing => firstIf (thrown _) ?_
    exact step skipSpace fun _ => step (eat _) fun _ => expected _ (pure rfl)

theorem document : SameRun Unrelated (Reading.document builder) (Reading.document builder') := by
  refine step remaining fun parts => step skipSpace fun _ => step (startsWith _) fun _ => ?_
  refine firstIf (delimited _ _ _).discard (bind (skipMisc _ _ parts) fun _ _ _ => ?_)
  refine bind (element builder builder' parts _) fun made made' _ => bind (skipMisc _ _ parts) fun _ _ _ => ?_
  refine step isAtEnd fun _ => required (step get fun s => ?_)
  cases s.failure with
  | none => exact pure trivial
  | some cause => exact thrown _

end Builders
end SameRun

/-- Whatever builders make of a document, they come to the end of it or to an error in the same way. -/
theorem document_forgets (builder : Builder ε) (builder' : Builder ε') (input : Stream) :
    (document builder input).map Prod.snd = (document builder' input).map Prod.snd := by
  have same := SameRun.document builder builder' input
  generalize document builder input = one at same ⊢
  generalize document builder' input = two at same ⊢
  cases same <;> rfl

end Reading

/-- Whether a document is well-formed is decided by the run that also makes its value: from any stream, of bytes or of a
source that may fail, both succeed or both give the same error, with the same fault at the same place. -/
theorem validate_eq_map_ofStream (input : Stream) : validate input = (Value.ofStream input).map fun _ => () := by
  have same := Reading.document_forgets .nothing .entries input
  have forgets (ran : Except Error (Unit × Stream)) : ran.map Prod.fst = (ran.map Prod.snd).map fun _ => () := by
    cases ran <;> rfl
  have forgets' (ran : Except Error (Entries × Stream)) :
      (ran.map fun made => Value.map made.1).map (fun _ => ()) = (ran.map Prod.snd).map fun _ => () := by
    cases ran <;> rfl
  rw [validate, Value.ofStream, forgets, forgets', same]

end XmlBinding
