import XmlBinding.Proofs.Denotation
import XmlBinding.Proofs.Lexing

/-! The tree parser makes no more than the grammar derives. Whatever it makes from the tokens of some input is the
tree of a derivation: each step passes tokens that were read at a place, and the places join up. -/
namespace XmlBinding
open Text Grammar

namespace Lexes

theorem text_inv (lexes : Lexes .content c token k d) (kind : token.kind = .text) :
    k = .content ∧ token.position = c.place ∧ token.lexeme ≠ "" ∧ '<' ∉ token.lexeme.toList ∧
      Spells c token.lexeme d ∧ Tagged d := by
  cases lexes with
  | text nonempty plain spelled stops => exact ⟨rfl, rfl, nonempty, plain, spelled, stops⟩
  | @opening sec => cases sec <;> cases kind
  | _ => cases kind

theorem opening_inv (lexes : Lexes .content c token k d) (used : sec ≠ .instruction)
    (kind : token.kind = sec.startKind) :
    k = .inside sec ∧ token.position = c.place ∧ Spells c sec.opening d := by
  cases lexes with
  | @opening found => cases sec <;> cases found <;> cases kind <;> exact ⟨rfl, rfl, ‹_›⟩
  | _ => cases sec <;> cases kind

theorem endTag_inv (lexes : Lexes .content c token k d) (kind : token.kind = .endTagOpen) :
    k = .tagStart ∧ Spells c "</" d := by
  cases lexes with
  | endTag opens => exact ⟨rfl, opens⟩
  | @opening sec => cases sec <;> cases kind
  | _ => cases kind

theorem startTag_inv (lexes : Lexes .content c token k d) (kind : token.kind = .tagOpen) :
    k = .tagStart ∧ token.position = c.place ∧ Spells c "<" d := by
  cases lexes with
  | startTag opens => exact ⟨rfl, rfl, opens⟩
  | @opening sec => cases sec <;> cases kind
  | _ => cases kind

theorem tagName_inv (lexes : Lexes .tagStart c token k d) : k = .tag ∧ Name c token.lexeme d := by
  cases lexes with
  | tagName named => exact ⟨rfl, named⟩

theorem name_inv (lexes : Lexes .tag c token k d) (kind : token.kind = .name) :
    k = .tag ∧ ∃ m, Space c m ∧ Name m token.lexeme d := by
  cases lexes with
  | tag space lexes => cases lexes <;> cases kind; exact ⟨rfl, _, space, ‹_›⟩

theorem equals_inv (lexes : Lexes .tag c token k d) (kind : token.kind = .equals) :
    k = .tag ∧ ∃ m, Space c m ∧ Spells m "=" d := by
  cases lexes with
  | tag space lexes => cases lexes <;> cases kind; exact ⟨rfl, _, space, ‹_›⟩

theorem string_inv (lexes : Lexes .tag c token k d) (kind : token.kind = .string) :
    k = .tag ∧ ∃ m, Space c m ∧ token.position = m.place ∧ Quoted m (unquote token.lexeme) d := by
  cases lexes with
  | tag space lexes => cases lexes <;> cases kind; exact ⟨rfl, _, space, rfl, ‹_›⟩

/-- The kind of the token that ends the tag of an element. -/
def endingKind (isEmpty : Bool) : TokenKind := if isEmpty then .selfClose else .tagClose

theorem ending_inv {isEmpty : Bool} (lexes : Lexes .tag c token k d) (kind : token.kind = endingKind isEmpty) :
    k = .content ∧ ∃ m, Space c m ∧ Spells m (ending isEmpty) d := by
  cases lexes with
  | tag space lexes =>
    cases isEmpty <;> cases lexes <;> cases kind <;> exact ⟨rfl, _, space, ‹_›⟩

end Lexes

/-- The tokens of the body of a section: none if it is empty. -/
def bodyTokens (sec : Section) (body : String) (place : Position) : List Token :=
  if body = "" then [] else [⟨sec.contentKind, body, place⟩]

theorem dropWhile_body (sec : Section) (body : String) (place last : Position) (rest : List Token) :
    (bodyTokens sec body place ++ ⟨sec.endKind, sec.terminator, last⟩ :: rest).dropWhile
      (fun token => token.kind ≠ sec.endKind) = ⟨sec.endKind, sec.terminator, last⟩ :: rest := by
  have apart : sec.contentKind ≠ sec.endKind := by cases sec <;> decide
  unfold bodyTokens
  split <;> simp [apart]

theorem takeWhile_body (body : String) (place last : Position) (rest : List Token) :
    (bodyTokens .cdata body place ++ ⟨Section.cdata.endKind, Section.cdata.terminator, last⟩ :: rest).takeWhile
      (fun token => token.kind = .cdataContent) = bodyTokens .cdata body place := by
  unfold bodyTokens
  split <;> simp [Section.contentKind, Section.endKind]

theorem foldl_body (body : String) (place : Position) :
    (bodyTokens .cdata body place).foldl (fun text token => text ++ token.lexeme) "" = body := by
  unfold bodyTokens
  split
  · rename_i empty
    exact empty.symm
  · simp

/-- What may stand behind the start of a section: nothing but the end, or the rest of the section. -/
inductive RestOf (sec : Section) (c : Cursor) (tokens : Tokens) : Prop where
  | cutOff (none : tokens.tokens = []) (last : ∀ token, tokens.current = .ok token → token.kind = .endOfInput)
  | whole (enclosed : Enclosed sec c body d)
      (split : tokens.tokens = bodyTokens sec body place ++ ⟨sec.endKind, sec.terminator, last⟩ :: rest)
      (there : Reads .content d ⟨rest, tokens.last⟩)

namespace Reads

/-- Inside a section stand the tokens of its body and of its terminator. -/
theorem inside_complete (reads : Reads (.inside sec) c tokens) (inner : Spells c body m)
    (closes : Spells m sec.terminator d)
    (found : Scan.indexOf? (bytes sec.terminator) c.ahead = some (bytes body).length) :
    ∃ place last rest, tokens.tokens = bodyTokens sec body place ++ ⟨sec.endKind, sec.terminator, last⟩ :: rest ∧
      Reads .content d ⟨rest, tokens.last⟩ := by
  by_cases empty : body = ""
  · subst empty
    have same : m = c := inner.past
    rw [same] at closes
    obtain ⟨rest, split, there⟩ := reads.next (.terminator closes)
    exact ⟨c.place, c.place, rest, split, there⟩
  · obtain ⟨rest, split, there⟩ := reads.next (.body empty inner found)
    obtain ⟨rest', split', there'⟩ := there.next (.terminator closes)
    refine ⟨c.place, m.place, rest', ?_, there'⟩
    rw [split, bodyTokens, if_neg empty]
    exact congrArg (_ :: ·) split'

theorem inside_sound (opens : Spells c sec.opening c₁) (reads : Reads (.inside sec) c₁ tokens) :
    RestOf sec c tokens := by
  have finish {body : String} {m d : Cursor} (inner : Spells c₁ body m) (closes : Spells m sec.terminator d)
      (found : Scan.indexOf? (bytes sec.terminator) c₁.ahead = some (bytes body).length) : RestOf sec c tokens := by
    obtain ⟨place, last, rest, split, there⟩ := reads.inside_complete inner closes found
    have enclosed := enclosed_past opens found inner.take
    rw [← inner.past, ← closes.past] at enclosed
    exact .whole enclosed split there
  cases split : tokens.tokens with
  | nil =>
    refine .cutOff split fun token read => Decidable.byContradiction fun more => ?_
    obtain ⟨_, _, _, split', -⟩ := reads.current read (by rw [Wanted, bne_iff_ne]; exact more)
    cases split.symm.trans split'
  | cons token rest =>
    obtain ⟨rest', k, d, -, lexes, there⟩ := reads.current (by rw [Tokens.current, split])
      (by rw [Wanted, bne_iff_ne]; exact reads.kind_ne split)
    cases lexes with
    | terminator closes =>
      have here := List.isPrefixOf_iff_prefix.1 closes.isPrefix
      exact finish (.refl c₁) closes (Scan.indexOf?_eq_some_iff.2 ⟨by simp, by simpa using here, by simp⟩)
    | body nonempty inner found => exact finish inner (inner.followed found) found

end Reads

/-- The state of parsing with other tokens left. -/
def Parsing.withTokens (p : Parsing σ) (list : List Token) : Parsing σ :=
  { p with tokens := { p.tokens with tokens := list } }

/-- How many tokens are left before the last. -/
def Parsing.left (p : Parsing σ) : Nat := p.tokens.tokens.length

namespace Parse
variable {σ : Type}

theorem bind_ok {x : Parse σ α} {f : α → Parse σ β} :
    (x >>= f) p = .ok b p'' ↔ ∃ a p', x p = .ok a p' ∧ f a p' = .ok b p'' := by
  change EStateM.bind x f p = _ ↔ _
  unfold EStateM.bind
  cases x p with
  | error e p' => simp
  | ok a p' =>
    constructor
    · exact fun ran => ⟨a, p', rfl, ran⟩
    · rintro ⟨a', p₁, same, ran⟩
      cases same
      exact ran

theorem bind_of {x : Parse σ α} (ran : x p = .ok a p') (f : α → Parse σ β) : (x >>= f) p = f a p' := by
  change EStateM.bind x f p = _
  rw [EStateM.bind, ran]

theorem pure_ok {a : α} : (pure a : Parse σ α) p = .ok b p' ↔ a = b ∧ p = p' := by
  change EStateM.Result.ok a p = _ ↔ _
  simp

theorem ite_run {q : Prop} [Decidable q] (x y : Parse σ α) (p : Parsing σ) :
    (if q then x else y) p = if q then x p else y p := by
  split <;> rfl

theorem discard_ok {x : Parse σ α} : discard x p = .ok u p' ↔ ∃ a, x p = .ok a p' := by
  change EStateM.map _ x p = _ ↔ _
  unfold EStateM.map
  cases x p with
  | error e p' => simp
  | ok a p' => simp

theorem discard_of {x : Parse σ α} (ran : x p = .ok a p') : discard x p = .ok () p' :=
  discard_ok.2 ⟨a, ran⟩

theorem failAt_ne {α : Type} {fault : Fault} {place : Position} {p p' : Parsing σ} {r : α} :
    failAt fault place p ≠ .ok r p' := by
  intro ran
  cases ran

theorem fail_ne {α : Type} {fault : Fault} {p p' : Parsing σ} {r : α} : fail fault p ≠ .ok r p' := by
  intro ran
  obtain ⟨_, _, -, ran⟩ := bind_ok.1 ran
  exact failAt_ne ran

theorem unexpected_ne {α : Type} {expected : Expectation} {p p' : Parsing σ} {r : α} :
    unexpected expected p ≠ .ok r p' := by
  intro ran
  obtain ⟨_, _, -, ran⟩ := bind_ok.1 ran
  exact failAt_ne ran

theorem when_ok {q : Prop} [Decidable q] {stop : Parse σ Unit} {next : Unit → Parse σ α}
    (never : ∀ {r p'}, stop p ≠ .ok r p') (ran : (if q then stop >>= next else next ()) p = .ok b p') :
    ¬ q ∧ next () p = .ok b p' := by
  split at ran
  · obtain ⟨_, _, stopped, -⟩ := bind_ok.1 ran
    exact absurd stopped never
  · rename_i passed
    exact ⟨passed, ran⟩

theorem current_ok {p p' : Parsing σ} : current p = .ok token p' ↔ p.tokens.current = .ok token ∧ p = p' := by
  have got : (get : Parse σ (Parsing σ)) p = .ok p p := rfl
  unfold current
  rw [bind_of got, Tokens.current]
  cases p.tokens.tokens with
  | cons first rest => exact pure_ok.trans (by simp)
  | nil =>
    dsimp only
    cases p.tokens.last with
    | ok last => exact pure_ok.trans (by simp)
    | error e =>
      constructor
      · intro ran
        cases ran
      · rintro ⟨read, -⟩
        cases read

theorem remaining_ok (p : Parsing σ) : remaining p = .ok p.tokens.tokens p := rfl

theorem moveTo_ok {p p' : Parsing σ} : moveTo list p = .ok u p' ↔
    p' = p.withTokens list ∧ ∃ token, (p.withTokens list).tokens.current = .ok token := by
  have changed : (modify fun state =>
      { state with tokens := { state.tokens with tokens := list } } : Parse σ Unit) p =
      .ok () (p.withTokens list) := rfl
  unfold moveTo
  rw [bind_of changed, discard_ok]
  simp only [current_ok]
  constructor
  · rintro ⟨token, read, rfl⟩
    exact ⟨rfl, token, read⟩
  · rintro ⟨rfl, token, read⟩
    exact ⟨token, read, rfl⟩

theorem advance_ok {p p' : Parsing σ} : advance p = .ok token p' ↔ p.tokens.current = .ok token ∧
    p' = p.withTokens p.tokens.tokens.tail ∧ ∃ next, p'.tokens.current = .ok next := by
  unfold advance
  simp only [bind_ok, current_ok, remaining_ok, moveTo_ok, pure_ok]
  constructor
  · rintro ⟨_, _, ⟨read, rfl⟩, _, _, same, _, _, ⟨rfl, next⟩, rfl, rfl⟩
    cases same
    exact ⟨read, rfl, next⟩
  · rintro ⟨read, rfl, next⟩
    exact ⟨_, _, ⟨read, rfl⟩, _, _, rfl, (), _, ⟨rfl, next⟩, rfl, rfl⟩

theorem expect_ok {p p' : Parsing σ} :
    expect kind p = .ok token p' ↔ token.kind = kind ∧ advance p = .ok token p' := by
  unfold expect
  simp only [bind_ok, current_ok, ite_run]
  constructor
  · rintro ⟨first, _, ⟨read, rfl⟩, ran⟩
    split at ran
    · rename_i same
      have given := (advance_ok.1 ran).1
      cases read.symm.trans given
      exact ⟨same, ran⟩
    · exact absurd ran unexpected_ne
  · rintro ⟨same, ran⟩
    exact ⟨token, p, ⟨(advance_ok.1 ran).1, rfl⟩, by rw [if_pos same]; exact ran⟩

theorem advance_sound {p p' : Parsing σ} (here : Reads k c p.tokens) (ran : advance p = .ok token p')
    (wanted : Wanted k token.kind = true) : ∃ k' d, Lexes k c token k' d ∧ Reads k' d p'.tokens := by
  obtain ⟨read, rfl, -⟩ := advance_ok.1 ran
  obtain ⟨rest, k', d, split, lexes, there⟩ := here.current read wanted
  refine ⟨k', d, lexes, ?_⟩
  rw [split]
  exact there

theorem discard_bind {x : Parse σ α} {f : Unit → Parse σ β} (ran : (discard x >>= f) p = .ok b p') :
    (x >>= fun _ => f ()) p = .ok b p' := by
  obtain ⟨_, p₁, dropped, ran⟩ := bind_ok.1 ran
  obtain ⟨a, dropped⟩ := discard_ok.1 dropped
  exact bind_ok.2 ⟨a, p₁, dropped, ran⟩

theorem current_bind {f : Token → Parse σ α} {p p' : Parsing σ} (ran : (current >>= f) p = .ok b p') :
    ∃ token, p.tokens.current = .ok token ∧ f token p = .ok b p' := by
  obtain ⟨token, _, looked, ran⟩ := bind_ok.1 ran
  obtain ⟨read, rfl⟩ := current_ok.1 looked
  exact ⟨token, read, ran⟩

/-- What goes on after the current token has been passed goes on behind it. -/
theorem advance_bind {f : Token → Parse σ α} {p p' : Parsing σ} (here : Reads k c p.tokens)
    (read : p.tokens.current = .ok token) (wanted : Wanted k token.kind = true)
    (ran : (advance >>= f) p = .ok b p') :
    ∃ p₁ k' d, Lexes k c token k' d ∧ Reads k' d p₁.tokens ∧ f token p₁ = .ok b p' := by
  obtain ⟨_, p₁, moved, ran⟩ := bind_ok.1 ran
  cases read.symm.trans (advance_ok.1 moved).1
  obtain ⟨k', d, lexes, there⟩ := advance_sound here moved wanted
  exact ⟨p₁, k', d, lexes, there, ran⟩

theorem expect_bind {f : Token → Parse σ α} {p p' : Parsing σ} (ran : (expect kind >>= f) p = .ok b p') :
    ∃ token, p.tokens.current = .ok token ∧ token.kind = kind ∧ (advance >>= f) p = .ok b p' := by
  obtain ⟨token, p₁, moved, ran⟩ := bind_ok.1 ran
  obtain ⟨same, moved⟩ := expect_ok.1 moved
  exact ⟨token, (advance_ok.1 moved).1, same, bind_ok.2 ⟨token, p₁, moved, ran⟩⟩

theorem readAttribute_sound {p p' : Parsing σ} (here : Reads .tag c p.tokens)
    (first : p.tokens.current = .ok token) (kind : token.kind = .name)
    (ran : readAttribute properties p = .ok made p') :
    ∃ m written d, Space c m ∧ Attr m written d ∧ made = addAttributes properties [written] ∧
      Reads .tag d p'.tokens := by
  unfold readAttribute at ran
  obtain ⟨_, _, c₁, lexes, here, ran⟩ := advance_bind here first (by rw [kind]; rfl) ran
  obtain ⟨rfl, m, space, named⟩ := lexes.name_inv kind
  obtain ⟨equals, read, ran⟩ := current_bind ran
  obtain ⟨isEquals, ran⟩ := when_ok fail_ne ran
  obtain ⟨_, _, moved, ran⟩ := bind_ok.1 ran
  obtain ⟨_, moved⟩ := discard_ok.1 moved
  cases read.symm.trans (advance_ok.1 moved).1
  have isEquals := Decidable.not_not.1 isEquals
  obtain ⟨_, c₂, lexes, here⟩ := advance_sound here moved (by rw [isEquals]; rfl)
  obtain ⟨rfl, m₁, before, spelled⟩ := lexes.equals_inv isEquals
  obtain ⟨value, read, ran⟩ := current_bind ran
  obtain ⟨-, ran⟩ := when_ok fail_ne ran
  obtain ⟨isString, ran⟩ := when_ok fail_ne ran
  have isString := Decidable.not_not.1 isString
  obtain ⟨_, _, c₃, lexes, here, ran⟩ := advance_bind here read (by rw [isString]; rfl) (discard_bind ran)
  obtain ⟨rfl, m₂, after, place, quoted⟩ := lexes.string_inv isString
  obtain ⟨rfl, rfl⟩ := pure_ok.1 ran
  exact ⟨m, _, c₃, space, .intro named before spelled after quoted, by rw [place]; rfl, here⟩

theorem restOfTag_sound {p p' : Parsing σ} (here : Reads .tag c p.tokens)
    (ran : restOfTag fuel properties p = .ok (made, isEmpty) p') :
    ∃ list c₁ c₂ d, Attributes c list c₁ ∧ Space c₁ c₂ ∧ Spells c₂ (ending isEmpty) d ∧
      made = addAttributes properties list ∧ Reads .content d p'.tokens := by
  induction fuel generalizing p c properties with
  | zero => exact absurd ran unexpected_ne
  | succ fuel ih =>
    unfold restOfTag at ran
    obtain ⟨token, read, ran⟩ := current_bind ran
    have closing (isEmpty' : Bool) (kind : token.kind = Lexes.endingKind isEmpty')
        (ran : (discard advance >>= fun _ => pure (properties, isEmpty')) p = .ok (made, isEmpty) p') :
        ∃ list c₁ c₂ d, Attributes c list c₁ ∧ Space c₁ c₂ ∧ Spells c₂ (ending isEmpty) d ∧
          made = addAttributes properties list ∧ Reads .content d p'.tokens := by
      obtain ⟨_, _, d, lexes, here, ran⟩ :=
        advance_bind here read (by rw [kind]; cases isEmpty' <;> rfl) (discard_bind ran)
      obtain ⟨rfl, m, space, spelled⟩ := lexes.ending_inv kind
      obtain ⟨same, rfl⟩ := pure_ok.1 ran
      cases same
      exact ⟨[], c, m, d, .nil, space, spelled, rfl, here⟩
    cases kind : token.kind with
    | name =>
      rw [kind] at ran
      obtain ⟨_, _, read', ran⟩ := bind_ok.1 ran
      obtain ⟨m, written, c₁, space, attr, rfl, here⟩ := readAttribute_sound here read kind read'
      obtain ⟨list, c₂, c₃, d, more, space', ends, rfl, here⟩ := ih here ran
      exact ⟨written :: list, c₂, c₃, d, .cons space attr more, space', ends, rfl, here⟩
    | selfClose =>
      rw [kind] at ran
      exact closing true kind ran
    | tagClose =>
      rw [kind] at ran
      exact closing false kind ran
    | _ =>
      rw [kind] at ran
      exact absurd ran unexpected_ne

/-- Behind the first token of a section stands the rest of the section, if all of it could be read. -/
theorem start_sound {p p' : Parsing σ} (sec : Section) (here : Reads .content c p.tokens)
    (first : p.tokens.current = .ok token) (used : sec ≠ .instruction) (kind : token.kind = sec.startKind)
    (ran : advance p = .ok token' p') : token.position = c.place ∧ RestOf sec c p'.tokens := by
  cases first.symm.trans (advance_ok.1 ran).1
  obtain ⟨_, c₁, lexes, here⟩ := advance_sound here ran
    (by rw [kind]; cases sec <;> first | rfl | exact absurd rfl used)
  obtain ⟨rfl, place, opens⟩ := lexes.opening_inv used kind
  exact ⟨place, here.inside_sound opens⟩

theorem skipSection_sound {p p' : Parsing σ} (sec : Section) (here : Reads .content c p.tokens)
    (first : p.tokens.current = .ok token) (used : sec ≠ .instruction) (kind : token.kind = sec.startKind)
    (ran : skipSection sec.endKind p = .ok u p') :
    ∃ body d, Enclosed sec c body d ∧ Reads .content d p'.tokens := by
  unfold skipSection at ran
  obtain ⟨_, p₁, moved, ran⟩ := bind_ok.1 ran
  obtain ⟨_, moved⟩ := discard_ok.1 moved
  rw [bind_of (remaining_ok _)] at ran
  cases (start_sound sec here first used kind moved).2 with
  | cutOff none =>
    rw [none] at ran
    obtain ⟨_, _, -, ran⟩ := bind_ok.1 ran
    exact absurd ran fail_ne
  | whole enclosed split there =>
    rw [split, dropWhile_body] at ran
    obtain ⟨rfl, -⟩ := moveTo_ok.1 ran
    exact ⟨_, _, enclosed, there⟩

/-- The bodies of a CDATA section are read up to its end and joined. -/
theorem cdata_sound {p p' : Parsing σ} (here : Reads .content c p.tokens) (read : p.tokens.current = .ok token)
    (kind : token.kind = .cdataStart) {f : String → Parse σ α} (ran : (do
      discard advance
      let left ← remaining
      moveTo ((← remaining).drop (left.takeWhile fun token => token.kind = .cdataContent).length)
      discard (expect .cdataEnd)
      f ((left.takeWhile fun token => token.kind = .cdataContent).foldl (fun text token => text ++ token.lexeme)
        "") : Parse σ α) p = .ok made p') :
    ∃ body d p₁, token.position = c.place ∧ Enclosed .cdata c body d ∧ Reads .content d p₁.tokens ∧
      f body p₁ = .ok made p' := by
  obtain ⟨_, p₁, moved, ran⟩ := bind_ok.1 ran
  obtain ⟨_, moved⟩ := discard_ok.1 moved
  rw [bind_of (remaining_ok _), bind_of (remaining_ok _)] at ran
  obtain ⟨_, p₂, moved', ran⟩ := bind_ok.1 ran
  obtain ⟨rfl, -⟩ := moveTo_ok.1 moved'
  obtain ⟨_, p₃, ended, ran⟩ := bind_ok.1 ran
  obtain ⟨_, ended⟩ := discard_ok.1 ended
  obtain ⟨isEnd, ended⟩ := expect_ok.1 ended
  obtain ⟨readEnd, rfl, -⟩ := advance_ok.1 ended
  obtain ⟨place, found⟩ := start_sound .cdata here read (by decide) kind moved
  cases found with
  | cutOff none last =>
    have kindEnd := last _ (by rw [Tokens.current, none]; rw [none] at readEnd; exact readEnd)
    cases isEnd.symm.trans kindEnd
  | whole enclosed split there =>
    rw [split, takeWhile_body, foldl_body, List.drop_left] at ran
    exact ⟨_, _, _, place, enclosed, there, ran⟩

theorem addChild_fresh {p : Parsing Unit} (properties : Properties) (name : String) (child : Node) :
    addChild .fresh properties name child p = .ok (properties.insertChild name child) p := by
  unfold addChild
  cases properties.get? name with
  | none => rfl
  | some node => cases node <;> rfl

/-- A parser of child elements makes no more than the grammar derives. -/
def Sound (reader : Parse Unit (String × Node)) (nested : Cursor → Tag → Body → Cursor → Prop) : Prop :=
  ∀ {p c name node p'}, Reads .content c p.tokens → reader p = .ok (name, node) p' →
    ∃ tag inside d, nested c tag inside d ∧ name = tag.name ∧ node = tag.node inside ∧ Reads .content d p'.tokens

theorem content_sound {p p' : Parsing Unit} (child : Sound reader nested) (here : Reads .content c p.tokens)
    (ran : content .fresh reader outer fuel soFar p = .ok made p') :
    ∃ body d, Contents nested c body d ∧ made = body.addTo soFar ∧ Reads .content d p'.tokens := by
  induction fuel generalizing p c soFar with
  | zero => exact absurd ran fail_ne
  | succ fuel ih =>
    unfold content at ran
    obtain ⟨token, read, ran⟩ := current_bind ran
    cases kind : token.kind with
    | endTagOpen =>
      rw [kind] at ran
      obtain ⟨rfl, rfl⟩ := pure_ok.1 ran
      exact ⟨.done, c, .done, rfl, here⟩
    | text =>
      rw [kind] at ran
      obtain ⟨_, _, d, lexes, here, ran⟩ := advance_bind here read (by rw [kind]; rfl) (discard_bind ran)
      obtain ⟨rfl, place, nonempty, plain, spelled, -⟩ := lexes.text_inv kind
      obtain ⟨body, e, contents, rfl, here⟩ := ih here ran
      refine ⟨.text token.lexeme c.place body, e, .text nonempty plain spelled contents, ?_, here⟩
      rw [Body.addTo, place]
    | name =>
      obtain ⟨rest, k, d, -, lexes, -⟩ := here.current read (by rw [kind]; rfl)
      cases lexes with
      | @opening sec => cases sec <;> cases kind
      | _ => cases kind
    | cdataStart =>
      rw [kind] at ran
      obtain ⟨cdata, d, _, place, enclosed, here, ran⟩ := cdata_sound
        (f := fun body => content .fresh reader outer fuel (soFar.addCData body token.position)) here read kind ran
      obtain ⟨body, e, contents, rfl, here⟩ := ih here ran
      refine ⟨.cdata cdata c.place body, e, .cdata enclosed contents, ?_, here⟩
      rw [Body.addTo, place]
    | commentStart =>
      rw [kind] at ran
      obtain ⟨_, _, skipped, ran⟩ := bind_ok.1 ran
      obtain ⟨comment, d, enclosed, here⟩ :=
        skipSection_sound .comment here read (by decide) kind skipped
      obtain ⟨body, e, contents, rfl, here⟩ := ih here ran
      exact ⟨.comment body, e, .comment enclosed contents, rfl, here⟩
    | tagOpen =>
      rw [kind] at ran
      obtain ⟨⟨name, node⟩, _, read, ran⟩ := bind_ok.1 ran
      obtain ⟨tag, inside, d, inner, rfl, rfl, here⟩ := child here read
      dsimp only at ran
      rw [bind_of (addChild_fresh _ _ _)] at ran
      obtain ⟨body, e, contents, rfl, here⟩ := ih here ran
      exact ⟨.element tag inside body, e, .element inner contents, rfl, here⟩
    | _ =>
      rw [kind] at ran
      exact absurd ran fail_ne

theorem newProperties_fresh (p : Parsing Unit) : newProperties .fresh p = .ok [] p := rfl

/-- The tag that begins an element: where it stands, its name, its attributes and whether the element ends with it. -/
def openTag (supply : Supply σ) (parts : Nat) : Parse σ (Position × String × Properties × Bool) := do
  let start := (← current).position
  discard (expect .tagOpen)
  if (← current).kind ≠ .name then fail .expectedElementName
  let name := (← advance).lexeme
  let (properties, isEmpty) ← restOfTag parts (← newProperties supply)
  return (start, name, properties, isEmpty)

/-- The tag that ends an element of the given name. -/
def closeTag (name : String) : Parse σ Unit := do
  discard (expect .endTagOpen)
  if (← current).kind ≠ .name then fail .expectedClosingName
  let close ← advance
  if close.lexeme ≠ name then failAt (.mismatchedTags name close.lexeme) close.position
  discard (expect .tagClose)

theorem ite_bind {q : Prop} [Decidable q] (x y : Parse σ α) (f : α → Parse σ β) :
    (if q then x else y) >>= f = if q then x >>= f else y >>= f := by
  split <;> rfl

/-- An element is a tag and, unless it ends there, its content and a closing tag. -/
theorem element_succ (supply : Supply σ) (parts levels : Nat) : element supply parts (levels + 1) = (do
    let (start, name, properties, isEmpty) ← openTag supply parts
    if isEmpty then return (name, .object properties start)
    let inside ← content supply (element supply parts levels) name parts { properties }
    closeTag name
    return (name, .object (inside.finish start) start)) := by
  conv => lhs; unfold element
  simp only [openTag, closeTag, bind_assoc, pure_bind, ite_bind]

theorem openTag_sound {p p' : Parsing Unit} (here : Reads .content c p.tokens)
    (ran : openTag .fresh parts p = .ok (start, name, properties, isEmpty) p') :
    ∃ tag d, Opening isEmpty c tag d ∧ start = tag.place ∧ name = tag.name ∧
      properties = addAttributes [] tag.attributes ∧ Reads .content d p'.tokens := by
  unfold openTag at ran
  obtain ⟨token, read, ran⟩ := current_bind ran
  obtain ⟨_, read', isOpening, ran⟩ := expect_bind (discard_bind ran)
  cases read.symm.trans read'
  obtain ⟨_, _, c₁, lexes, here, ran⟩ := advance_bind here read (by rw [isOpening]; rfl) ran
  obtain ⟨rfl, place, opens⟩ := lexes.startTag_inv isOpening
  obtain ⟨nameToken, read, ran⟩ := current_bind ran
  obtain ⟨isName, ran⟩ := when_ok fail_ne ran
  have isName := Decidable.not_not.1 isName
  obtain ⟨_, _, c₂, lexes, here, ran⟩ := advance_bind here read (by rw [isName]; rfl) ran
  obtain ⟨rfl, named⟩ := lexes.tagName_inv
  dsimp only at ran
  rw [bind_of (newProperties_fresh _)] at ran
  obtain ⟨⟨_, _⟩, _, read, ran⟩ := bind_ok.1 ran
  obtain ⟨list, c₃, c₄, d, attributes, space, ends, rfl, here⟩ := restOfTag_sound here read
  obtain ⟨same, rfl⟩ := pure_ok.1 ran
  cases same
  exact ⟨_, d, .intro opens named attributes space ends, place, rfl, rfl, here⟩

theorem closeTag_sound {p p' : Parsing σ} (here : Reads .content c p.tokens) (ran : closeTag name p = .ok u p') :
    ∃ d, Closing c name d ∧ Reads .content d p'.tokens := by
  unfold closeTag at ran
  obtain ⟨_, read, isClosing, ran⟩ := expect_bind (discard_bind ran)
  obtain ⟨_, _, c₁, lexes, here, ran⟩ := advance_bind here read (by rw [isClosing]; rfl) ran
  obtain ⟨rfl, closes⟩ := lexes.endTag_inv isClosing
  obtain ⟨closing, read, ran⟩ := current_bind ran
  obtain ⟨isName, ran⟩ := when_ok fail_ne ran
  have isName := Decidable.not_not.1 isName
  obtain ⟨_, _, c₂, lexes, here, ran⟩ := advance_bind here read (by rw [isName]; rfl) ran
  obtain ⟨rfl, named⟩ := lexes.tagName_inv
  obtain ⟨same, ran⟩ := when_ok failAt_ne ran
  rw [Decidable.not_not.1 same] at named
  obtain ⟨_, ran⟩ := discard_ok.1 ran
  obtain ⟨isEnd, ran⟩ := expect_ok.1 ran
  obtain ⟨_, d, lexes, here⟩ := advance_sound here ran (by rw [isEnd]; rfl)
  obtain ⟨rfl, c₃, space, ends⟩ := lexes.ending_inv (show _ = Lexes.endingKind false from isEnd)
  exact ⟨d, .intro closes named space ends, here⟩

theorem element_sound (parts levels : Nat) : Sound (element .fresh parts levels) (Element levels) := by
  induction levels with
  | zero =>
    intro p c name node p' here ran
    unfold element at ran
    obtain ⟨_, _, ran⟩ := current_bind ran
    obtain ⟨_, _, -, ran⟩ := bind_ok.1 ran
    exact absurd ran failAt_ne
  | succ levels ih =>
    intro p c name node p' here ran
    rw [element_succ] at ran
    obtain ⟨⟨start, _, properties, isEmpty⟩, _, opened, ran⟩ := bind_ok.1 ran
    obtain ⟨tag, c₁, opening, rfl, rfl, rfl, here⟩ := openTag_sound here opened
    cases isEmpty with
    | true =>
      obtain ⟨same, rfl⟩ := pure_ok.1 ran
      cases same
      refine ⟨tag, .done, c₁, .empty opening, rfl, ?_, here⟩
      rw [Tag.node, Body.addTo, finish_nothing]
    | false =>
      dsimp only at ran
      rw [if_neg Bool.false_ne_true] at ran
      obtain ⟨_, _, read, ran⟩ := bind_ok.1 ran
      obtain ⟨inside, c₂, contents, rfl, here⟩ := content_sound ih here read
      obtain ⟨_, _, closed, ran⟩ := bind_ok.1 ran
      obtain ⟨d, closing, here⟩ := closeTag_sound here closed
      obtain ⟨same, rfl⟩ := pure_ok.1 ran
      cases same
      exact ⟨tag, inside, d, .full opening contents closing, rfl, rfl, here⟩

/-- Blank text before a tag is skipped as space. -/
theorem blank_sound {tokens : Tokens} (here : Reads .content c tokens) :
    ∃ d, Space c d ∧ Reads .content d ⟨tokens.tokens.dropWhile Token.isBlankText, tokens.last⟩ := by
  obtain ⟨list, last⟩ := tokens
  induction list generalizing c with
  | nil => exact ⟨c, .refl c, here⟩
  | cons token rest ih =>
    rw [List.dropWhile_cons]
    split
    · rename_i blank
      simp only [Token.isBlankText, Bool.and_eq_true, decide_eq_true_eq] at blank
      obtain ⟨_, k, d, split, lexes, there⟩ := here.current rfl (by rw [blank.1]; rfl)
      cases split
      obtain ⟨rfl, -, -, -, spelled, -⟩ := lexes.text_inv blank.1
      obtain ⟨e, space, there⟩ := ih there
      exact ⟨e, .trans ⟨token.lexeme, List.all_eq_true.1 blank.2, spelled⟩ space, there⟩
    · exact ⟨c, .refl c, here⟩

theorem skipMisc_sound {p p' : Parsing σ} (here : Reads .content c p.tokens) (ran : skipMisc fuel p = .ok u p') :
    ∃ d, Misc c d ∧ Reads .content d p'.tokens := by
  induction fuel generalizing p c with
  | zero =>
    obtain ⟨-, rfl⟩ := pure_ok.1 ran
    exact ⟨c, .done, here⟩
  | succ fuel ih =>
    unfold skipMisc at ran
    obtain ⟨token, read, ran⟩ := current_bind ran
    split at ran
    · rename_i blank
      simp only [Token.isBlankText, Bool.and_eq_true, decide_eq_true_eq] at blank
      obtain ⟨_, _, c₁, lexes, here, ran⟩ := advance_bind here read (by rw [blank.1]; rfl) (discard_bind ran)
      obtain ⟨rfl, -, -, -, spelled, -⟩ := lexes.text_inv blank.1
      obtain ⟨d, misc, here⟩ := ih here ran
      exact ⟨d, .space ⟨token.lexeme, List.all_eq_true.1 blank.2, spelled⟩ misc, here⟩
    · split at ran
      · rename_i kind
        obtain ⟨_, _, skipped, ran⟩ := bind_ok.1 ran
        obtain ⟨comment, c₁, enclosed, here⟩ := skipSection_sound .comment here read (by decide) kind skipped
        obtain ⟨d, misc, here⟩ := ih here ran
        exact ⟨d, .comment enclosed misc, here⟩
      · obtain ⟨-, rfl⟩ := pure_ok.1 ran
        exact ⟨c, .done, here⟩

theorem prolog_sound {p p' : Parsing σ} (here : Reads .content c p.tokens) (read : p.tokens.current = .ok token)
    {next : Unit → Parse σ α} (ran : (if token.kind = .declarationStart then
      skipSection .instructionEnd >>= next else next ()) p = .ok r p') :
    ∃ d p₁, Prolog c d ∧ Reads .content d p₁.tokens ∧ next () p₁ = .ok r p' := by
  split at ran
  · rename_i kind
    obtain ⟨_, p₁, skipped, ran⟩ := bind_ok.1 ran
    obtain ⟨body, d, enclosed, here⟩ := skipSection_sound .declaration here read (by decide) kind skipped
    exact ⟨d, p₁, .declaration enclosed, here, ran⟩
  · exact ⟨c, p, .none, here, ran⟩

/-- What is made of the tokens of some input is the tree of what the grammar derives. -/
theorem document_sound {input : List UInt8} {p p' : Parsing Unit} (here : Reads .content (.start input) p.tokens)
    (ran : document .fresh p = .ok node p') :
    ∃ tag inside, Document input tag inside ∧ node = tag.node inside := by
  unfold document at ran
  rw [bind_of (remaining_ok _)] at ran
  obtain ⟨_, _, looked, ran⟩ := bind_ok.1 ran
  obtain ⟨_, looked⟩ := discard_ok.1 looked
  obtain ⟨-, rfl⟩ := current_ok.1 looked
  obtain ⟨_, _, skipped, ran⟩ := bind_ok.1 ran
  unfold skipBlankText at skipped
  rw [bind_of (remaining_ok _)] at skipped
  obtain ⟨rfl, -⟩ := moveTo_ok.1 skipped
  obtain ⟨c₁, space, here⟩ := blank_sound here
  obtain ⟨token, read, ran⟩ := current_bind ran
  obtain ⟨c₂, _, prolog, here, ran⟩ := prolog_sound here read ran
  obtain ⟨_, _, skipped, ran⟩ := bind_ok.1 ran
  obtain ⟨c₃, before, here⟩ := skipMisc_sound here skipped
  obtain ⟨⟨_, root⟩, _, made, ran⟩ := bind_ok.1 ran
  obtain ⟨tag, inside, c₄, element, rfl, rfl, here⟩ := element_sound _ _ here made
  obtain ⟨_, _, skipped, ran⟩ := bind_ok.1 ran
  obtain ⟨d, after, here⟩ := skipMisc_sound here skipped
  obtain ⟨token, read, ran⟩ := current_bind ran
  obtain ⟨last, ran⟩ := when_ok failAt_ne ran
  obtain ⟨rfl, -⟩ := pure_ok.1 ran
  have ended := here.endOfInput read (Decidable.not_not.1 last)
  exact ⟨tag, inside, .intro space prolog before element after ended, rfl⟩

end Parse

end XmlBinding
