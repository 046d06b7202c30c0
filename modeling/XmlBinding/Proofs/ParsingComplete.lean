import XmlBinding.Proofs.Parsing

/-! The tree parser makes whatever the grammar derives. Along a derivation the tokens stand ready one after another, and
the number of tokens left bounds the steps. Every step ends with a look at the token behind it, and every step begins
with one, so what follows a step runs as if it had begun there. -/
namespace XmlBinding
open Text Grammar

theorem ending_lexes (isEmpty : Bool) (space : Space c m) (ends : Spells m (ending isEmpty) d) :
    Lexes .tag c ⟨Lexes.endingKind isEmpty, ending isEmpty, m.place⟩ .content d := by
  cases isEmpty with
  | true => exact .tag space (.selfClose ends)
  | false => exact .tag space (.tagClose ends)

theorem enclosed_lexes (used : sec ≠ .instruction) (enclosed : Enclosed sec c body d) :
    ∃ c₁ m, Lexes .content c ⟨sec.startKind, sec.opening, c.place⟩ (.inside sec) c₁ ∧ Spells c₁ body m ∧
      Spells m sec.terminator d ∧ Scan.indexOf? (bytes sec.terminator) c₁.ahead = some (bytes body).length := by
  obtain ⟨c₁, m, opens, inner, closes, found⟩ := enclosed.measured
  exact ⟨c₁, m, .opening used opens found, inner, closes, found⟩

theorem opensTag_lexes (opens : OpensTag c) (spelled : Spells c "<" d) :
    Lexes .content c ⟨.tagOpen, "<", c.place⟩ .tagStart d :=
  .startTag spelled opens.notClosing opens.notSection

theorem Lexes.left_pos {p : Parsing σ} (lexes : Lexes k c token k' d) (here : Reads k c p.tokens) : 0 < p.left := by
  obtain ⟨rest, split, -⟩ := here.next lexes
  rw [Parsing.left, split]
  exact Nat.succ_pos _

namespace Parse
variable {σ : Type}

/-! A look at the current token, before a step and behind it. -/

theorem current_error {p : Parsing σ} (read : p.tokens.current = .error e) : current p = .error e p := by
  have got : (get : Parse σ (Parsing σ)) p = .ok p p := rfl
  unfold current
  rw [bind_of got]
  unfold Tokens.current at read
  cases split : p.tokens.tokens with
  | cons first rest => rw [split] at read; cases read
  | nil =>
    rw [split] at read
    dsimp only at read ⊢
    rw [read]
    rfl

theorem bind_stopped {x : Parse σ α} (stopped : x p = .error e p') (f : α → Parse σ β) :
    (x >>= f) p = .error e p' := by
  change EStateM.bind x f p = _
  rw [EStateM.bind, stopped]

theorem discard_stopped {x : Parse σ α} (stopped : x p = .error e p') : discard x p = .error e p' := by
  change EStateM.map _ x p = _
  rw [EStateM.map, stopped]

theorem read_bind {p : Parsing σ} (read : p.tokens.current = .ok token) (f : Unit → Parse σ α) :
    (discard current >>= f) p = f () p :=
  bind_of (discard_of (current_ok.2 ⟨read, rfl⟩)) f

theorem unread_bind {p : Parsing σ} (read : p.tokens.current = .error e) (f : Unit → Parse σ α) :
    (discard current >>= f) p = .error e p :=
  bind_stopped (discard_stopped (current_error read)) f

theorem bind_congr_run {x y : Parse σ α} (same : x p = y q) (f : α → Parse σ β) : (x >>= f) p = (y >>= f) q := by
  change EStateM.bind x f p = EStateM.bind y f q
  rw [EStateM.bind, EStateM.bind, same]

theorem discard_eq (x : Parse σ α) : discard x = x >>= fun _ => pure () :=
  map_eq_pure_bind (Function.const α PUnit.unit) x

/-- Gives a result if the current token can be read. -/
def arrive (a : α) : Parse σ α := do
  discard current
  return a

/-- Runs alike whether or not the current token has been looked at. -/
def Looks (x : Parse σ α) : Prop := ∀ p, (discard current >>= fun _ => x) p = x p

namespace Looks

theorem current (f : Token → Parse σ α) : Looks (current >>= f) := by
  intro p
  cases read : p.tokens.current with
  | ok token => exact read_bind read _
  | error e => rw [unread_bind read, bind_stopped (current_error read)]

theorem bind {x : Parse σ α} (looks : Looks x) (f : α → Parse σ β) : Looks (x >>= f) := by
  intro p
  rw [← bind_assoc]
  exact bind_congr_run (looks p) f

theorem discard {x : Parse σ α} (looks : Looks x) : Looks (discard x) := by
  rw [discard_eq]
  exact looks.bind _

/-- A step runs like one that begins with a look if it does so wherever the current token can be read. -/
theorem of_read {x y : Parse σ α} (looks : Looks y) (same : ∀ token, p.tokens.current = .ok token → x p = y p) :
    (Functor.discard Parse.current >>= fun _ => x) p = y p := by
  cases read : p.tokens.current with
  | ok token => exact (read_bind read _).trans (same token read)
  | error e => rw [← looks p, unread_bind read, unread_bind read]

/-- A step that reads no token may come first. -/
theorem after {x : Parse σ α} (ran : ∀ p, x p = .ok a p) {f : α → Parse σ β} (looks : Looks (f a)) :
    Looks (x >>= f) := by
  intro p
  have same : (x >>= f) p = f a p := bind_of (ran p) f
  rw [same]
  exact looks.of_read fun _ _ => same

theorem look : Looks (Parse.current : Parse σ Token) := by
  rw [← bind_pure Parse.current]
  exact current pure

theorem expect (kind : TokenKind) : Looks (expect kind : Parse σ Token) := current _

theorem restOfTag (fuel : Nat) (properties : Properties) : Looks (restOfTag fuel properties : Parse σ _) := by
  cases fuel <;> exact current _

theorem content (supply : Supply σ) (child : Parse σ (String × Node)) (name : String) (fuel : Nat)
    (soFar : Content) : Looks (content supply child name fuel soFar) := by
  cases fuel <;> exact current _

theorem element (supply : Supply σ) (parts levels : Nat) : Looks (element supply parts levels) := by
  cases levels <;> exact current _

theorem arrive (a : α) : Looks (arrive a : Parse σ α) := look.discard.bind _

end Looks

theorem arrive_bind {x : Parse σ α} (ran : x p = arrive a p') (f : α → Parse σ β) :
    (x >>= f) p = (discard current >>= fun _ => f a) p' := by
  rw [bind_congr_run ran f, arrive, bind_assoc]
  rfl

/-- What comes behind a step that has arrived goes on from there. -/
theorem onward {x : Parse σ α} {f : α → Parse σ β} (ran : x p = arrive a p') (looks : Looks (f a)) :
    (x >>= f) p = f a p' :=
  (arrive_bind ran f).trans (looks p')

theorem arrive_discard {x : Parse σ α} (ran : x p = arrive a p') : discard x p = arrive () p' := by
  rw [discard_eq]
  exact arrive_bind ran _

theorem arrive_of {p : Parsing σ} (read : p.tokens.current = .ok token) (a : α) : arrive a p = .ok a p :=
  read_bind read _

/-- A step from the tokens that are left, over at least one of them, to those at a place. -/
def Passes (x : Parse σ α) (p : Parsing σ) (a : α) (k : LexerContext) (d : Cursor) : Prop :=
  ∃ p', x p = arrive a p' ∧ Reads k d p'.tokens ∧ p'.left < p.left

theorem current_of {p : Parsing σ} (here : Reads k c p.tokens) (lexes : Lexes k c token k' d) :
    current p = .ok token p := by
  obtain ⟨rest, split, -⟩ := here.next lexes
  exact current_ok.2 ⟨by rw [Tokens.current, split], rfl⟩

theorem moveTo_eq (list : List Token) (p : Parsing σ) : moveTo list p = arrive () (p.withTokens list) := by
  have changed : (modify fun state =>
      { state with tokens := { state.tokens with tokens := list } } : Parse σ Unit) p =
      .ok () (p.withTokens list) := rfl
  unfold moveTo
  rw [bind_of changed, arrive]
  exact (congrFun (bind_pure_unit (x := discard current)) _).symm

theorem advance_passes {p : Parsing σ} (here : Reads k c p.tokens) (lexes : Lexes k c token k' d) :
    Passes advance p token k' d := by
  obtain ⟨rest, split, there⟩ := here.next lexes
  refine ⟨p.withTokens rest, ?_, there, ?_⟩
  · unfold advance
    rw [bind_of (current_of here lexes), bind_of (remaining_ok _), split]
    exact arrive_bind (moveTo_eq rest p) _
  · rw [Parsing.left, Parsing.left, split]
    exact Nat.lt_succ_self _

/-- An attribute from its value on. -/
def fromValue (properties : Properties) (name : String) : Parse σ Properties := do
  let token ← current
  if token.kind = .text ∧ (token.lexeme = "\"" ∨ token.lexeme = "'") then fail .unterminatedString
  if token.kind ≠ .string then fail (.expectedAttributeValue name)
  discard advance
  return properties.put (attributeKey name) (.literal (decodeAttribute (unquote token.lexeme)) token.position)

/-- An attribute is read on behind its equals sign. -/
theorem readAttribute_onward {p : Parsing σ} (here : Reads .tag c p.tokens) (space : Space c m)
    (named : Name m name c₁) (before : Space c₁ c₂) (equals : Spells c₂ "=" d) :
    ∃ p', Reads .tag d p'.tokens ∧ p'.left < p.left ∧ readAttribute properties p = fromValue properties name p' := by
  have equalsLexes := Lexes.tag before (.equals equals)
  obtain ⟨p₁, ran₁, here₁, less₁⟩ := advance_passes here (.tag space (.name named))
  obtain ⟨p₂, ran₂, here₂, less₂⟩ := advance_passes here₁ equalsLexes
  refine ⟨p₂, here₂, by omega, ?_⟩
  unfold readAttribute
  refine (onward ran₁ (.current _)).trans ?_
  rw [bind_of (current_of here₁ equalsLexes), if_neg (by exact not_not_intro rfl)]
  exact onward (arrive_discard ran₂) (.current _)

theorem readAttribute_passes {p : Parsing σ} (here : Reads .tag c p.tokens) (space : Space c m)
    (attr : Attr m written d) :
    Passes (readAttribute properties) p (addAttributes properties [written]) .tag d := by
  obtain ⟨named, before, equals, after, value⟩ := attr
  obtain ⟨_, _, raw, -, -, rfl, spelled, -⟩ := value.measured
  have valueLexes := Lexes.tag after (.string spelled value)
  obtain ⟨p₁, here₁, less₁, step⟩ := readAttribute_onward here space named before equals
  obtain ⟨p₂, ran₂, here₂, less₂⟩ := advance_passes here₁ valueLexes
  refine ⟨p₂, step.trans ?_, here₂, by omega⟩
  unfold fromValue
  rw [bind_of (current_of here₁ valueLexes), if_neg (by rintro ⟨⟨⟩⟩), if_neg (by exact not_not_intro rfl)]
  exact arrive_bind (arrive_discard ran₂) _

/-- What is left of a tag is read on behind its attributes. -/
theorem restOfTag_onward {p : Parsing σ} (fuel : Nat) (here : Reads .tag c p.tokens)
    (attributes : Attributes c list d) (enough : p.left ≤ fuel) :
    ∃ p' fuel', Reads .tag d p'.tokens ∧ p'.left ≤ p.left ∧ p'.left ≤ fuel' ∧
      restOfTag fuel properties p = restOfTag fuel' (addAttributes properties list) p' := by
  induction attributes generalizing p properties fuel with
  | nil => exact ⟨p, fuel, here, Nat.le_refl _, enough, rfl⟩
  | cons space first more ih =>
    obtain ⟨_, named⟩ := first.named
    obtain ⟨p₁, ran₁, here₁, less₁⟩ := readAttribute_passes here space first
    obtain ⟨fuel, rfl⟩ : ∃ n, fuel = n + 1 := ⟨fuel - 1, by omega⟩
    obtain ⟨p₂, fuel', here₂, less₂, enough₂, step⟩ := ih fuel here₁ (by omega)
    refine ⟨p₂, fuel', here₂, by omega, enough₂, ?_⟩
    conv => lhs; unfold restOfTag
    rw [bind_of (current_of here (.tag space (.name named)))]
    exact (onward ran₁ (.restOfTag _ _)).trans step

theorem restOfTag_passes {p : Parsing σ} (fuel : Nat) (here : Reads .tag c p.tokens)
    (attributes : Attributes c list c₁) (space : Space c₁ c₂) (ends : Spells c₂ (ending isEmpty) d)
    (enough : p.left ≤ fuel) :
    Passes (restOfTag fuel properties) p (addAttributes properties list, isEmpty) .content d := by
  obtain ⟨p₁, fuel', here₁, less₁, enough₁, step⟩ := restOfTag_onward fuel here attributes enough
  have lexes := ending_lexes isEmpty space ends
  have positive := lexes.left_pos here₁
  obtain ⟨p₂, ran₂, here₂, less₂⟩ := advance_passes here₁ lexes
  obtain ⟨fuel', rfl⟩ : ∃ n, fuel' = n + 1 := ⟨fuel' - 1, by omega⟩
  refine ⟨p₂, step.trans ?_, here₂, by omega⟩
  unfold restOfTag
  rw [bind_of (current_of here₁ lexes)]
  cases isEmpty <;> exact arrive_bind (arrive_discard ran₂) _

/-- Over the start of a section to the tokens of its body and of its terminator. -/
theorem start_complete {p : Parsing σ} (here : Reads .content c p.tokens) (used : sec ≠ .instruction)
    (enclosed : Enclosed sec c body d) :
    ∃ p' place last rest, current p = .ok ⟨sec.startKind, sec.opening, c.place⟩ p ∧
      advance p = .ok ⟨sec.startKind, sec.opening, c.place⟩ p' ∧ p'.left < p.left ∧
      p'.tokens.tokens = bodyTokens sec body place ++ ⟨sec.endKind, sec.terminator, last⟩ :: rest ∧
      Reads .content d ⟨rest, p'.tokens.last⟩ := by
  obtain ⟨c₁, m, lexes, inner, closes, found⟩ := enclosed_lexes used enclosed
  obtain ⟨p', ran, there, less⟩ := advance_passes here lexes
  obtain ⟨place, last, rest, split, there⟩ := there.inside_complete inner closes found
  have read : ∃ token, p'.tokens.current = .ok token := by
    rw [Tokens.current, split, bodyTokens]
    by_cases empty : body = ""
    · exact ⟨_, by rw [if_pos empty]; rfl⟩
    · exact ⟨_, by rw [if_neg empty]; rfl⟩
  obtain ⟨token, read⟩ := read
  exact ⟨p', place, last, rest, current_of here lexes, ran.trans (arrive_of read _), less, split, there⟩

theorem skipSection_passes {p : Parsing σ} (here : Reads .content c p.tokens) (used : sec ≠ .instruction)
    (enclosed : Enclosed sec c body d) : current p = .ok ⟨sec.startKind, sec.opening, c.place⟩ p ∧
      Passes (skipSection sec.endKind) p () .content d := by
  obtain ⟨p₁, place, last, rest, looked, ran, less, split, there⟩ := start_complete here used enclosed
  refine ⟨looked, p₁.withTokens rest, ?_, there, ?_⟩
  · unfold skipSection
    rw [bind_of (discard_of ran), bind_of (remaining_ok _), split, dropWhile_body]
    exact moveTo_eq _ _
  · have kept : p₁.left = _ := congrArg List.length split
    rw [List.length_append, List.length_cons] at kept
    have length : (p₁.withTokens rest).left = rest.length := rfl
    omega

/-- A parser of child elements makes whatever the grammar derives where no more than `parts` tokens are left. -/
def Complete (parts : Nat) (reader : Parse Unit (String × Node)) (nested : Cursor → Tag → Body → Cursor → Prop) :
    Prop :=
  ∀ {p c tag inside d}, Reads .content c p.tokens → p.left ≤ parts → nested c tag inside d →
    Passes reader p (tag.name, tag.node inside) .content d

section ContentSteps
variable {reader : Parse Unit (String × Node)} {p : Parsing Unit} {c d : Cursor} (here : Reads .content c p.tokens)
include here

theorem content_closing (closes : Spells c "</" d) :
    content .fresh reader outer (fuel + 1) soFar p = .ok soFar p := by
  unfold content
  rw [bind_of (current_of here (.endTag closes))]
  rfl

theorem content_text (some : run ≠ "") (plain : '<' ∉ run.toList) (spelled : Spells c run d) (stops : Tagged d) :
    ∃ p', Reads .content d p'.tokens ∧ p'.left < p.left ∧
      content .fresh reader outer (fuel + 1) soFar p =
        content .fresh reader outer fuel (soFar.addText run c.place) p' := by
  have lexes := Lexes.text some plain spelled stops
  obtain ⟨p', ran, there, less⟩ := advance_passes here lexes
  refine ⟨p', there, less, ?_⟩
  conv => lhs; unfold content
  rw [bind_of (current_of here lexes)]
  exact onward (arrive_discard ran) (.content _ _ _ _ _)

theorem content_comment (enclosed : Enclosed .comment c body d) :
    ∃ p', Reads .content d p'.tokens ∧ p'.left < p.left ∧
      content .fresh reader outer (fuel + 1) soFar p = content .fresh reader outer fuel soFar p' := by
  obtain ⟨looked, p', ran, there, less⟩ := skipSection_passes here (by decide) enclosed
  refine ⟨p', there, less, ?_⟩
  conv => lhs; unfold content
  rw [bind_of looked]
  exact onward ran (.content _ _ _ _ _)

theorem content_cdata (enclosed : Enclosed .cdata c body d) :
    ∃ p', Reads .content d p'.tokens ∧ p'.left < p.left ∧
      content .fresh reader outer (fuel + 1) soFar p =
        content .fresh reader outer fuel (soFar.addCData body c.place) p' := by
  obtain ⟨p₁, place, last, after, looked, ran, less, split, there⟩ := start_complete here (by decide) enclosed
  have kept : p₁.left = _ := congrArg List.length split
  rw [List.length_append, List.length_cons] at kept
  let closing : Token := ⟨Section.cdata.endKind, Section.cdata.terminator, last⟩
  have ended : expect .cdataEnd (p₁.withTokens (closing :: after)) = arrive closing (p₁.withTokens after) := by
    unfold expect
    rw [bind_of (current_ok.2 ⟨rfl, rfl⟩), if_pos (by exact rfl)]
    unfold advance
    rw [bind_of (current_ok.2 ⟨rfl, rfl⟩), bind_of (remaining_ok _)]
    exact arrive_bind (moveTo_eq after _) _
  have length : (p₁.withTokens after).left = after.length := rfl
  refine ⟨p₁.withTokens after, there, by omega, ?_⟩
  conv => lhs; unfold content
  rw [bind_of looked]
  dsimp only [Section.startKind]
  rw [bind_of (discard_of ran), bind_of (remaining_ok _), bind_of (remaining_ok _), split, takeWhile_body,
    List.drop_left, bind_of (moveTo_ok (u := ()).2 ⟨rfl, _, rfl⟩), foldl_body]
  exact onward (arrive_discard ended) (.content _ _ _ _ _)

theorem content_element {child : String} {node : Node} (opens : OpensTag c)
    (ran : reader p = arrive (child, node) p') :
    content .fresh reader outer (fuel + 1) soFar p =
      content .fresh reader outer fuel { soFar with properties := soFar.properties.insertChild child node } p' := by
  conv => lhs; unfold content
  rw [bind_of (current_of here (opensTag_lexes opens (.ofPrefix opens.bracket)))]
  refine (onward ran (.after (fun p => addChild_fresh _ _ _) (.content _ _ _ _ _))).trans ?_
  exact bind_of (addChild_fresh _ _ _) _

end ContentSteps

/-- The content of an element is read on behind its first parts, if no text goes on there. -/
theorem content_onward {p : Parsing Unit} (fuel : Nat) (nesting : Nesting nested)
    (child : Complete parts reader nested) (here : Reads .content c p.tokens) (contents : Contents nested c body d)
    (joined : body.Joined) (ends : Tagged d) (bound : p.left ≤ parts) (enough : p.left ≤ fuel) :
    ∃ p' fuel', Reads .content d p'.tokens ∧ p'.left ≤ p.left ∧ p'.left ≤ fuel' ∧
      content .fresh reader outer fuel soFar p = content .fresh reader outer fuel' (body.addTo soFar) p' := by
  -- Every part takes at least a token, so the fuel lasts as long as the tokens do.
  induction contents generalizing p soFar fuel with
  | done => exact ⟨p, fuel, here, Nat.le_refl _, enough, rfl⟩
  | text nonempty plain spelled rest ih =>
    cases joined with
    | text apart joined =>
    have stops := rest.tagged nesting ends apart
    have positive := (Lexes.text nonempty plain spelled stops).left_pos here
    obtain ⟨fuel, rfl⟩ : ∃ n, fuel = n + 1 := ⟨fuel - 1, by omega⟩
    obtain ⟨p₁, there, less, step⟩ := content_text here nonempty plain spelled stops
    obtain ⟨p₂, fuel', there, less₂, enough₂, steps⟩ := ih fuel there joined ends (by omega) (by omega)
    exact ⟨p₂, fuel', there, by omega, enough₂, step.trans steps⟩
  | comment enclosed rest ih =>
    cases joined with
    | comment joined =>
    obtain ⟨_, _, lexes, -⟩ := enclosed_lexes (by decide) enclosed
    have positive := lexes.left_pos here
    obtain ⟨fuel, rfl⟩ : ∃ n, fuel = n + 1 := ⟨fuel - 1, by omega⟩
    obtain ⟨p₁, there, less, step⟩ := content_comment here enclosed
    obtain ⟨p₂, fuel', there, less₂, enough₂, steps⟩ := ih fuel there joined ends (by omega) (by omega)
    exact ⟨p₂, fuel', there, by omega, enough₂, step.trans steps⟩
  | cdata enclosed rest ih =>
    cases joined with
    | cdata joined =>
    obtain ⟨_, _, lexes, -⟩ := enclosed_lexes (by decide) enclosed
    have positive := lexes.left_pos here
    obtain ⟨fuel, rfl⟩ : ∃ n, fuel = n + 1 := ⟨fuel - 1, by omega⟩
    obtain ⟨p₁, there, less, step⟩ := content_cdata here enclosed
    obtain ⟨p₂, fuel', there, less₂, enough₂, steps⟩ := ih fuel there joined ends (by omega) (by omega)
    exact ⟨p₂, fuel', there, by omega, enough₂, step.trans steps⟩
  | element inner rest ih =>
    cases joined with
    | element joined =>
    obtain ⟨p₁, ran₁, there, less⟩ := child here bound inner
    obtain ⟨fuel, rfl⟩ : ∃ n, fuel = n + 1 := ⟨fuel - 1, by omega⟩
    obtain ⟨p₂, fuel', there, less₂, enough₂, steps⟩ := ih fuel there joined ends (by omega) (by omega)
    exact ⟨p₂, fuel', there, by omega, enough₂, (content_element here (nesting.opens inner) ran₁).trans steps⟩

theorem content_complete {p : Parsing Unit} (fuel : Nat) (nesting : Nesting nested)
    (child : Complete parts reader nested) (here : Reads .content c p.tokens) (contents : Contents nested c body d)
    (ends : Spells d "</" e) (bound : p.left ≤ parts) (enough : p.left ≤ fuel) :
    ∃ p', content .fresh reader outer fuel soFar p = .ok (body.addTo soFar) p' ∧ Reads .content d p'.tokens ∧
      p'.left ≤ p.left := by
  obtain ⟨p', fuel', there, less, enough', step⟩ := content_onward fuel nesting child here contents.joined
    body.joined_joined (tagged_of ends.ahead) bound enough
  have positive := (Lexes.endTag ends).left_pos there
  obtain ⟨fuel', rfl⟩ : ∃ n, fuel' = n + 1 := ⟨fuel' - 1, by omega⟩
  exact ⟨p', by rw [step, content_closing there ends, Body.addTo_joined], there, less⟩

theorem expect_of {p : Parsing σ} (looked : current p = .ok token p) (ran : advance p = arrive token p') :
    expect token.kind p = arrive token p' := by
  unfold expect
  rw [bind_of looked, if_pos rfl, ran]

/-- The tag of an element is read on behind its name. -/
theorem openTag_onward {p : Parsing Unit} (parts : Nat) (here : Reads .content c p.tokens) (opens : Spells c "<" c₁)
    (named : Name c₁ name d) :
    ∃ p', Reads .tag d p'.tokens ∧ p'.left < p.left ∧ openTag .fresh parts p =
      (restOfTag parts [] >>= fun made => pure (c.place, name, made.1, made.2)) p' := by
  have lexes := opensTag_lexes (.of opens named) opens
  have nameLexes := Lexes.tagName named
  have looked := current_of here lexes
  obtain ⟨p₁, ran₁, here₁, less₁⟩ := advance_passes here lexes
  obtain ⟨p₂, ran₂, here₂, less₂⟩ := advance_passes here₁ nameLexes
  refine ⟨p₂, here₂, by omega, ?_⟩
  unfold openTag
  rw [bind_of looked]
  refine (onward (arrive_discard (expect_of looked ran₁)) (.current _)).trans ?_
  rw [bind_of (current_of here₁ nameLexes), if_neg (by exact not_not_intro rfl)]
  exact onward ran₂ (.after newProperties_fresh ((Looks.restOfTag _ _).bind _))

theorem openTag_passes {p : Parsing Unit} (parts : Nat) (here : Reads .content c p.tokens)
    (opening : Opening isEmpty c tag d) (bound : p.left ≤ parts) :
    Passes (openTag .fresh parts) p (tag.place, tag.name, addAttributes [] tag.attributes, isEmpty) .content d := by
  obtain ⟨bracket, named, attributes, space, ends⟩ := opening
  obtain ⟨p₁, here₁, less₁, step⟩ := openTag_onward parts here bracket named
  obtain ⟨p₂, ran₂, here₂, less₂⟩ := restOfTag_passes parts here₁ attributes space ends (by omega)
  exact ⟨p₂, step.trans (arrive_bind ran₂ _), here₂, by omega⟩

theorem closeTag_passes {p : Parsing σ} (here : Reads .content c p.tokens) (closing : Closing c name d) :
    Passes (closeTag name) p () .content d := by
  obtain ⟨closes, named, space, ends⟩ := closing
  have closingLexes := Lexes.endTag closes
  have nameLexes := Lexes.tagName named
  have endLexes := Lexes.tag space (.tagClose ends)
  obtain ⟨p₁, ran₁, here₁, less₁⟩ := advance_passes here closingLexes
  obtain ⟨p₂, ran₂, here₂, less₂⟩ := advance_passes here₁ nameLexes
  obtain ⟨p₃, ran₃, here₃, less₃⟩ := advance_passes here₂ endLexes
  refine ⟨p₃, ?_, here₃, by omega⟩
  unfold closeTag
  refine (onward (arrive_discard (expect_of (current_of here closingLexes) ran₁)) (.current _)).trans ?_
  rw [bind_of (current_of here₁ nameLexes), if_neg (by exact not_not_intro rfl)]
  refine (arrive_bind ran₂ _).trans ?_
  rw [if_neg (by exact not_not_intro rfl)]
  refine (Looks.discard (.expect _) _).trans ?_
  exact arrive_discard (expect_of (current_of here₂ endLexes) ran₃)

/-- An element from its content on. -/
def fromContent (parts levels : Nat) (tag : Tag) : Parse Unit (String × Node) := do
  let inside ← content .fresh (element .fresh parts levels) tag.name parts
    { properties := addAttributes [] tag.attributes }
  closeTag tag.name
  return (tag.name, .object (inside.finish tag.place) tag.place)

/-- An element is read on behind the tag that begins it. -/
theorem element_onward {p : Parsing Unit} (parts levels : Nat) (here : Reads .content c p.tokens)
    (opening : Opening false c tag d) (bound : p.left ≤ parts) :
    ∃ p', Reads .content d p'.tokens ∧ p'.left < p.left ∧
      element .fresh parts (levels + 1) p = fromContent parts levels tag p' := by
  obtain ⟨p', ran, there, less⟩ := openTag_passes parts here opening bound
  refine ⟨p', there, less, ?_⟩
  rw [element_succ]
  exact onward ran ((Looks.content _ _ _ _ _).bind _)

theorem element_complete (parts levels : Nat) : Complete parts (element .fresh parts levels) (Element levels) := by
  induction levels with
  | zero =>
    intro p c tag inside d here bound read
    cases read
  | succ levels ih =>
    intro p c tag inside d here bound read
    rcases read with opening | ⟨opening, contents, closing⟩
    · obtain ⟨p₁, ran₁, here₁, less₁⟩ := openTag_passes parts here opening bound
      refine ⟨p₁, ?_, here₁, less₁⟩
      rw [element_succ, Tag.node, Body.addTo, finish_nothing]
      exact arrive_bind ran₁ _
    · obtain ⟨_, closes⟩ := closing.opens
      obtain ⟨p₁, here₁, less₁, step⟩ := element_onward parts levels here opening bound
      obtain ⟨p₂, ran₂, here₂, less₂⟩ := content_complete parts (element_nesting levels) ih here₁ contents closes
        (by omega) (by omega)
      obtain ⟨p₃, ran₃, here₃, less₃⟩ := closeTag_passes here₂ closing
      refine ⟨p₃, step.trans ?_, here₃, by omega⟩
      rw [fromContent, bind_of ran₂]
      exact arrive_bind ran₃ _

/-- Nothing is left to skip outside the root element: it begins there, or the input ends, or nothing ends the comment
that begins. -/
def Halts (c : Cursor) : Prop := Stops c ∨ Dangling .comment c

theorem Halts.tagged (halts : Halts c) : Tagged c := halts.elim Stops.tagged Dangling.tagged

theorem Halts.undeclared (halts : Halts c) : ¬ (bytes Section.declaration.opening).isPrefixOf c.ahead = true := by
  rcases halts with stops | ⟨_, opens, -⟩
  · exact stops.notSection .declaration
  · rw [opens.ahead]
    exact Bool.false_ne_true

/-- What stands outside the root element begins with blank text, or with a comment, or is over. -/
theorem misc_cases (misc : Misc c d) (ends : Tagged d) :
    (∃ blank m, Lexes .content c ⟨.text, blank, c.place⟩ .content m ∧ (∀ ch ∈ blank.toList, isSpace ch = true) ∧
        Misc m d) ∨
      (∃ body m, Enclosed .comment c body m ∧ Misc m d) ∨ c = d := by
  obtain ⟨m, ⟨blank, all, spelled⟩, tagged, next⟩ := misc.first ends
  by_cases empty : blank = ""
  · subst empty
    obtain rfl : m = c := spelled.past
    rcases next with same | found
    · exact .inr (.inr same)
    · exact .inr (.inl found)
  · have plain : '<' ∉ blank.toList := by
      intro member
      cases all _ member
    refine .inl ⟨blank, m, .text empty plain spelled tagged, all, ?_⟩
    rcases next with rfl | ⟨body, m', enclosed, more⟩
    · exact .done
    · exact .comment enclosed more

/-- Where nothing is left to skip, the current token is a tag or the end if it can be read. -/
theorem halts_current {p : Parsing σ} (here : Reads .content c p.tokens) (halts : Halts c)
    (read : p.tokens.current = .ok token) : token.kind = .tagOpen ∨ token.kind = .endOfInput := by
  rcases halts with (ended | opens) | dangling
  · cases read.symm.trans (here.ended ended).2
    exact .inr rfl
  · have looked := current_of here (opensTag_lexes opens (.ofPrefix opens.bracket))
    cases read.symm.trans (current_ok.1 looked).1
    exact .inl rfl
  · cases read.symm.trans (here.dangling (by decide) dangling).2

theorem skipMisc_arrives {p : Parsing σ} (fuel : Nat) (here : Reads .content c p.tokens) (misc : Misc c d)
    (halts : Halts d) (enough : p.left ≤ fuel) :
    ∃ p', Reads .content d p'.tokens ∧ p'.left ≤ p.left ∧
      (discard current >>= fun _ => skipMisc fuel) p = arrive () p' := by
  rcases misc_cases misc halts.tagged with ⟨blank, m, lexes, all, more⟩ | ⟨body, m, enclosed, more⟩ | rfl
  · have looked := current_of here lexes
    have positive := lexes.left_pos here
    obtain ⟨p₁, ran₁, there, less⟩ := advance_passes here lexes
    obtain ⟨fuel, rfl⟩ : ∃ n, fuel = n + 1 := ⟨fuel - 1, by omega⟩
    obtain ⟨p₂, there, less₂, ran₂⟩ := skipMisc_arrives fuel there more halts (by omega)
    have isBlank : Token.isBlankText ⟨.text, blank, c.place⟩ = true := by
      simpa [Token.isBlankText] using all
    refine ⟨p₂, there, by omega, ?_⟩
    rw [bind_of (discard_of looked), skipMisc, bind_of looked, if_pos isBlank]
    exact (arrive_bind (arrive_discard ran₁) _).trans ran₂
  · obtain ⟨_, _, lexes, -⟩ := enclosed_lexes (by decide) enclosed
    have positive := lexes.left_pos here
    obtain ⟨looked, p₁, ran₁, there, less⟩ := skipSection_passes here (by decide) enclosed
    obtain ⟨fuel, rfl⟩ : ∃ n, fuel = n + 1 := ⟨fuel - 1, by omega⟩
    obtain ⟨p₂, there, less₂, ran₂⟩ := skipMisc_arrives fuel there more halts (by omega)
    refine ⟨p₂, there, by omega, ?_⟩
    rw [bind_of (discard_of looked), skipMisc, bind_of looked, if_neg (by exact Bool.false_ne_true),
      if_pos (by exact rfl)]
    exact (arrive_bind ran₁ _).trans ran₂
  · refine ⟨p, here, Nat.le_refl _, (Looks.arrive ()).of_read fun token read => ?_⟩
    rw [arrive_of read]
    cases fuel with
    | zero => rfl
    | succ fuel =>
      have kind := halts_current here halts read
      have notBlank : ¬ token.isBlankText = true := by
        rcases kind with kind | kind <;> simp [Token.isBlankText, kind]
      have notComment : token.kind ≠ .commentStart := by
        rcases kind with kind | kind <;> simp [kind]
      rw [skipMisc, bind_of (current_ok.2 ⟨read, rfl⟩), if_neg notBlank, if_neg notComment]
      rfl
termination_by fuel

/-- Where a tag or the end is next, no blank text is. -/
theorem dropBlank (here : Reads .content c tokens) (tagged : Tagged c) :
    tokens.tokens.dropWhile Token.isBlankText = tokens.tokens := by
  cases split : tokens.tokens with
  | nil => rfl
  | cons token rest =>
    have notBlank : token.isBlankText = false := by
      refine Bool.eq_false_iff.2 fun blank => ?_
      simp only [Token.isBlankText, Bool.and_eq_true, decide_eq_true_eq] at blank
      obtain ⟨_, _, _, -, lexes, -⟩ := here.current (by rw [Tokens.current, split]) (by rw [blank.1]; rfl)
      obtain ⟨-, -, nonempty, plain, spelled, -⟩ := lexes.text_inv blank.1
      obtain ⟨b, after, ahead, other⟩ := spelled.untagged nonempty plain
      exact other (tagged b after ahead)
    rw [List.dropWhile_cons, notBlank]
    rfl

/-- Blank text in front of a tag or a section is skipped at once. -/
theorem skipBlankText_arrives {p : Parsing σ} (here : Reads .content c p.tokens) (space : Space c d)
    (tagged : Tagged d) :
    ∃ p', Reads .content d p'.tokens ∧ p'.left ≤ p.left ∧
      (discard current >>= fun _ => skipBlankText) p = arrive () p' := by
  obtain ⟨blank, all, spelled⟩ := space
  by_cases empty : blank = ""
  · subst empty
    obtain rfl : d = c := spelled.past
    refine ⟨p, here, Nat.le_refl _, (Looks.arrive ()).of_read fun _ _ => ?_⟩
    rw [skipBlankText, bind_of (remaining_ok _), dropBlank here tagged]
    exact moveTo_eq _ _
  · have plain : '<' ∉ blank.toList := by
      intro member
      cases all _ member
    have lexes := Lexes.text empty plain spelled tagged
    have isBlank : Token.isBlankText ⟨.text, blank, c.place⟩ = true := by
      simpa [Token.isBlankText] using all
    obtain ⟨rest, split, there⟩ := here.next lexes
    refine ⟨p.withTokens rest, there, ?_, ?_⟩
    · rw [Parsing.left, Parsing.left, split]
      exact Nat.le_succ _
    · rw [bind_of (discard_of (current_of here lexes)), skipBlankText, bind_of (remaining_ok _), split,
        List.dropWhile_cons, if_pos isBlank, dropBlank there tagged]
      exact moveTo_eq _ _

theorem prolog_arrives {p : Parsing σ} (here : Reads .content c p.tokens)
    (first : (∃ body d, Enclosed .declaration c body d ∧ Misc d root) ∨
      (¬ (bytes Section.declaration.opening).isPrefixOf c.ahead = true ∧ Misc c root)) :
    ∃ d p', Misc d root ∧ Reads .content d p'.tokens ∧ p'.left ≤ p.left ∧
      ∀ {α : Type} (next : Unit → Parse σ α), (current >>= fun token => if token.kind = .declarationStart then
        skipSection .instructionEnd >>= next else next ()) p = (discard current >>= next) p' := by
  rcases first with ⟨body, d, enclosed, before⟩ | ⟨other, before⟩
  · obtain ⟨looked, p', ran, there, less⟩ := skipSection_passes here (by decide) enclosed
    refine ⟨d, p', before, there, Nat.le_of_lt less, fun next => ?_⟩
    rw [bind_of looked, if_pos (by exact rfl)]
    exact arrive_bind ran next
  · refine ⟨c, p, before, here, Nat.le_refl _, fun next => ?_⟩
    cases read : p.tokens.current with
    | error e =>
      rw [bind_stopped (current_error read), unread_bind read]
    | ok token =>
      have looked : current p = .ok token p := current_ok.2 ⟨read, rfl⟩
      rw [bind_of looked, read_bind read, if_neg]
      intro kind
      obtain ⟨_, _, _, -, lexes, -⟩ := here.current read (by rw [kind]; rfl)
      exact other (lexes.opening_inv (show Section.declaration ≠ .instruction by decide) kind).2.2.isPrefix

/-- A document from its root element on. -/
def fromRoot (supply : Supply σ) (parts : Nat) : Parse σ Node := do
  let (_, root) ← element supply parts maxDepth
  skipMisc parts
  let token ← current
  if token.kind ≠ .endOfInput then failAt .trailingContent token.position
  return root

/-- A document is read on where nothing is left to skip in front of its root element. -/
theorem document_onward {input : List UInt8} {p : Parsing σ} (supply : Supply σ)
    (here : Reads .content (.start input) p.tokens) (space : Space (.start input) c₁) (prolog : Prolog c₁ c₂)
    (before : Misc c₂ c) (halts : Halts c) :
    ∃ p', Reads .content c p'.tokens ∧ p'.left ≤ p.left ∧
      Parse.document supply p = fromRoot supply p.left p' := by
  obtain ⟨m, spaces, tagged, first⟩ := prolog.first space before halts.tagged halts.undeclared
  obtain ⟨p₁, here₁, less₁, ran₁⟩ := skipBlankText_arrives here spaces tagged
  obtain ⟨d, p₂, before, here₂, less₂, skipped⟩ := prolog_arrives here₁ first
  obtain ⟨p₃, here₃, less₃, ran₃⟩ := skipMisc_arrives p.left here₂ before halts (by omega)
  refine ⟨p₃, here₃, by omega, ?_⟩
  unfold Parse.document
  rw [bind_of (remaining_ok _), ← bind_assoc]
  refine (arrive_bind ran₁ _).trans ?_
  refine (Looks.current _ p₁).trans ((skipped _).trans ?_)
  rw [← bind_assoc]
  exact (arrive_bind ran₃ _).trans (((Looks.element _ _ _).bind _) p₃)

/-- From the tokens of every document that the grammar derives its tree is made. -/
theorem document_complete {input : List UInt8} {p : Parsing Unit} (here : Reads .content (.start input) p.tokens)
    (document : Document input tag inside) : ∃ p', Parse.document .fresh p = .ok (tag.node inside) p' := by
  obtain ⟨space, prolog, before, root, after, ended⟩ := document
  have opens := (element_nesting maxDepth).opens root
  obtain ⟨p₁, here₁, less₁, step⟩ := document_onward .fresh here space prolog before (.inl (.inr opens))
  obtain ⟨p₂, ran₂, here₂, less₂⟩ := element_complete p.left maxDepth here₁ less₁ root
  obtain ⟨p₃, here₃, less₃, ran₃⟩ := skipMisc_arrives p.left here₂ after (.inl (.inl ended)) (by omega)
  obtain ⟨-, last⟩ := here₃.ended ended
  refine ⟨p₃, step.trans ?_⟩
  unfold fromRoot
  refine (arrive_bind ran₂ _).trans ?_
  dsimp only
  rw [← bind_assoc]
  refine (onward ran₃ (.current _)).trans ?_
  rw [bind_of (current_ok.2 ⟨last, rfl⟩), if_neg (by exact not_not_intro rfl)]
  rfl

end Parse
end XmlBinding
