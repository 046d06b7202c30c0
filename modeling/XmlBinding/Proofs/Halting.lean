import XmlBinding.Proofs.Agreement
import XmlBinding.Proofs.Breaking
import XmlBinding.Proofs.Legible

/-! Where a document breaks off, its tree is refused with the same fault at the same place. The tree parser looks at the
token behind the one that is at fault, so what it meets there must not come first. In a tag of some text every token can
be read, and between tags what cannot be read is the fault itself. -/
namespace XmlBinding
open Text Grammar

namespace Grammar

/-- As many spaces as there are lead to one place only. -/
theorem Space.unique (space : Space c m) (stops : m.Unspaced) (other : Space c d) (stops' : d.Unspaced) : d = m :=
  (other.measured stops').trans (space.measured stops).symm

theorem AttrBreaks.named (breaks : AttrBreaks c fault place) : ∃ name d, Name c name d := by
  cases breaks with
  | equals named => exact ⟨_, _, named⟩
  | value named => exact ⟨_, _, named⟩
  | string named => exact ⟨_, _, named⟩

theorem OpeningBreaks.opensTag (breaks : OpeningBreaks c fault place) : OpensTag c := by
  obtain ⟨opens, named, -⟩ := breaks
  exact .of opens named

theorem ClosingBreaks.opens (breaks : ClosingBreaks name c fault place) : ∃ d, Spells c "</" d := by
  cases breaks with
  | unnamed opens => exact ⟨_, opens⟩
  | mismatched opens => exact ⟨_, opens⟩

theorem ElementBreaksOf.opensTag (broken : ElementBreaksOf child breaks c fault place) : OpensTag c := by
  cases broken with
  | opening inner => exact inner.opensTag
  | content opening => exact opening.opensTag
  | closing opening => exact opening.opensTag

end Grammar

namespace Reads

theorem not_equals (reads : Reads .tag c tokens) (read : tokens.current = .ok token) (space : Space c m)
    (stops : m.Unspaced) (missing : ¬ (bytes "=").isPrefixOf m.ahead = true) : token.kind ≠ .equals := by
  intro kind
  obtain ⟨_, _, _, -, lexes, -⟩ := reads.current read (by rw [kind]; rfl)
  obtain ⟨-, m', space', spelled⟩ := lexes.equals_inv kind
  obtain rfl := space.unique stops space' (unspaced_of spelled.ahead rfl)
  exact missing spelled.isPrefix

theorem not_string (reads : Reads .tag c tokens) (read : tokens.current = .ok token) (space : Space c m)
    (stops : m.Unspaced) (missing : ¬ m.ahead.head?.any Lexer.isQuote = true) : token.kind ≠ .string := by
  intro kind
  obtain ⟨_, _, _, -, lexes, -⟩ := reads.current read (by rw [kind]; rfl)
  obtain ⟨-, m', space', -, quoted⟩ := lexes.string_inv kind
  obtain rfl := space.unique stops space' quoted.unspaced
  obtain ⟨b, rest, _, begins, isQuote, -⟩ := quoted.measured
  exact missing (by rw [begins]; exact isQuote)

theorem not_name (reads : Reads .tagStart c tokens) (read : tokens.current = .ok token)
    (missing : nameLength c.ahead = 0) : token.kind ≠ .name := by
  intro kind
  obtain ⟨_, _, _, -, lexes, -⟩ := reads.current read (by rw [kind]; rfl)
  obtain ⟨-, named⟩ := lexes.tagName_inv
  rw [named.measured, List.length_eq_zero_iff, bytes_eq_nil_iff] at missing
  exact named.nonempty missing

end Reads

namespace Parse
variable {σ : Type}

/-- A step that ends with a fault at a place. -/
def Faults (x : Parse σ α) (p : Parsing σ) (fault : Fault) (place : Position) : Prop :=
  ∃ p', x p = .error (.malformed fault place) p'

namespace Faults

theorem of_eq {x : Parse σ α} {y : Parse σ α} (same : x p = y q) (faults : Faults y q fault place) :
    Faults x p fault place := by
  obtain ⟨p', stopped⟩ := faults
  exact ⟨p', same.trans stopped⟩

theorem bind {x : Parse σ α} (faults : Faults x p fault place) (f : α → Parse σ β) :
    Faults (x >>= f) p fault place := by
  obtain ⟨p', stopped⟩ := faults
  exact ⟨p', bind_stopped stopped f⟩

theorem failAt {α : Type} (p : Parsing σ) : Faults (failAt fault place : Parse σ α) p fault place := ⟨p, rfl⟩

theorem fail {α : Type} {p : Parsing σ} (read : p.tokens.current = .ok token) (stands : token.position = place) :
    Faults (fail fault : Parse σ α) p fault place := by
  subst stands
  exact .of_eq (bind_of (current_ok.2 ⟨read, rfl⟩) _) (.failAt p)

/-- What begins with a look at the current token ends with the fault for which that cannot be read. -/
theorem looks {x : Parse σ α} {p : Parsing σ} (looks : Looks x)
    (read : p.tokens.current = .error (.malformed fault place)) : Faults x p fault place :=
  ⟨p, (looks p).symm.trans (unread_bind read _)⟩

end Faults

theorem readAttribute_faults {p : Parsing σ} (here : Reads .tag c p.tokens) (textual : Textual c) (space : Space c m)
    (breaks : AttrBreaks m fault place) : Faults (readAttribute properties) p fault place := by
  have textual := space.reaches.textual textual
  cases breaks with
  | equals named before stops missing =>
    obtain ⟨p₁, ran₁, here₁, -⟩ := advance_passes here (.tag space (.name named))
    obtain ⟨token, read, stands, -⟩ := here₁.inTag before stops (named.spelled.textual textual)
    unfold readAttribute
    refine .of_eq (onward ran₁ (.current _)) ?_
    refine .of_eq (bind_of (current_ok.2 ⟨read, rfl⟩) _) ?_
    rw [if_pos (here₁.not_equals read before stops missing)]
    exact (Faults.fail read stands).bind _
  | value named before equals after stops missing =>
    obtain ⟨p₁, here₁, -, step⟩ := readAttribute_onward here space named before equals
    obtain ⟨token, read, stands, _, spelled⟩ := here₁.inTag after stops
      (equals.textual (before.reaches.textual (named.spelled.textual textual)))
    have noQuote : ¬ (token.kind = .text ∧ (token.lexeme = "\"" ∨ token.lexeme = "'")) := by
      rintro ⟨-, quote | quote⟩ <;> exact missing (by rw [spelled.ahead, quote]; rfl)
    refine .of_eq (step.trans (bind_of (current_ok.2 ⟨read, rfl⟩) _)) ?_
    rw [if_neg noQuote, if_pos (here₁.not_string read after stops missing)]
    exact (Faults.fail read stands).bind _
  | string named before equals after begins unclosed =>
    obtain ⟨p₁, here₁, -, step⟩ := readAttribute_onward here space named before equals
    obtain ⟨lexeme, read, quote⟩ := here₁.inTag_quote after
      (equals.textual (before.reaches.textual (named.spelled.textual textual))) begins unclosed
    refine .of_eq (step.trans (bind_of (current_ok.2 ⟨read, rfl⟩) _)) ?_
    rw [if_pos ⟨rfl, quote⟩]
    exact (Faults.fail read rfl).bind _

theorem openTag_faults {p : Parsing Unit} (here : Reads .content c p.tokens) (textual : Textual c)
    (bound : p.left ≤ parts) (breaks : OpeningBreaks c fault place) : Faults (openTag .fresh parts) p fault place := by
  obtain ⟨opens, named, attributes, space, breaks⟩ := breaks
  have textual := attributes.reaches.textual (named.spelled.textual (opens.textual textual))
  obtain ⟨p₁, here₁, less₁, tag⟩ := openTag_onward parts here opens named
  obtain ⟨p₂, fuel, here₂, less₂, enough₂, rest⟩ := restOfTag_onward parts here₁ attributes (by omega)
  obtain ⟨_, _, next⟩ := breaks.named
  have lexes := Lexes.tag space (.name next)
  have positive := lexes.left_pos here₂
  obtain ⟨fuel, rfl⟩ : ∃ n, fuel = n + 1 := ⟨fuel - 1, by omega⟩
  refine .of_eq tag (.bind (.of_eq rest ?_) _)
  unfold restOfTag
  exact .of_eq (bind_of (current_of here₂ lexes) _) ((readAttribute_faults here₂ textual space breaks).bind _)

theorem closeTag_faults {p : Parsing σ} (here : Reads .content c p.tokens) (textual : Textual c)
    (breaks : ClosingBreaks name c fault place) : Faults (closeTag name) p fault place := by
  unfold closeTag
  cases breaks with
  | unnamed opens missing =>
    have closingLexes := Lexes.endTag opens
    obtain ⟨p₁, ran₁, here₁, -⟩ := advance_passes here closingLexes
    obtain ⟨token, read, stands⟩ := here₁.atTagStart (opens.textual textual)
    refine .of_eq (onward (arrive_discard (expect_of (current_of here closingLexes) ran₁)) (.current _)) ?_
    refine .of_eq (bind_of (current_ok.2 ⟨read, rfl⟩) _) ?_
    rw [if_pos (here₁.not_name read missing)]
    exact (Faults.fail read (stands missing)).bind _
  | mismatched opens named differs =>
    have closingLexes := Lexes.endTag opens
    have nameLexes := Lexes.tagName named
    obtain ⟨p₁, ran₁, here₁, -⟩ := advance_passes here closingLexes
    obtain ⟨p₂, ran₂, here₂, -⟩ := advance_passes here₁ nameLexes
    -- The names are compared after the token behind the second has been seen, which may be any.
    obtain ⟨_, read, -⟩ := here₂.inTag (space_past _).1 (space_past _).2
      (named.spelled.textual (opens.textual textual))
    refine .of_eq (onward (arrive_discard (expect_of (current_of here closingLexes) ran₁)) (.current _)) ?_
    refine .of_eq (bind_of (current_of here₁ nameLexes) _) ?_
    rw [if_neg (by exact not_not_intro rfl)]
    refine .of_eq (bind_of (ran₂.trans (arrive_of read _)) _) ?_
    rw [if_pos differs]
    exact (Faults.failAt p₂).bind _

/-- A parser of child elements ends with the fault for which an element that begins there breaks off, where no more
than `parts` tokens are left. -/
def Halting (parts : Nat) (reader : Parse Unit (String × Node)) (breaks : Cursor → Fault → Position → Prop) : Prop :=
  ∀ {p c d fault place}, Reads .content c p.tokens → Textual c → p.left ≤ parts →
    Lexes .content c ⟨.tagOpen, "<", c.place⟩ .tagStart d → breaks c fault place → Faults reader p fault place

theorem content_faults {p : Parsing Unit} (fuel : Nat)
    (halting : Halting parts (element .fresh parts levels) (ElementBreaks levels)) (here : Reads .content c p.tokens)
    (textual : Textual c) (bound : p.left ≤ parts) (enough : p.left ≤ fuel)
    (breaks : ContentBreaks (Element levels) (ElementBreaks levels) name c fault place) :
    Faults (content .fresh (element .fresh parts levels) name fuel soFar) p fault place := by
  have onward {body : Body} {d : Cursor} (contents : Contents (Element levels) c body d) (ends : Tagged d) :
      ∃ p' fuel', Reads .content d p'.tokens ∧ p'.left ≤ p.left ∧ p'.left ≤ fuel' ∧
        content .fresh (element .fresh parts levels) name fuel soFar p =
          content .fresh (element .fresh parts levels) name fuel' (body.joined.addTo soFar) p' :=
    content_onward fuel (element_nesting levels) (element_complete parts levels) here contents.joined
      body.joined_joined ends bound enough
  cases breaks with
  | ended contents ended =>
    obtain ⟨p', fuel', there, -, -, step⟩ := onward contents (tagged_end ended)
    obtain ⟨-, last⟩ := there.ended ended
    refine .of_eq step ?_
    cases fuel' with
    | zero => exact Faults.fail last rfl
    | succ fuel' =>
      unfold content
      exact .of_eq (bind_of (current_ok.2 ⟨last, rfl⟩) _) (Faults.fail last rfl)
  | comment contents dangling =>
    obtain ⟨p', fuel', there, -, -, step⟩ := onward contents dangling.tagged
    exact .of_eq step (.looks (.content _ _ _ _ _) (there.dangling (by decide) dangling).2)
  | cdata contents dangling =>
    obtain ⟨p', fuel', there, -, -, step⟩ := onward contents dangling.tagged
    exact .of_eq step (.looks (.content _ _ _ _ _) (there.dangling (by decide) dangling).2)
  | element contents opens notClosing notSection breaks =>
    have lexes := Lexes.startTag opens notClosing notSection
    obtain ⟨p', fuel', there, less, enough', step⟩ := onward contents (tagged_of opens.ahead)
    have positive := lexes.left_pos there
    obtain ⟨fuel', rfl⟩ : ∃ n, fuel' = n + 1 := ⟨fuel' - 1, by omega⟩
    refine .of_eq step ?_
    unfold content
    exact .of_eq (bind_of (current_of there lexes) _)
      ((halting there ((contents.reaches Element.reaches).textual textual) (by omega) lexes breaks).bind _)

theorem element_faults (parts levels : Nat) : Halting parts (element .fresh parts levels) (ElementBreaks levels) := by
  induction levels with
  | zero =>
    intro p c d fault place here textual bound lexes breaks
    obtain ⟨-, rfl, rfl⟩ := breaks
    obtain ⟨-, -, opens⟩ := lexes.startTag_inv rfl
    obtain ⟨p₁, ran₁, here₁, -⟩ := advance_passes here lexes
    -- The bracket has been passed, and the token behind it seen, before the element is refused.
    obtain ⟨_, read, -⟩ := here₁.atTagStart (opens.textual textual)
    have looked := current_of here lexes
    unfold element
    refine .of_eq (bind_of looked _) ?_
    exact .of_eq (bind_of ((arrive_discard (expect_of looked ran₁)).trans (arrive_of read _)) _) (.failAt p₁)
  | succ levels ih =>
    intro p c d fault place here textual bound lexes breaks
    cases breaks with
    | opening inner =>
      rw [element_succ]
      exact (openTag_faults here textual bound inner).bind _
    | content opening inner =>
      obtain ⟨p₁, here₁, less₁, step⟩ := element_onward parts levels here opening bound
      exact .of_eq step ((content_faults parts ih here₁ (opening.reaches.textual textual) (by omega) (by omega)
        inner).bind _)
    | closing opening contents inner =>
      obtain ⟨_, closes⟩ := inner.opens
      obtain ⟨p₁, here₁, less₁, step⟩ := element_onward parts levels here opening bound
      obtain ⟨p₂, ran₂, here₂, -⟩ := content_complete parts (element_nesting levels) (element_complete parts levels)
        here₁ contents closes (by omega) (by omega)
      have textual := (opening.reaches.trans (contents.reaches Element.reaches)).textual textual
      exact .of_eq (step.trans (bind_of ran₂ _)) ((closeTag_faults here₂ textual inner).bind _)

theorem document_faults {input : List UInt8} {p : Parsing Unit} (here : Reads .content (.start input) p.tokens)
    (textual : Textual (.start input)) (breaks : DocumentBreaks input fault place) :
    Faults (Parse.document .fresh) p fault place := by
  cases breaks with
  | declaration space dangling =>
    obtain ⟨p₁, here₁, -, ran₁⟩ := skipBlankText_arrives here space dangling.tagged
    unfold Parse.document
    rw [Faults, bind_of (remaining_ok _), ← bind_assoc]
    exact ⟨p₁, (arrive_bind ran₁ _).trans (unread_bind (here₁.dangling (by decide) dangling).2 _)⟩
  | before space prolog misc dangling =>
    obtain ⟨p₁, here₁, -, step⟩ := document_onward .fresh here space prolog misc (.inr dangling)
    exact .of_eq step (.looks ((Looks.element _ _ _).bind _) (here₁.dangling (by decide) dangling).2)
  | root space prolog misc inner =>
    have opens : OpensTag _ := ElementBreaksOf.opensTag inner
    obtain ⟨p₁, here₁, less₁, step⟩ := document_onward .fresh here space prolog misc (.inl (.inr opens))
    have textual := (space.reaches.trans (prolog.reaches.trans misc.reaches)).textual textual
    exact .of_eq step ((element_faults p.left maxDepth here₁ textual less₁
      (opensTag_lexes opens (.ofPrefix opens.bracket)) inner).bind _)
  | after rooted misc dangling =>
    obtain ⟨space, prolog, before, root⟩ := rooted
    have opens := (element_nesting maxDepth).opens root
    obtain ⟨p₁, here₁, less₁, step⟩ := document_onward .fresh here space prolog before (.inl (.inr opens))
    obtain ⟨p₂, ran₂, here₂, less₂⟩ := element_complete p.left maxDepth here₁ less₁ root
    obtain ⟨p₃, here₃, -, ran₃⟩ := skipMisc_arrives p.left here₂ misc (.inr dangling) (by omega)
    refine .of_eq step (.of_eq (arrive_bind ran₂ _) ?_)
    dsimp only
    rw [Faults, ← bind_assoc]
    exact ⟨p₃, (arrive_bind ran₃ _).trans (unread_bind (here₃.dangling (by decide) dangling).2 _)⟩

end Parse

/-- Where some text is found invalid for a fault that both readers report, no tree is read from it, for the same fault
at the same place. -/
theorem readers_fault_alike (text : String)
    (failed : validate (.ofBytes (bytes text)) = .error (.malformed fault place)) (shared : fault.shared = true) :
    Node.ofBytes (bytes text) = .error (.malformed fault place) := by
  have read : Reading.document .nothing (.ofBytes (bytes text)) = .error (.malformed fault place) := by
    unfold validate at failed
    cases read : Reading.document .nothing (.ofBytes (bytes text)) with
    | ok result => rw [read] at failed; cases failed
    | error e => rw [read] at failed; cases failed; rfl
  obtain ⟨p', stopped⟩ := Parse.document_faults (p := ⟨(Lexer.ofBytes (bytes text)).tokens, ()⟩)
    (ofBytes_reads (bytes text)) ⟨text, rfl⟩ (Reading.document_breaks .nothing read shared)
  rw [Node.ofBytes, Node.ofTokens, stopped]

/-- A closing name of two bytes in the second line. -/
theorem readers_fault_alike_mismatched :
    validate (.ofBytes (bytes "<a>\n</é>")) = .error (.malformed (.mismatchedTags "a" "é") ⟨6, 2, 3⟩) ∧
      Node.ofBytes (bytes "<a>\n</é>") = .error (.malformed (.mismatchedTags "a" "é") ⟨6, 2, 3⟩) := by
  have failed : validate (.ofBytes (bytes "<a>\n</é>")) =
      .error (.malformed (.mismatchedTags "a" "é") ⟨6, 2, 3⟩) := by rfl
  exact ⟨failed, readers_fault_alike "<a>\n</é>" failed rfl⟩

end XmlBinding
