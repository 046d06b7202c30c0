import XmlBinding.Proofs.Reading

/-! How a document breaks off. Beside the derivations of the grammar stand the ways in which one of them goes no
further, each with the fault that is reported and the place where it is. Whenever the direct reader reports such a
fault, the input breaks off in the way that the fault says. -/
namespace XmlBinding
open Text

/-- Whether a fault is one that both readers report at the same place. How the others are reported depends on whether
tokens or characters are read. -/
def Fault.shared : Fault → Bool
  | .mismatchedTags _ _ | .unterminatedString | .unterminatedComment | .unterminatedCData | .unterminatedDeclaration
  | .expectedClosingName | .expectedEquals _ | .expectedAttributeValue _ | .unclosedElement _ | .nestingTooDeep _ =>
    true
  | _ => false

namespace Grammar

/-- An attribute breaks off behind its name, behind its equals sign or inside its value. -/
inductive AttrBreaks (c : Cursor) : Fault → Position → Prop where
  | equals (named : Name c name c₁) (before : Space c₁ d) (stops : d.Unspaced)
      (missing : ¬ (bytes "=").isPrefixOf d.ahead = true) : AttrBreaks c (.expectedEquals name) d.place
  | value (named : Name c name c₁) (before : Space c₁ c₂) (equals : Spells c₂ "=" c₃) (after : Space c₃ d)
      (stops : d.Unspaced) (missing : ¬ d.ahead.head?.any Lexer.isQuote = true) :
      AttrBreaks c (.expectedAttributeValue name) d.place
  | string (named : Name c name c₁) (before : Space c₁ c₂) (equals : Spells c₂ "=" c₃) (after : Space c₃ d)
      (begins : d.ahead.head?.any Lexer.isQuote = true) (unclosed : Scan.quotedLength? d.ahead = none) :
      AttrBreaks c .unterminatedString d.place

/-- A tag that begins an element breaks off in one of its attributes. -/
inductive OpeningBreaks (c : Cursor) (fault : Fault) (place : Position) : Prop where
  | intro (opens : Spells c "<" c₁) (named : Name c₁ name c₂) (attributes : Attributes c₂ list c₃)
      (space : Space c₃ d) (breaks : AttrBreaks d fault place)

/-- A tag that ends an element has no name, or the name of another element. -/
inductive ClosingBreaks (name : String) (c : Cursor) : Fault → Position → Prop where
  | unnamed (opens : Spells c "</" d) (missing : nameLength d.ahead = 0) :
      ClosingBreaks name c .expectedClosingName d.place
  | mismatched (opens : Spells c "</" d) (named : Name d other e) (differs : other ≠ name) :
      ClosingBreaks name c (.mismatchedTags name other) d.place

/-- The content of an element breaks off with the input, in a section or in a child element. -/
inductive ContentBreaks (child : Cursor → Tag → Body → Cursor → Prop) (breaks : Cursor → Fault → Position → Prop)
    (name : String) (c : Cursor) : Fault → Position → Prop where
  | ended (contents : Contents child c body d) (ended : d.ahead = []) :
      ContentBreaks child breaks name c (.unclosedElement name) d.place
  | comment (contents : Contents child c body d) (dangling : Dangling .comment d) :
      ContentBreaks child breaks name c .unterminatedComment d.place
  | cdata (contents : Contents child c body d) (dangling : Dangling .cdata d) :
      ContentBreaks child breaks name c .unterminatedCData d.place
  | element (contents : Contents child c body d) (opens : Spells d "<" e)
      (notClosing : ¬ (bytes "</").isPrefixOf d.ahead = true)
      (notSection : ∀ sec : Section, ¬ (bytes sec.opening).isPrefixOf d.ahead = true)
      (inner : breaks d fault place) : ContentBreaks child breaks name c fault place

theorem ContentBreaks.prepend (breaking : ContentBreaks child breaks name d fault place)
    (first : ∀ {body e}, Contents child d body e → ∃ body', Contents child c body' e) :
    ContentBreaks child breaks name c fault place := by
  cases breaking with
  | ended contents ended =>
    obtain ⟨_, contents⟩ := first contents
    exact .ended contents ended
  | comment contents dangling =>
    obtain ⟨_, contents⟩ := first contents
    exact .comment contents dangling
  | cdata contents dangling =>
    obtain ⟨_, contents⟩ := first contents
    exact .cdata contents dangling
  | element contents opens notClosing notSection inner =>
    obtain ⟨_, contents⟩ := first contents
    exact .element contents opens notClosing notSection inner

/-- An element breaks off in one of its tags or between them. -/
inductive ElementBreaksOf (child : Cursor → Tag → Body → Cursor → Prop) (breaks : Cursor → Fault → Position → Prop)
    (c : Cursor) (fault : Fault) (place : Position) : Prop where
  | opening (inner : OpeningBreaks c fault place)
  | content (opening : Opening false c tag c₁) (inner : ContentBreaks child breaks tag.name c₁ fault place)
  | closing (opening : Opening false c tag c₁) (contents : Contents child c₁ inside c₂)
      (inner : ClosingBreaks tag.name c₂ fault place)

/-- An element breaks off in which elements may nest so many levels deep. Where they may not nest at all, it does so
where it begins. -/
def ElementBreaks : (levels : Nat) → Cursor → Fault → Position → Prop
  | 0 => fun c fault place => (∃ d, Spells c "<" d) ∧ fault = .nestingTooDeep maxDepth ∧ place = c.place
  | levels + 1 => ElementBreaksOf (Element levels) (ElementBreaks levels)

/-- A document breaks off in its declaration, in a comment outside its root element or in that element. -/
inductive DocumentBreaks (input : List UInt8) : Fault → Position → Prop where
  | declaration (space : Space (.start input) c) (dangling : Dangling .declaration c) :
      DocumentBreaks input .unterminatedDeclaration c.place
  | before (space : Space (.start input) c₁) (prolog : Prolog c₁ c₂) (misc : Misc c₂ c)
      (dangling : Dangling .comment c) : DocumentBreaks input .unterminatedComment c.place
  | root (space : Space (.start input) c₁) (prolog : Prolog c₁ c₂) (misc : Misc c₂ c)
      (inner : ElementBreaks maxDepth c fault place) : DocumentBreaks input fault place
  | after (rooted : Rooted input tag inside c₁) (misc : Misc c₁ c) (dangling : Dangling .comment c) :
      DocumentBreaks input .unterminatedComment c.place

end Grammar

open Grammar

namespace Reading

theorem isPrefixOf_instruction {input : List UInt8}
    (begins : (bytes Section.declaration.opening).isPrefixOf input = true) :
    (bytes Section.instruction.opening).isPrefixOf input = true := by
  rw [List.isPrefixOf_iff_prefix] at begins ⊢
  exact List.IsPrefix.trans ⟨bytes "xml", rfl⟩ begins

theorem bind_error {x : Reading α} {f : α → Reading β} (failed : (x >>= f) s = .error e) :
    x s = .error e ∨ ∃ a s', x s = .ok (a, s') ∧ f a s' = .error e := by
  change (x s).bind (fun p => f p.1 p.2) = _ at failed
  cases ran : x s with
  | error e' =>
    rw [ran] at failed
    cases failed
    exact .inl rfl
  | ok p =>
    rw [ran] at failed
    exact .inr ⟨p.1, p.2, rfl, failed⟩

theorem discard_error {x : Reading α} (failed : discard x s = .error e) : x s = .error e := by
  change (x s).bind (fun p => Except.ok ((), p.2)) = _ at failed
  cases ran : x s with
  | error e' =>
    rw [ran] at failed
    cases failed
    rfl
  | ok p =>
    rw [ran] at failed
    cases failed

/-- Bytes that are no text are a fault of their own. -/
theorem textFrom_unshared (failed : textFrom start s = .error (.malformed fault place)) : fault.shared = false := by
  unfold textFrom at failed
  rw [bind_of (a := s) rfl, Stream.textFrom] at failed
  split at failed
  · cases failed
  · cases failed
    rfl

theorem lexeme_unshared (failed : lexeme keepsText start s = .error (.malformed fault place)) :
    fault.shared = false := by
  rw [lexeme_eq] at failed
  rcases bind_error failed with failed | ⟨_, _, -, failed⟩
  · exact textFrom_unshared failed
  · cases failed

section Failures
variable {s : Stream} {c : Cursor} (here : s.At c)
include here

theorem failAt_at {α : Type} (fault : Fault) (place : Position) :
    (failAt fault place : Reading α) s = .error (.malformed fault place) := by
  unfold failAt
  rw [bind_of (a := s) rfl, here.whole.unfailed]
  rfl

theorem fail_at {α : Type} (fault : Fault) : (fail fault : Reading α) s = .error (.malformed fault c.place) := by
  unfold fail
  rw [bind_of (a := s) rfl, failAt_at here, here.place]

theorem stop_at {α : Type} (fault : Fault) (next : Unit → Reading α) :
    ((fail fault : Reading Unit) >>= next) s = .error (.malformed fault c.place) := by
  change (fail fault s).bind _ = _
  rw [fail_at here]
  rfl

theorem finding_at : ∃ found, finding s = .ok (found, s) := by
  unfold finding
  rw [bind_of (peek_at here)]
  cases c.ahead.head? with
  | none => exact ⟨_, rfl⟩
  | some b => exact ⟨_, rfl⟩

theorem name_breaks (failed : name missing s = .error (.malformed fault place)) (shared : fault.shared = true) :
    fault = missing ∧ place = c.place ∧ nameLength c.ahead = 0 := by
  unfold name at failed
  rw [bind_of (mark_ok s), bind_of (ask_name here.setMark)] at failed
  split at failed
  · rename_i none
    rw [stop_at here.setMark] at failed
    cases failed
    exact ⟨rfl, rfl, none⟩
  · dsimp only at failed
    rw [bind_of (advance_ok _ _)] at failed
    cases shared.symm.trans (textFrom_unshared failed)

theorem delimited_breaks (opens : Spells c sec.opening d)
    (failed : delimited keepsText sec s = .error (.malformed fault place)) (shared : fault.shared = true) :
    fault = sec.unterminated ∧ place = c.place ∧ Dangling sec c := by
  have inside : (s.advance (bytes sec.opening).length).setMark.At d := by
    rw [opens.past]
    exact (here.advance _).setMark
  unfold delimited at failed
  rw [bind_of (a := s) rfl, bind_of (advance_ok _ _), bind_of (mark_ok _), bind_of (ask_find inside _)] at failed
  cases found : Scan.indexOf? (bytes sec.terminator) d.ahead with
  | none =>
    rw [found] at failed
    dsimp only at failed
    rw [failAt_at inside, here.place] at failed
    cases failed
    exact ⟨rfl, rfl, d, opens, found⟩
  | some length =>
    rw [found] at failed
    dsimp only at failed
    rw [bind_of (advance_ok _ _)] at failed
    rcases bind_error failed with failed | ⟨_, _, -, failed⟩
    · cases shared.symm.trans (lexeme_unshared failed)
    · cases failed

theorem readAttribute_breaks (failed : readAttribute builder soFar s = .error (.malformed fault place))
    (shared : fault.shared = true) : AttrBreaks c fault place := by
  unfold readAttribute at failed
  rcases bind_error failed with failed | ⟨name, s₁, read, failed⟩
  · obtain ⟨rfl, -⟩ := name_breaks here failed shared
    cases shared
  obtain ⟨c₁, named, here⟩ := name_sound here read
  obtain ⟨c₂, before, stops, here⟩ := skipSpace_ok here rfl
  rw [bind_of (a := ()) rfl] at failed
  by_cases equals : (bytes "=").isPrefixOf c₂.ahead = true
  case neg =>
    rw [bind_of (eat_of_not here "=" equals)] at failed
    dsimp only at failed
    rw [if_neg Bool.false_ne_true, stop_at here] at failed
    cases failed
    exact .equals named before stops equals
  have equals := Spells.ofPrefix equals
  obtain ⟨ate, here⟩ := eat_of here equals
  obtain ⟨c₄, after, stops, here⟩ := skipSpace_ok here rfl
  have there := here.setMark
  rw [bind_of ate] at failed
  dsimp only at failed
  rw [if_pos rfl, bind_of (a := ()) rfl, bind_of (mark_ok _), bind_of (peek_at there)] at failed
  by_cases begins : c₄.ahead.head?.any Lexer.isQuote = true
  case neg =>
    rw [if_neg begins, stop_at there] at failed
    cases failed
    exact .value named before equals after stops begins
  rw [if_pos begins, bind_of (ask_quoted there)] at failed
  cases found : Scan.quotedLength? c₄.ahead with
  | none =>
    rw [found] at failed
    dsimp only at failed
    rw [fail_at there] at failed
    cases failed
    exact .string named before equals after begins found
  | some length =>
    rw [found] at failed
    dsimp only at failed
    rw [bind_of (advance_ok _ _)] at failed
    rcases bind_error failed with failed | ⟨kept, _, -, failed⟩
    · cases shared.symm.trans (lexeme_unshared failed)
    · cases kept <;> cases failed

theorem restOfTag_breaks (failed : restOfTag builder fuel soFar s = .error (.malformed fault place))
    (shared : fault.shared = true) :
    ∃ list c₁ d, Attributes c list c₁ ∧ Space c₁ d ∧ AttrBreaks d fault place := by
  induction fuel generalizing s c soFar with
  | zero =>
    unfold restOfTag at failed
    rw [fail_at here] at failed
    cases failed
    cases shared
  | succ fuel ih =>
    unfold restOfTag at failed
    obtain ⟨c₁, space, -, there⟩ := skipSpace_ok here rfl
    rw [bind_of (a := ()) rfl] at failed
    rcases bind_error failed with failed | ⟨closes, _, ate, failed⟩
    · cases failed
    cases closes with
    | true => cases failed
    | false =>
      obtain ⟨-, rfl⟩ := eat_false there ate
      dsimp only at failed
      rw [if_neg Bool.false_ne_true] at failed
      rcases bind_error failed with failed | ⟨opens, _, ate, failed⟩
      · cases failed
      cases opens with
      | true => cases failed
      | false =>
        obtain ⟨-, rfl⟩ := eat_false there ate
        dsimp only at failed
        rw [if_neg Bool.false_ne_true, bind_of (isAtEnd_at there)] at failed
        split at failed
        · rw [stop_at there] at failed
          cases failed
          cases shared
        · rcases bind_error failed with failed | ⟨_, _, read, failed⟩
          · exact ⟨[], c, c₁, .nil, space, readAttribute_breaks there failed shared⟩
          · obtain ⟨written, c₂, first, -, there⟩ := readAttribute_sound builder there read
            obtain ⟨list, c₃, d, more, space', breaks⟩ := ih there failed
            exact ⟨written :: list, c₃, d, .cons space first more, space', breaks⟩

theorem openTag_breaks (failed : openTag builder parts s = .error (.malformed fault place))
    (shared : fault.shared = true) : OpeningBreaks c fault place := by
  unfold openTag at failed
  by_cases begins : (bytes "<").isPrefixOf c.ahead = true
  case neg =>
    obtain ⟨found, ran⟩ := finding_at here
    rw [bind_of (eat_of_not here "<" begins)] at failed
    dsimp only at failed
    rw [if_neg Bool.false_ne_true, bind_of ran, stop_at here] at failed
    cases failed
    cases shared
  have opens := Spells.ofPrefix begins
  obtain ⟨ate, there⟩ := eat_of here opens
  rw [bind_of ate] at failed
  dsimp only at failed
  rw [if_pos rfl] at failed
  rcases bind_error failed with failed | ⟨_, _, read, failed⟩
  · obtain ⟨rfl, -⟩ := name_breaks there failed shared
    cases shared
  obtain ⟨c₂, named, there⟩ := name_sound there read
  rcases bind_error failed with failed | ⟨_, _, -, failed⟩
  · obtain ⟨list, c₃, d, attributes, space, breaks⟩ := restOfTag_breaks there failed shared
    exact .intro opens named attributes space breaks
  · cases failed

/-- Only after it has been seen to begin is a closing tag read. -/
theorem closeTag_breaks (closes : Spells c "</" d) (failed : closeTag opening s = .error (.malformed fault place))
    (shared : fault.shared = true) : ClosingBreaks opening c fault place := by
  have there : (s.advance 2).At d := here.past closes
  unfold closeTag at failed
  rw [bind_of (advance_ok _ _), bind_of (a := s.advance 2) rfl] at failed
  rcases bind_error failed with failed | ⟨closing, _, read, failed⟩
  · obtain ⟨rfl, rfl, missing⟩ := name_breaks there failed shared
    exact .unnamed closes missing
  obtain ⟨c₂, named, here⟩ := name_sound there read
  dsimp only at failed
  by_cases equal : closing = opening
  case neg =>
    rw [if_pos equal, there.place] at failed
    cases failed
    exact .mismatched closes named equal
  obtain ⟨c₃, space, -, here⟩ := skipSpace_ok here rfl
  rw [if_neg (not_not_intro equal), bind_of (a := ()) rfl] at failed
  by_cases ends : (bytes ">").isPrefixOf c₃.ahead = true
  · rw [bind_of (eat_of here (.ofPrefix ends)).1] at failed
    cases failed
  · obtain ⟨found, ran⟩ := finding_at here
    rw [bind_of (eat_of_not here ">" ends)] at failed
    dsimp only at failed
    rw [if_neg Bool.false_ne_true, bind_of ran, fail_at here] at failed
    cases failed
    cases shared

end Failures

/-- A reader of child elements breaks off only where elements do, with no more than `parts` bytes left. -/
def Breaks (parts : Nat) (reader : Reading (String × ε)) (breaks : Cursor → Fault → Position → Prop) : Prop :=
  ∀ {s c fault place}, s.At c → c.ahead.length ≤ parts → reader s = .error (.malformed fault place) →
    fault.shared = true → breaks c fault place

theorem content_breaks {builder : Builder ε} (nesting : Nesting nested) (child : Sound builder reader nested)
    (inner : Breaks parts reader breaks) (here : s.At c) (bound : c.ahead.length ≤ parts)
    (enough : c.ahead.length ≤ fuel)
    (failed : content builder reader outer fuel soFar text cdata? s = .error (.malformed fault place))
    (shared : fault.shared = true) : ContentBreaks nested breaks outer c fault place := by
  induction fuel generalizing s c soFar text cdata? with
  | zero =>
    unfold content at failed
    rw [fail_at here] at failed
    cases failed
    exact .ended .done (List.eq_nil_of_length_eq_zero (by omega))
  | succ fuel ih =>
    simp only [content, ite_run, bind_of (isAtEnd_at here), bind_of (startsWith_at here _)] at failed
    split at failed
    · rename_i ended
      rw [stop_at here] at failed
      cases failed
      exact .ended .done (List.isEmpty_iff.1 ended)
    rename_i more
    split at failed
    · cases failed
    rename_i notClosing
    split at failed
    · rename_i opens
      rcases bind_error failed with failed | ⟨_, _, read, failed⟩
      · obtain ⟨rfl, rfl, dangling⟩ := delimited_breaks here (.ofPrefix opens) (discard_error failed) shared
        exact .comment .done dangling
      · obtain ⟨_, read⟩ := discard_ok.1 read
        obtain ⟨comment, d, enclosed, -, there⟩ := delimited_sound here (.ofPrefix opens) read
        have shorter := enclosed.shorter
        exact (ih there (by omega) (by omega) failed).prepend fun contents => ⟨_, .comment enclosed contents⟩
    rename_i notComment
    split at failed
    · rename_i opens
      rcases bind_error failed with failed | ⟨_, _, read, failed⟩
      · obtain ⟨rfl, rfl, dangling⟩ := delimited_breaks here (.ofPrefix opens) failed shared
        exact .cdata .done dangling
      · obtain ⟨cdata, d, enclosed, -, there⟩ := delimited_sound here (.ofPrefix opens) read
        have shorter := enclosed.shorter
        exact (ih there (by omega) (by omega) failed).prepend fun contents => ⟨_, .cdata enclosed contents⟩
    rename_i notCdata
    split at failed
    · rw [fail_at here] at failed
      cases failed
      cases shared
    rename_i notInstruction
    split at failed
    · rename_i opens
      rcases bind_error failed with failed | ⟨⟨name, made⟩, _, read, failed⟩
      · refine .element .done (.ofPrefix opens) notClosing (fun sec => ?_) (inner here bound failed shared)
        cases sec with
        | comment => exact notComment
        | cdata => exact notCdata
        | instruction => exact notInstruction
        | declaration => exact mt isPrefixOf_instruction notInstruction
      · obtain ⟨tag, inside, d, element, -, -, there⟩ := child here read
        have shorter := nesting.shorter element
        exact (ih there (by omega) (by omega) failed).prepend fun contents => ⟨_, .element element contents⟩
    · rename_i notOpening
      rw [bind_of (mark_ok _), bind_of (ask_at here.setMark Scan.textLength_settled), bind_of (advance_ok _ _)]
        at failed
      rcases bind_error failed with failed | ⟨_, _, read, failed⟩
      · cases shared.symm.trans (lexeme_unshared failed)
      · obtain ⟨run, valid, rfl, rfl⟩ := (lexeme_ok here.setMark).1 read
        obtain ⟨spelled, plain, stops⟩ := text_past valid
        have some := text_nonempty spelled stops (Bool.eq_false_iff.2 more) (Bool.eq_false_iff.2 notOpening)
        have shorter := spelled.shorter some
        exact (ih (here.setMark.advance _) (by omega) (by omega) failed).prepend fun contents =>
          ⟨_, .text some plain spelled contents⟩

theorem element_breaks (builder : Builder ε) (parts levels : Nat) :
    Breaks parts (element builder parts levels) (ElementBreaks levels) := by
  induction levels with
  | zero =>
    intro s c fault place here bound failed shared
    unfold element at failed
    rw [bind_of (a := s) rfl] at failed
    by_cases begins : (bytes "<").isPrefixOf c.ahead = true
    · rw [bind_of (eat_of here (.ofPrefix begins)).1] at failed
      cases failed
      exact ⟨⟨_, .ofPrefix begins⟩, rfl, here.place⟩
    · obtain ⟨found, ran⟩ := finding_at here
      rw [bind_of (eat_of_not here "<" begins)] at failed
      dsimp only at failed
      rw [if_neg Bool.false_ne_true, bind_of ran, stop_at here] at failed
      cases failed
      cases shared
  | succ levels ih =>
    intro s c fault place here bound failed shared
    rw [element_succ] at failed
    rcases bind_error failed with failed | ⟨⟨opening, soFar, isEmpty⟩, _, opened, failed⟩
    · exact .opening (openTag_breaks here failed shared)
    obtain ⟨tag, c₁, opening, rfl, rfl, there⟩ := openTag_sound builder here opened
    cases isEmpty with
    | true => cases failed
    | false =>
      have less := opening.reaches.length
      dsimp only at failed
      rw [if_neg Bool.false_ne_true] at failed
      rcases bind_error failed with failed | ⟨_, _, read, failed⟩
      · exact .content opening (content_breaks (element_nesting levels) (element_sound builder parts levels) ih there
          (by omega) (by omega) failed shared)
      obtain ⟨inside, c₂, c₃, contents, closes, -, there⟩ :=
        content_sound (element_sound builder parts levels) there read
      rcases bind_error failed with failed | ⟨_, _, -, failed⟩
      · exact .closing opening contents (closeTag_breaks there closes failed shared)
      · cases failed

theorem skipMisc_breaks (here : s.At c) (failed : skipMisc keepsText fuel s = .error (.malformed fault place))
    (shared : fault.shared = true) :
    ∃ d, Misc c d ∧ Dangling .comment d ∧ fault = .unterminatedComment ∧ place = d.place := by
  induction fuel generalizing s c with
  | zero => cases failed
  | succ fuel ih =>
    unfold skipMisc at failed
    obtain ⟨c₁, space, -, there⟩ := skipSpace_ok here rfl
    rw [bind_of (a := ()) rfl, bind_of (startsWith_at there _)] at failed
    split at failed
    · rename_i opens
      rcases bind_error failed with failed | ⟨_, _, read, failed⟩
      · obtain ⟨rfl, rfl, dangling⟩ := delimited_breaks there (.ofPrefix opens) (discard_error failed) shared
        exact ⟨c₁, .space space .done, dangling, rfl, rfl⟩
      · obtain ⟨_, read⟩ := discard_ok.1 read
        obtain ⟨comment, c₂, enclosed, -, there⟩ := delimited_sound there (.ofPrefix opens) read
        obtain ⟨d, misc, breaks⟩ := ih there failed
        exact ⟨d, .space space (.comment enclosed misc), breaks⟩
    · cases failed

theorem rooted_breaks (builder : Builder ε) {input : List UInt8} (enough : input.length ≤ parts)
    (failed : rooted builder parts (.ofBytes input) = .error (.malformed fault place)) (shared : fault.shared = true) :
    DocumentBreaks input fault place := by
  have here := Stream.At.ofBytes input
  unfold rooted at failed
  obtain ⟨c₁, space, -, here⟩ := skipSpace_ok here rfl
  rw [bind_of (a := ()) rfl, bind_of (startsWith_at here _)] at failed
  have onward {c₂ : Cursor} {s : Stream} (prolog : Prolog c₁ c₂) (here : s.At c₂)
      (failed : (skipMisc builder.keepsText parts >>= fun _ => element builder parts maxDepth) s =
        .error (.malformed fault place)) : DocumentBreaks input fault place := by
    rcases bind_error failed with failed | ⟨_, _, skipped, failed⟩
    · obtain ⟨d, misc, dangling, rfl, rfl⟩ := skipMisc_breaks here failed shared
      exact .before space prolog misc dangling
    · obtain ⟨c₃, misc, there⟩ := skipMisc_sound here skipped
      have less : _ ≤ input.length := (space.reaches.trans (prolog.reaches.trans misc.reaches)).length
      exact .root space prolog misc (element_breaks builder parts maxDepth there (by omega) failed shared)
  split at failed
  · rename_i opens
    rcases bind_error failed with failed | ⟨_, _, read, failed⟩
    · obtain ⟨rfl, rfl, dangling⟩ := delimited_breaks here (.ofPrefix opens) (discard_error failed) shared
      exact .declaration space dangling
    · obtain ⟨_, read⟩ := discard_ok.1 read
      obtain ⟨body, c₂, enclosed, -, there⟩ := delimited_sound here (.ofPrefix opens) read
      exact onward (.declaration enclosed) there failed
  · exact onward .none here failed

/-- Where the direct reader reports a fault that both readers report, the document breaks off. -/
theorem document_breaks (builder : Builder ε) {input : List UInt8}
    (failed : document builder (.ofBytes input) = .error (.malformed fault place)) (shared : fault.shared = true) :
    DocumentBreaks input fault place := by
  rw [document_rooted, bind_of (remaining_ofBytes input)] at failed
  rcases bind_error failed with failed | ⟨⟨_, made⟩, _, read, failed⟩
  · exact rooted_breaks builder (Nat.le_refl _) failed shared
  obtain ⟨tag, inside, c, rooted, -, here⟩ := rooted_sound builder read
  dsimp only at failed
  rcases bind_error failed with failed | ⟨_, _, skipped, failed⟩
  · obtain ⟨d, misc, dangling, rfl, rfl⟩ := skipMisc_breaks here failed shared
    exact .after rooted misc dangling
  obtain ⟨d, -, there⟩ := skipMisc_sound here skipped
  rw [bind_of (isAtEnd_at there)] at failed
  split at failed
  · rw [bind_of (a := _) rfl, there.whole.unfailed] at failed
    cases failed
  · rw [stop_at there] at failed
    cases failed
    cases shared

end Reading
end XmlBinding
