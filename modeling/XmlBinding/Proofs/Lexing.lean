import XmlBinding.Proofs.Measure

/-! The lexer against the grammar. In each context a token that the grammar has a use for covers a stretch that the
grammar derives, and where the grammar derives such a stretch the lexer gives its token. -/
namespace XmlBinding
open Text Grammar

/-- A token of a tag over the stretch between two places, with the context after it. -/
inductive TagLexes : Cursor → Token → LexerContext → Cursor → Prop where
  | name (named : Name c name d) : TagLexes c ⟨.name, name, c.place⟩ .tag d
  | equals (spelled : Spells c "=" d) : TagLexes c ⟨.equals, "=", c.place⟩ .tag d
  | string (spelled : Spells c raw d) (quoted : Quoted c (unquote raw) d) :
      TagLexes c ⟨.string, raw, c.place⟩ .tag d
  | selfClose (spelled : Spells c "/>" d) : TagLexes c ⟨.selfClose, "/>", c.place⟩ .content d
  | tagClose (spelled : Spells c ">" d) : TagLexes c ⟨.tagClose, ">", c.place⟩ .content d

/-- A token over the stretch between two places, with the contexts before and after it. -/
inductive Lexes : LexerContext → Cursor → Token → LexerContext → Cursor → Prop where
  | text (nonempty : run ≠ "") (plain : '<' ∉ run.toList) (spelled : Spells c run d) (stops : Tagged d) :
      Lexes .content c ⟨.text, run, c.place⟩ .content d
  | opening (used : sec ≠ .instruction) (opens : Spells c sec.opening d)
      (found : Scan.indexOf? (bytes sec.terminator) d.ahead = some n) :
      Lexes .content c ⟨sec.startKind, sec.opening, c.place⟩ (.inside sec) d
  | endTag (opens : Spells c "</" d) : Lexes .content c ⟨.endTagOpen, "</", c.place⟩ .tagStart d
  | startTag (opens : Spells c "<" d) (notClosing : ¬ (bytes "</").isPrefixOf c.ahead = true)
      (notSection : ∀ sec : Section, ¬ (bytes sec.opening).isPrefixOf c.ahead = true) :
      Lexes .content c ⟨.tagOpen, "<", c.place⟩ .tagStart d
  | body (nonempty : body ≠ "") (spelled : Spells c body d)
      (found : Scan.indexOf? (bytes sec.terminator) c.ahead = some (bytes body).length) :
      Lexes (.inside sec) c ⟨sec.contentKind, body, c.place⟩ (.inside sec) d
  | terminator (spelled : Spells c sec.terminator d) :
      Lexes (.inside sec) c ⟨sec.endKind, sec.terminator, c.place⟩ .content d
  | tagName (named : Name c name d) : Lexes .tagStart c ⟨.name, name, c.place⟩ .tag d
  | tag (space : Space c m) (lexes : TagLexes m token k d) : Lexes .tag c token k d

/-- Whether the grammar has a use for tokens of a kind in a context. -/
def Wanted : LexerContext → TokenKind → Bool
  | .content, kind => kind != .instructionStart && kind != .endOfInput
  | .tagStart, kind => kind == .name
  | .tag, kind => [.name, .equals, .string, .selfClose, .tagClose].contains kind
  | .inside _, kind => kind != .endOfInput
  | .done, _ => false

theorem section_kinds (sec : Section) :
    sec.startKind ≠ .endOfInput ∧ sec.contentKind ≠ .endOfInput ∧ sec.endKind ≠ .endOfInput := by
  cases sec <;> decide

theorem section_delimiters (sec : Section) : sec.opening ≠ "" ∧ sec.terminator ≠ "" := by
  cases sec <;> decide

theorem Lexes.kind_ne (lexes : Lexes k c token k' d) : token.kind ≠ .endOfInput := by
  cases lexes with
  | opening => exact (section_kinds _).1
  | body => exact (section_kinds _).2.1
  | terminator => exact (section_kinds _).2.2
  | tag _ lexes => cases lexes <;> exact TokenKind.noConfusion
  | _ => exact TokenKind.noConfusion

theorem TagLexes.spelled (lexes : TagLexes c token k d) : Spells c token.lexeme d ∧ token.lexeme ≠ "" := by
  cases lexes with
  | name named => exact ⟨named.spelled, named.nonempty⟩
  | string spelled quoted =>
    refine ⟨spelled, ?_⟩
    rintro rfl
    obtain ⟨b, rest, raw, begins, -, -, spelled', found⟩ := quoted.measured
    have same := spelled.length.symm.trans spelled'.length
    rw [begins] at found
    obtain ⟨n, -, length⟩ := Option.map_eq_some_iff.1 found
    rw [bytes_empty, List.length_nil] at same
    omega
  | equals spelled => exact ⟨spelled, (by decide : "=" ≠ "")⟩
  | selfClose spelled => exact ⟨spelled, (by decide : "/>" ≠ "")⟩
  | tagClose spelled => exact ⟨spelled, (by decide : ">" ≠ "")⟩

theorem TagLexes.unspaced (lexes : TagLexes c token k d) : c.Unspaced := by
  cases lexes with
  | name named => exact named.unspaced
  | string spelled quoted => exact quoted.unspaced
  | equals spelled => exact unspaced_of spelled.ahead rfl
  | selfClose spelled => exact unspaced_of spelled.ahead rfl
  | tagClose spelled => exact unspaced_of spelled.ahead rfl

/-- No token is empty. -/
theorem Lexes.shorter (lexes : Lexes k c token k' d) : d.ahead.length < c.ahead.length := by
  cases lexes with
  | text nonempty plain spelled => exact spelled.shorter nonempty
  | opening _ opens => exact opens.shorter (section_delimiters _).1
  | endTag opens => exact opens.shorter (by decide)
  | startTag opens => exact opens.shorter (by decide)
  | body nonempty spelled => exact spelled.shorter nonempty
  | terminator spelled => exact spelled.shorter (section_delimiters _).2
  | tagName named => exact named.spelled.shorter named.nonempty
  | tag space lexes =>
    have less := space.reaches.length
    have room := lexes.spelled.1.shorter lexes.spelled.2
    omega

/-- A lexer in a context, standing at a place of input that is all there. -/
structure Lexer.At (lexer : Lexer) (k : LexerContext) (c : Cursor) : Prop where
  context : lexer.context = k
  input : lexer.input.At c

namespace Lexer

theorem ofBytes_at (input : List UInt8) : (ofBytes input).At .content (.start input) := ⟨rfl, .ofBytes input⟩

theorem findSection_at {s : Stream} (here : s.At c) (list : List Section) :
    findSection s list = (list.find? fun sec => (bytes sec.opening).isPrefixOf c.ahead, s) := by
  induction list with
  | nil => rfl
  | cons sec rest ih =>
    rw [findSection, here.startsWith, List.find?_cons]
    cases (bytes sec.opening).isPrefixOf c.ahead with
    | true => rfl
    | false => exact ih

theorem eatFixed_at {s : Stream} (here : s.At c) (list : List (String × TokenKind × LexerContext)) :
    eatFixed s list = match list.find? fun entry => (bytes entry.1).isPrefixOf c.ahead with
      | some entry => (some entry, s.advance (bytes entry.1).length)
      | none => (none, s) := by
  induction list with
  | nil => rfl
  | cons entry rest ih =>
    rw [eatFixed, here.eat, List.find?_cons]
    cases (bytes entry.1).isPrefixOf c.ahead with
    | true => rfl
    | false => exact ih

section Steps
variable (lexer : Lexer) {c : Cursor} (here : lexer.input.At c)
include here

theorem take_ok : lexer.take kind n = (.ok token, lexer') ↔
    ∃ text, ofBytes? (c.ahead.take n) = some text ∧ token = ⟨kind, text, c.place⟩ ∧
      lexer' = { lexer with input := lexer.input.advance n } := by
  have text := here.bytesFrom n
  rw [Stream.offset] at text
  rw [take, Stream.textFrom, text, here.place]
  cases ofBytes? (c.ahead.take n) with
  | none => simp [Except.map]
  | some text => simp [Except.map, eq_comm]

theorem finish_at : lexer.finish.1 = .ok ⟨.endOfInput, "", c.place⟩ := by
  simp only [finish, Stream.takeFailure, here.whole.unfailed, here.place]

theorem openSection_ok (opens : Spells c sec.opening d) : lexer.openSection sec = (.ok token, lexer') ↔
    ∃ n, Scan.indexOf? (bytes sec.terminator) d.ahead = some n ∧
      token = ⟨sec.startKind, sec.opening, c.place⟩ ∧
      lexer' = { input := lexer.input.advance (bytes sec.opening).length, context := .inside sec } := by
  have there := here.past opens
  rw [openSection, there.find, here.place]
  cases Scan.indexOf? (bytes sec.terminator) d.ahead with
  | none => simp [Stream.takeFailure, there.whole.unfailed]
  | some n => simp [eq_comm]

theorem inSection_at : lexer.inSection sec =
    if (bytes sec.terminator).isPrefixOf c.ahead then
      (.ok ⟨sec.endKind, sec.terminator, c.place⟩,
        { input := lexer.input.setMark.advance (bytes sec.terminator).length, context := .content })
    else match Scan.indexOf? (bytes sec.terminator) c.ahead with
      | some n => { lexer with input := lexer.input.setMark }.take sec.contentKind n
      | none => (.error (.malformed .unexpectedEnd c.place), { lexer with input := lexer.input.setMark }) := by
  rw [inSection, here.setMark.eat]
  cases (bytes sec.terminator).isPrefixOf c.ahead with
  | true => simp [here.place]
  | false =>
    simp only [Bool.false_eq_true, if_false, here.setMark.find, here.place]
    cases Scan.indexOf? (bytes sec.terminator) c.ahead <;> rfl

theorem inContent_end (ended : c.ahead = []) :
    lexer.inContent = { lexer with input := lexer.input.setMark }.finish := by
  rw [inContent, here.setMark.isAtEnd, ended]
  rfl

theorem inContent_section (more : c.ahead ≠ [])
    (found : (Section.all.find? fun sec => (bytes sec.opening).isPrefixOf c.ahead) = some sec) :
    lexer.inContent = { lexer with input := lexer.input.setMark }.openSection sec := by
  rw [inContent, here.setMark.isAtEnd, List.isEmpty_eq_false_iff.2 more]
  dsimp only
  rw [findSection_at here.setMark, found]

/-- Where no section begins there is a tag or text. -/
theorem inContent_plain (more : c.ahead ≠ [])
    (found : (Section.all.find? fun sec => (bytes sec.opening).isPrefixOf c.ahead) = none) :
    lexer.inContent =
      if (bytes "</").isPrefixOf c.ahead then
        (.ok ⟨.endTagOpen, "</", c.place⟩,
          { input := lexer.input.setMark.advance (bytes "</").length, context := .tagStart })
      else if (bytes "<").isPrefixOf c.ahead then
        (.ok ⟨.tagOpen, "<", c.place⟩,
          { input := lexer.input.setMark.advance (bytes "<").length, context := .tagStart })
      else { lexer with input := lexer.input.setMark.setMark }.take .text (Scan.textLength.whole c.ahead) := by
  have marked := here.setMark
  rw [inContent, marked.isAtEnd, List.isEmpty_eq_false_iff.2 more]
  dsimp only
  rw [findSection_at marked, found, ← here.place]
  dsimp only
  rw [marked.eat]
  cases (bytes "</").isPrefixOf c.ahead with
  | true => rfl
  | false =>
    simp only [Bool.false_eq_true, if_false, marked.eat]
    cases (bytes "<").isPrefixOf c.ahead with
    | true => rfl
    | false =>
      simp only [Bool.false_eq_true, if_false, marked.setMark.run Scan.textLength_settled]

theorem inTag_end (ended : c.ahead = []) :
    lexer.inTag = { lexer with input := lexer.input.setMark }.finish := by
  rw [inTag, here.setMark.peek, ended]
  rfl

theorem inTag_fixed (begins : c.ahead = b :: rest)
    (found : (tagTokens.find? fun entry => (bytes entry.1).isPrefixOf c.ahead) = some entry) :
    lexer.inTag = (.ok ⟨entry.2.1, entry.1, c.place⟩,
      { input := lexer.input.setMark.advance (bytes entry.1).length, context := entry.2.2 }) := by
  rw [inTag, here.setMark.peek, begins]
  dsimp only [List.head?_cons]
  rw [eatFixed_at here.setMark, found, here.place]

/-- Where no fixed spelling begins there is a quoted string or a name, or else a single character. -/
theorem inTag_string (begins : c.ahead = b :: rest) (quote : isQuote b = true)
    (found : (tagTokens.find? fun entry => (bytes entry.1).isPrefixOf c.ahead) = none) :
    lexer.inTag =
      if 0 < (Scan.quotedLength? c.ahead).getD 0 then
        { lexer with input := lexer.input.setMark }.take .string ((Scan.quotedLength? c.ahead).getD 0)
      else { lexer with input := lexer.input.setMark }.take .text (Scan.charLength.whole c.ahead) := by
  have marked := here.setMark
  rw [inTag, marked.peek, begins]
  dsimp only [List.head?_cons]
  rw [eatFixed_at marked, found]
  dsimp only
  rw [quote, if_pos rfl, marked.quotedLength]
  dsimp only
  rw [marked.run Scan.charLength_settled, begins]

theorem inTag_name (begins : c.ahead = b :: rest) (unquoted : isQuote b = false)
    (found : (tagTokens.find? fun entry => (bytes entry.1).isPrefixOf c.ahead) = none) :
    lexer.inTag =
      if 0 < nameLength c.ahead then
        { lexer with input := lexer.input.setMark }.take .name (nameLength c.ahead)
      else { lexer with input := lexer.input.setMark }.take .text (Scan.charLength.whole c.ahead) := by
  have marked := here.setMark
  rw [inTag, marked.peek, begins]
  dsimp only [List.head?_cons]
  rw [eatFixed_at marked, found]
  dsimp only
  rw [unquoted, if_neg Bool.false_ne_true, marked.nameLength]
  dsimp only
  rw [marked.run Scan.charLength_settled, begins]

end Steps

theorem inContent_sound {lexer : Lexer} (here : lexer.At .content c) (given : lexer.inContent = (.ok token, lexer'))
    (used : token.kind ≠ .instructionStart) :
    (token.kind = .endOfInput ∧ c.ahead = []) ∨ ∃ k d, Lexes .content c token k d ∧ lexer'.At k d := by
  obtain ⟨context, here⟩ := here
  have marked := here.setMark
  by_cases more : c.ahead = []
  · rw [inContent_end lexer here more] at given
    cases (finish_at _ marked).symm.trans (congrArg Prod.fst given)
    exact .inl ⟨rfl, more⟩
  · right
    cases found : Section.all.find? fun sec => (bytes sec.opening).isPrefixOf c.ahead with
    | some sec =>
      rw [inContent_section lexer here more found] at given
      have begins := List.find?_some found
      have opens := Spells.ofPrefix begins
      obtain ⟨n, terminated, rfl, rfl⟩ := (openSection_ok _ marked opens).1 given
      refine ⟨_, _, .opening ?_ opens terminated, rfl, marked.past opens⟩
      rintro rfl
      exact used rfl
    | none =>
      rw [inContent_plain lexer here more found] at given
      have notSection (sec : Section) : ¬ (bytes sec.opening).isPrefixOf c.ahead = true :=
        List.find?_eq_none.1 found sec (by cases sec <;> decide)
      split at given
      · rename_i closing
        cases given
        exact ⟨_, _, .endTag (.ofPrefix closing), rfl, marked.past (.ofPrefix closing)⟩
      · rename_i notClosing
        split at given
        · rename_i opening
          cases given
          exact ⟨_, _, .startTag (.ofPrefix opening) notClosing notSection, rfl, marked.past (.ofPrefix opening)⟩
        · rename_i notOpening
          obtain ⟨run, valid, rfl, rfl⟩ := (take_ok _ marked.setMark).1 given
          obtain ⟨spelled, plain, stops⟩ := text_past valid
          have nonempty := text_nonempty spelled stops (List.isEmpty_eq_false_iff.2 more)
            (Bool.eq_false_iff.2 notOpening)
          exact ⟨_, _, .text nonempty plain spelled stops, context, marked.setMark.advance _⟩

/-- No section is found where none begins, and the right one where one begins. -/
theorem find_none {c : Cursor} (notSection : ∀ sec : Section, ¬ (bytes sec.opening).isPrefixOf c.ahead = true) :
    (Section.all.find? fun sec => (bytes sec.opening).isPrefixOf c.ahead) = none :=
  List.find?_eq_none.2 fun sec _ => notSection sec

theorem find_opening {c : Cursor} (used : sec ≠ .instruction) (opens : Spells c sec.opening d) :
    (Section.all.find? fun sec => (bytes sec.opening).isPrefixOf c.ahead) = some sec := by
  rw [opens.ahead]
  cases sec with
  | comment => rfl
  | cdata => rfl
  | declaration => rfl
  | instruction => exact absurd rfl used

theorem inContent_complete {lexer : Lexer} (here : lexer.At .content c) (lexes : Lexes .content c token k d) :
    ∃ lexer', lexer.inContent = (.ok token, lexer') ∧ lexer'.At k d := by
  obtain ⟨context, here⟩ := here
  have marked := here.setMark
  have more : c.ahead ≠ [] := List.ne_nil_of_length_pos (Nat.zero_lt_of_lt lexes.shorter)
  cases lexes with
  | opening used opens found =>
    rw [inContent_section lexer here more (find_opening used opens)]
    exact ⟨_, (openSection_ok _ marked opens).2 ⟨_, found, rfl, rfl⟩, rfl, marked.past opens⟩
  | endTag opens =>
    have notSection (sec : Section) : ¬ (bytes sec.opening).isPrefixOf c.ahead = true := by
      rw [opens.ahead]
      cases sec <;> exact Bool.false_ne_true
    rw [inContent_plain lexer here more (find_none notSection), if_pos opens.isPrefix]
    exact ⟨_, rfl, rfl, marked.past opens⟩
  | startTag opens notClosing notSection =>
    rw [inContent_plain lexer here more (find_none notSection), if_neg notClosing, if_pos opens.isPrefix]
    exact ⟨_, rfl, rfl, marked.past opens⟩
  | text nonempty plain spelled stops =>
    have untagged := spelled.untagged nonempty plain
    have notClosing : ¬ (bytes "</").isPrefixOf c.ahead = true := untagged.notPrefix _
    have notOpening : ¬ (bytes "<").isPrefixOf c.ahead = true := untagged.notPrefix _
    rw [inContent_plain lexer here more (find_none untagged.notSection), if_neg notClosing, if_neg notOpening,
      spelled.text plain stops]
    exact ⟨_, (take_ok _ marked.setMark).2 ⟨_, spelled.take, rfl, rfl⟩, context, marked.setMark.past spelled⟩

theorem inSection_sound {lexer : Lexer} (here : lexer.At (.inside sec) c)
    (given : lexer.inSection sec = (.ok token, lexer')) :
    ∃ k d, Lexes (.inside sec) c token k d ∧ lexer'.At k d := by
  obtain ⟨context, here⟩ := here
  rw [inSection_at lexer here] at given
  split at given
  · rename_i terminated
    cases given
    exact ⟨_, _, .terminator (.ofPrefix terminated), rfl, here.setMark.past (.ofPrefix terminated)⟩
  · rename_i open_
    cases found : Scan.indexOf? (bytes sec.terminator) c.ahead with
    | none =>
      rw [found] at given
      cases given
    | some n =>
      rw [found] at given
      obtain ⟨body, valid, rfl, rfl⟩ := (take_ok { lexer with input := lexer.input.setMark } here.setMark).1 given
      obtain ⟨bound, begins, -⟩ := Scan.indexOf?_eq_some_iff.1 found
      have length : n = (bytes body).length := by
        rw [ofBytes?_eq_some_iff.1 valid, List.length_take_of_le bound]
      have nonempty : body ≠ "" := by
        rintro rfl
        rw [length, bytes_empty] at begins
        exact open_ (List.isPrefixOf_iff_prefix.2 begins)
      exact ⟨_, _, .body nonempty (.taken valid) (length ▸ found), context, here.setMark.advance n⟩

theorem inSection_complete {lexer : Lexer} (here : lexer.At (.inside sec) c)
    (lexes : Lexes (.inside sec) c token k d) :
    ∃ lexer', lexer.inSection sec = (.ok token, lexer') ∧ lexer'.At k d := by
  obtain ⟨context, here⟩ := here
  rw [inSection_at lexer here]
  cases lexes with
  | terminator spelled =>
    rw [if_pos spelled.isPrefix]
    exact ⟨_, rfl, rfl, here.setMark.past spelled⟩
  | body nonempty spelled found =>
    have first := (Scan.indexOf?_eq_some_iff.1 found).2.2 0
      (List.length_pos_iff.2 (mt bytes_eq_nil_iff.1 nonempty))
    rw [List.drop_zero] at first
    rw [if_neg (mt List.isPrefixOf_iff_prefix.1 first), found]
    exact ⟨_, (take_ok { lexer with input := lexer.input.setMark } here.setMark).2
      ⟨_, spelled.take, rfl, rfl⟩, context, here.setMark.past spelled⟩

theorem inTag_sound (lexer : Lexer) (here : lexer.At .tag c) (given : lexer.inTag = (.ok token, lexer'))
    (wanted : Wanted .tag token.kind = true) : ∃ k d, TagLexes c token k d ∧ lexer'.At k d := by
  obtain ⟨context, here⟩ := here
  have marked := here.setMark
  -- A single character is not a token that a tag may have.
  have refused {n : Nat}
      (given : ({ lexer with input := lexer.input.setMark } : Lexer).take .text n = (.ok token, lexer')) :
        False := by
    obtain ⟨text, -, rfl, -⟩ := (take_ok _ marked).1 given
    cases wanted
  cases begins : c.ahead with
  | nil =>
    rw [inTag_end lexer here begins] at given
    cases (finish_at _ marked).symm.trans (congrArg Prod.fst given)
    cases wanted
  | cons b rest =>
    cases found : tagTokens.find? fun entry => (bytes entry.1).isPrefixOf c.ahead with
    | some entry =>
      rw [inTag_fixed lexer here begins found] at given
      have ahead := List.find?_some found
      have spelled := Spells.ofPrefix ahead
      have there := marked.past spelled
      have member := List.mem_of_find?_eq_some found
      simp only [tagTokens, List.mem_cons, List.not_mem_nil, or_false] at member
      rcases member with rfl | rfl | rfl | rfl | rfl | rfl <;> cases given
      · cases wanted
      · cases wanted
      · exact ⟨_, _, .selfClose spelled, rfl, there⟩
      · cases wanted
      · exact ⟨_, _, .tagClose spelled, rfl, there⟩
      · exact ⟨_, _, .equals spelled, rfl, there⟩
    | none =>
      cases quote : isQuote b with
      | true =>
        rw [inTag_string lexer here begins quote found] at given
        cases closes : Scan.quotedLength? c.ahead with
        | none =>
          rw [closes] at given
          exact (refused given).elim
        | some n =>
          rw [closes, Option.getD_some] at given
          split at given
          · obtain ⟨raw, valid, rfl, rfl⟩ := (take_ok _ marked).1 given
            exact ⟨_, _, .string (.taken valid) (quoted_past begins quote closes valid), context, marked.advance n⟩
          · exact (refused given).elim
      | false =>
        rw [inTag_name lexer here begins quote found] at given
        split at given
        · rename_i positive
          obtain ⟨read, valid, rfl, rfl⟩ := (take_ok _ marked).1 given
          exact ⟨_, _, .name (name_past positive valid), context, marked.advance _⟩
        · exact (refused given).elim

/-- No token of fixed spelling begins with a byte that delimits nothing. -/
theorem find_fixed_none {c : Cursor} (begins : c.ahead = b :: rest) (other : b ∉ [0x3F, 0x3C, 0x2F, 0x3E, 0x3D]) :
    (tagTokens.find? fun entry => (bytes entry.1).isPrefixOf c.ahead) = none := by
  simp only [List.mem_cons, List.not_mem_nil, or_false, not_or] at other
  obtain ⟨question, bracket, slash, close, equals⟩ := other
  rw [List.find?_eq_none, begins]
  intro entry member
  simp only [tagTokens, List.mem_cons, List.not_mem_nil, or_false] at member
  rcases member with rfl | rfl | rfl | rfl | rfl | rfl
  · exact isPrefixOf_first question _ _
  · exact isPrefixOf_first bracket _ _
  · exact isPrefixOf_first slash _ _
  · exact isPrefixOf_first bracket _ _
  · exact isPrefixOf_first close _ _
  · exact isPrefixOf_first equals _ _

theorem inTag_complete (lexer : Lexer) (here : lexer.At .tag c) (lexes : TagLexes c token k d) :
    ∃ lexer', lexer.inTag = (.ok token, lexer') ∧ lexer'.At k d := by
  obtain ⟨context, here⟩ := here
  have marked := here.setMark
  have fixed {literal : String} {kind : TokenKind} {k : LexerContext} {b : UInt8} {rest : List UInt8}
      (spelled : Spells c literal d)
      (inhabited : c.ahead = b :: rest)
      (found : (tagTokens.find? fun entry => (bytes entry.1).isPrefixOf c.ahead) = some (literal, kind, k)) :
      ∃ lexer', lexer.inTag = (.ok ⟨kind, literal, c.place⟩, lexer') ∧ lexer'.At k d :=
    ⟨_, inTag_fixed lexer here inhabited found, rfl, marked.past spelled⟩
  cases lexes with
  | equals spelled => exact fixed spelled spelled.ahead (by rw [spelled.ahead]; rfl)
  | selfClose spelled => exact fixed spelled spelled.ahead (by rw [spelled.ahead]; rfl)
  | tagClose spelled => exact fixed spelled spelled.ahead (by rw [spelled.ahead]; rfl)
  | name named =>
    obtain ⟨b, rest, begins, lettered⟩ := named.begins
    have apart (delimiter : UInt8) (other : ¬ Lettered delimiter) : b ≠ delimiter := lettered.ne other
    have unquoted : isQuote b = false := by
      simp [isQuote, apart 0x22 (by decide), apart 0x27 (by decide)]
    have unfixed := find_fixed_none begins (by
      simp [apart 0x3F (by decide), apart 0x3C (by decide), apart 0x2F (by decide), apart 0x3E (by decide),
        apart 0x3D (by decide)])
    have positive : 0 < (bytes _).length := List.length_pos_iff.2 (mt bytes_eq_nil_iff.1 named.nonempty)
    rw [inTag_name lexer here begins unquoted unfixed, named.measured, if_pos positive]
    exact ⟨_, (take_ok _ marked).2 ⟨_, named.spelled.take, rfl, rfl⟩, context, marked.past named.spelled⟩
  | string spelled quoted =>
    obtain ⟨b, rest, raw, begins, quote, -, spelled', found⟩ := quoted.measured
    have same : (bytes raw).length = (bytes _).length :=
      (Nat.add_right_cancel (spelled.length.symm.trans spelled'.length)).symm
    have positive : 0 < (bytes raw).length := by
      rw [begins] at found
      obtain ⟨n, -, length⟩ := Option.map_eq_some_iff.1 found
      omega
    have unfixed := find_fixed_none begins (by
      obtain ⟨_, kind, rfl⟩ := quote_of_isQuote quote
      rcases kind with rfl | rfl <;> decide)
    rw [inTag_string lexer here begins quote unfixed, found, Option.getD_some, if_pos positive, same]
    exact ⟨_, (take_ok _ marked).2 ⟨_, spelled.take, rfl, rfl⟩, context, marked.past spelled⟩

theorem next_sound {lexer : Lexer} (here : lexer.At k c) (given : lexer.next = (.ok token, lexer'))
    (wanted : Wanted k token.kind = true) : ∃ k' d, Lexes k c token k' d ∧ lexer'.At k' d := by
  rw [next, here.context] at given
  cases k with
  | content =>
    simp only [Wanted, Bool.and_eq_true, bne_iff_ne] at wanted
    rcases inContent_sound here given wanted.1 with ⟨last, -⟩ | found
    · exact absurd last wanted.2
    · exact found
  | inside sec => exact inSection_sound here given
  | tag =>
    obtain ⟨space, -⟩ := space_past c
    obtain ⟨k', d, lexes, there⟩ := inTag_sound ⟨lexer.input.skipSpace, .tag⟩
      ⟨rfl, here.input.skipSpace⟩ given wanted
    exact ⟨k', d, .tag space lexes, there⟩
  | done => cases wanted
  | tagStart =>
    have marked := here.input.setMark
    rw [marked.nameLength] at given
    dsimp only at given
    split at given
    · rename_i positive
      obtain ⟨read, valid, rfl, rfl⟩ := (take_ok ⟨lexer.input.setMark, .tag⟩ marked).1 given
      exact ⟨_, _, .tagName (name_past positive valid), rfl, marked.advance _⟩
    · rename_i none
      obtain ⟨k', d, lexes, there⟩ := inTag_sound ⟨lexer.input.setMark, .tag⟩ ⟨rfl, marked⟩ given
        (by rw [Wanted, beq_iff_eq] at wanted; rw [wanted]; rfl)
      cases lexes with
      | name named =>
        exact absurd (by rw [named.measured]; exact List.length_pos_iff.2 (mt bytes_eq_nil_iff.1 named.nonempty)) none
      | _ => cases wanted

theorem next_complete {lexer : Lexer} (here : lexer.At k c) (lexes : Lexes k c token k' d) :
    ∃ lexer', lexer.next = (.ok token, lexer') ∧ lexer'.At k' d := by
  rw [next, here.context]
  cases k with
  | content => exact inContent_complete here lexes
  | inside sec => exact inSection_complete here lexes
  | done => cases lexes
  | tag =>
    cases lexes with
    | tag space lexes =>
      exact inTag_complete ⟨lexer.input.skipSpace, .tag⟩
        ⟨rfl, here.input.skipSpace_of space lexes.unspaced⟩ lexes
  | tagStart =>
    have marked := here.input.setMark
    rw [marked.nameLength]
    cases lexes with
    | tagName named =>
      dsimp only
      rw [named.measured, if_pos (List.length_pos_iff.2 (mt bytes_eq_nil_iff.1 named.nonempty))]
      exact ⟨_, (take_ok ⟨lexer.input.setMark, .tag⟩ marked).2 ⟨_, named.spelled.take, rfl, rfl⟩, rfl,
        marked.past named.spelled⟩

theorem next_ended {lexer : Lexer} (here : lexer.At .content c) (ended : c.ahead = []) :
    lexer.next.1 = .ok ⟨.endOfInput, "", c.place⟩ := by
  rw [next, here.context]
  dsimp only
  rw [inContent, here.input.setMark.isAtEnd, ended]
  exact finish_at { lexer with input := lexer.input.setMark } here.input.setMark

/-- A section that nothing ends is not entered. -/
theorem next_dangling {lexer : Lexer} (here : lexer.At .content c) (used : sec ≠ .instruction)
    (dangling : Dangling sec c) : lexer.next.1 = .error (.malformed sec.unterminated c.place) := by
  obtain ⟨d, opens, unclosed⟩ := dangling
  have marked := here.input.setMark
  have there := marked.past opens
  have more : c.ahead ≠ [] := by
    rw [opens.ahead]
    cases sec <;> exact List.cons_ne_nil _ _
  rw [next, here.context]
  dsimp only
  rw [inContent_section lexer here.input more (find_opening used opens), openSection, there.find, unclosed]
  dsimp only
  rw [Stream.takeFailure, there.whole.unfailed, marked.place]

/-- Between tags the input ends only where nothing is left. -/
theorem ended_next {lexer : Lexer} (here : lexer.At .content c) (given : lexer.next.1 = .ok token)
    (last : token.kind = .endOfInput) : c.ahead = [] := by
  rw [next, here.context] at given
  rcases inContent_sound here (Prod.ext given rfl) (by rw [last]; exact TokenKind.noConfusion) with
    ⟨-, ended⟩ | ⟨k, d, lexes, -⟩
  · exact ended
  · exact absurd last lexes.kind_ne

end Lexer

/-- The current token, if it could be read. -/
def Tokens.current (tokens : Tokens) : Except Error Token :=
  match tokens.tokens with
  | token :: _ => .ok token
  | [] => tokens.last

/-- The tokens that a lexer gives from a place on, in a context. -/
def Reads (k : LexerContext) (c : Cursor) (tokens : Tokens) : Prop :=
  ∃ lexer : Lexer, ∃ fuel, lexer.At k c ∧ c.ahead.length ≤ fuel ∧ tokens = lexer.tokensWithin fuel

theorem ofBytes_reads (input : List UInt8) : Reads .content (.start input) (Lexer.ofBytes input).tokens :=
  ⟨.ofBytes input, _, Lexer.ofBytes_at input, Nat.le_add_right _ _, rfl⟩

theorem Reads.current (reads : Reads k c tokens) (read : tokens.current = .ok token)
    (wanted : Wanted k token.kind = true) :
    ∃ rest k' d, tokens.tokens = token :: rest ∧ Lexes k c token k' d ∧ Reads k' d ⟨rest, tokens.last⟩ := by
  obtain ⟨lexer, fuel, here, enough, rfl⟩ := reads
  cases fuel with
  | zero =>
    obtain ⟨k', d, lexes, -⟩ := Lexer.next_sound here (Prod.ext read rfl) wanted
    have room := lexes.shorter
    omega
  | succ fuel =>
    rw [Lexer.tokensWithin] at read ⊢
    cases step : lexer.next with
    | mk given lexer' =>
      rw [step] at read
      cases given with
      | error e => cases read
      | ok first =>
        dsimp only at read ⊢
        split at read
        · rename_i last
          cases read
          rw [last] at wanted
          cases k <;> cases wanted
        · rename_i more
          cases read
          rw [if_neg more]
          obtain ⟨k', d, lexes, there⟩ := Lexer.next_sound here step wanted
          have room := lexes.shorter
          exact ⟨_, k', d, rfl, lexes, lexer', fuel, there, by omega, rfl⟩

theorem Reads.kind_ne (reads : Reads k c tokens) (split : tokens.tokens = token :: rest) :
    token.kind ≠ .endOfInput := by
  obtain ⟨lexer, fuel, -, -, rfl⟩ := reads
  cases fuel with
  | zero => cases split
  | succ fuel =>
    rw [Lexer.tokensWithin] at split
    cases step : lexer.next with
    | mk given lexer' =>
      rw [step] at split
      cases given with
      | error e => cases split
      | ok first =>
        dsimp only at split
        split at split
        · cases split
        · rename_i more
          cases split
          exact more

theorem Reads.next (reads : Reads k c tokens) (lexes : Lexes k c token k' d) :
    ∃ rest, tokens.tokens = token :: rest ∧ Reads k' d ⟨rest, tokens.last⟩ := by
  obtain ⟨lexer, fuel, here, enough, rfl⟩ := reads
  obtain ⟨lexer', step, there⟩ := Lexer.next_complete here lexes
  have room := lexes.shorter
  obtain ⟨fuel, rfl⟩ : ∃ n, fuel = n + 1 := ⟨fuel - 1, by omega⟩
  rw [Lexer.tokensWithin, step]
  dsimp only
  rw [if_neg lexes.kind_ne]
  exact ⟨_, rfl, lexer', fuel, there, by omega, rfl⟩

theorem Reads.endOfInput (reads : Reads .content c tokens) (read : tokens.current = .ok token)
    (last : token.kind = .endOfInput) : c.ahead = [] := by
  obtain ⟨lexer, fuel, here, -, rfl⟩ := reads
  cases fuel with
  | zero => exact Lexer.ended_next here read last
  | succ fuel =>
    rw [Lexer.tokensWithin] at read
    cases step : lexer.next with
    | mk given lexer' =>
      rw [step] at read
      cases given with
      | error e => cases read
      | ok first =>
        dsimp only at read
        split at read
        · cases read
          exact Lexer.ended_next here (congrArg Prod.fst step) last
        · rename_i more
          cases read
          exact absurd last more

theorem Reads.dangling (reads : Reads .content c tokens) (used : sec ≠ .instruction) (dangling : Dangling sec c) :
    tokens.tokens = [] ∧ tokens.current = .error (.malformed sec.unterminated c.place) := by
  obtain ⟨lexer, fuel, here, -, rfl⟩ := reads
  have last := Lexer.next_dangling here used dangling
  cases fuel with
  | zero => exact ⟨rfl, last⟩
  | succ fuel =>
    cases step : lexer.next with
    | mk given lexer' =>
      rw [step] at last
      cases last
      rw [Lexer.tokensWithin, step]
      exact ⟨rfl, rfl⟩

theorem Reads.ended (reads : Reads .content c tokens) (ended : c.ahead = []) :
    tokens.tokens = [] ∧ tokens.current = .ok ⟨.endOfInput, "", c.place⟩ := by
  obtain ⟨lexer, fuel, here, -, rfl⟩ := reads
  have last := Lexer.next_ended here ended
  cases fuel with
  | zero => exact ⟨rfl, last⟩
  | succ fuel =>
    cases step : lexer.next with
    | mk given lexer' =>
      rw [step] at last
      cases last
      rw [Lexer.tokensWithin, step]
      exact ⟨rfl, rfl⟩

end XmlBinding
