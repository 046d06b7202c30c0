import XmlBinding.Proofs.Lexing

/-! Tags in text. Where the input is text, every token of a tag can be read, whatever it is: the scans of the lexer cut
text between characters only. -/
namespace XmlBinding
open Text Grammar

namespace Text

/-- A text has a whole number of characters in front of a byte that is one itself. -/
theorem spell_before {chars : List Char} {before after : List UInt8} {b : UInt8} (ascii : b < 0x80)
    (spelled : spell chars = before ++ b :: after) : ∃ front, before = spell front := by
  induction chars generalizing before with
  | nil => simp at spelled
  | cons c chars ih =>
    rw [spell_cons] at spelled
    rcases List.append_eq_append_iff.1 spelled with ⟨rest, here, later⟩ | ⟨rest, here, later⟩
    · obtain ⟨front, same⟩ := ih later
      exact ⟨c :: front, by rw [spell_cons, here, same]⟩
    · cases rest with
      | nil => exact ⟨[c], by rw [spell_cons, spell_nil, here, List.append_nil, List.append_nil]⟩
      | cons first more =>
        obtain ⟨rfl, -⟩ := List.cons.inj later
        -- The byte is in the spelling of a character, so it is all of it and nothing stands before it.
        have char := ascii_char_of_byte ascii
        have low : (Char.ofNat b.toNat).toNat < 0x80 := by
          rw [char.1]
          simpa [UInt8.lt_iff_toNat_lt] using ascii
        have byte : Scan.byteOf (Char.ofNat b.toNat) = b := by rw [Scan.byteOf, char.1, UInt8.ofNat_toNat]
        obtain rfl := Scan.mem_spelling (c := c) low (by rw [byte, here]; simp)
        rw [char.2] at here
        have none : before = [] := by
          have lengths := congrArg List.length here
          simp only [List.length_append, List.length_cons, List.length_nil] at lengths
          exact List.eq_nil_of_length_eq_zero (by omega)
        exact ⟨[], none⟩

theorem leadWidth_ascii {b : UInt8} (ascii : b < 0x80) : leadWidth b = 0 := by
  have small : b.toNat < 0x80 := by simpa [UInt8.lt_iff_toNat_lt] using ascii
  simp only [leadWidth, UInt8.le_iff_toNat_le, UInt8.reduceToNat]
  rw [if_neg (by omega), if_neg (by omega), if_neg (by omega)]

/-- What is measured as a name is text. -/
theorem name_readable {input : List UInt8} (positive : 0 < nameLength input) :
    ∃ name, ofBytes? (input.take (nameLength input)) = some name := by
  obtain ⟨chars, after, split, length, -⟩ := nameLength_pos positive
  refine ⟨String.ofList chars, ofBytes?_eq_some_iff.2 ?_⟩
  rw [length, bytes_ofList]
  conv => rhs; rw [split]
  exact List.take_left.symm

end Text

namespace Grammar

/-- All that is ahead is text. -/
def Textual (c : Cursor) : Prop := ∃ text, c.ahead = bytes text

theorem Reaches.textual (reaches : Reaches c d) (textual : Textual c) : Textual d := by
  obtain ⟨passed, spelled⟩ := reaches
  obtain ⟨whole, ahead⟩ := textual
  have same := spelled.ahead.symm.trans ahead
  rw [bytes_eq_spell, bytes_eq_spell, ← List.append_nil (spell whole.toList)] at same
  rcases spell_comparable same with ⟨more, -, left⟩ | ⟨more, -, none⟩
  · exact ⟨String.ofList more, by rw [left, List.append_nil, bytes_ofList]⟩
  · exact ⟨"", by rw [bytes_empty, (List.append_eq_nil_iff.1 none.symm).2]⟩

theorem Spells.textual {text : String} (spelled : Spells c text d) (textual : Textual c) : Textual d :=
  spelled.reaches.textual textual

/-- A quoted string in text is text. -/
theorem Textual.quoted (textual : Textual c) (begins : c.ahead = b :: rest) (isQuote : Lexer.isQuote b = true)
    (found : Scan.quotedLength? c.ahead = some n) : ∃ raw, ofBytes? (c.ahead.take n) = some raw := by
  obtain ⟨whole, ahead⟩ := textual
  rw [begins] at found
  obtain ⟨k, closes, rfl⟩ := Option.map_eq_some_iff.1 found
  obtain ⟨after, split, length⟩ := Scan.closingQuote?_split closes
  have ascii : b < 0x80 := by
    obtain ⟨quote, kind, rfl⟩ := quote_of_isQuote isQuote
    rcases kind with rfl | rfl <;> decide
  generalize rest.take k = between at split length
  subst split length
  have parts : c.ahead = (b :: between) ++ b :: after := begins
  rw [bytes_eq_spell] at ahead
  obtain ⟨front, same⟩ := spell_before ascii (ahead.symm.trans parts)
  refine ⟨String.ofList (front ++ [Char.ofNat b.toNat]), ?_⟩
  have taken : c.ahead.take (between.length + 2) = (b :: between) ++ [b] := by
    rw [begins]
    simp [List.take_append, List.take_of_length_le]
  rw [taken, ofBytes?_eq_some_iff, bytes_ofList, spell_append, ← same, spell_cons, (ascii_char_of_byte ascii).2]
  rfl

/-- The character ahead in text is text. -/
theorem Textual.char (textual : Textual c) (more : c.ahead ≠ []) :
    ∃ letter, Scan.charLength.whole c.ahead = (String.utf8EncodeChar letter).length ∧
      c.ahead.take (Scan.charLength.whole c.ahead) = bytes (String.ofList [letter]) := by
  obtain ⟨whole, ahead⟩ := textual
  rw [bytes_eq_spell] at ahead
  cases chars : whole.toList with
  | nil => exact absurd (by rw [ahead, chars]; rfl) more
  | cons letter others =>
    rw [chars, spell_cons] at ahead
    have length : Scan.charLength.whole c.ahead = (String.utf8EncodeChar letter).length := by
      cases begins : c.ahead with
      | nil => exact absurd begins more
      | cons b rest =>
        have long : (String.utf8EncodeChar letter).length ≤ (b :: rest).length := by
          rw [← begins, ahead, List.length_append]
          exact Nat.le_add_right _ _
        rcases spelling_head (begins.symm.trans ahead) with ⟨ascii, rfl, -⟩ | ⟨-, -, others, spelled, width, -⟩
        · have narrow : leadWidth b = 0 := leadWidth_ascii ascii
          have one : (String.utf8EncodeChar (Char.ofNat b.toNat)).length = 1 := by
            rw [(ascii_char_of_byte ascii).2]
            rfl
          rw [one, Scan.charLength]
          simp [narrow]
        · have wide : (String.utf8EncodeChar letter).length = max (leadWidth b) 1 := by
            rw [spelled, width, List.length_cons]
            omega
          rw [wide] at long ⊢
          rw [Scan.charLength]
          exact if_pos (hasAtLeast_iff.2 long)
    refine ⟨letter, length, ?_⟩
    rw [length, ahead, List.take_left, bytes_ofList, spell_cons, spell_nil, List.append_nil]

end Grammar

namespace Lexer

theorem take_readable (lexer : Lexer) (kind : TokenKind) (here : lexer.input.At c)
    (valid : ofBytes? (c.ahead.take n) = some text) : ∃ token lexer', lexer.take kind n = (.ok token, lexer') ∧
      token.position = c.place ∧ ∃ d, Spells c token.lexeme d :=
  ⟨_, _, (take_ok lexer here).2 ⟨text, valid, rfl, rfl⟩, rfl, _, .taken valid⟩

/-- A token of a tag can be read wherever the input is text. It stands where the lexer does. -/
theorem inTag_readable (lexer : Lexer) (here : lexer.input.At c) (textual : Textual c) :
    ∃ token lexer', lexer.inTag = (.ok token, lexer') ∧ token.position = c.place ∧ ∃ d, Spells c token.lexeme d := by
  have marked := here.setMark
  have taken (kind : TokenKind) {n : Nat} {text : String} (valid : ofBytes? (c.ahead.take n) = some text) :=
    take_readable { lexer with input := lexer.input.setMark } kind marked valid
  cases begins : c.ahead with
  | nil =>
    rw [inTag_end lexer here begins]
    exact ⟨_, _, Prod.ext (finish_at _ marked) rfl, rfl, c, .refl c⟩
  | cons b rest =>
    have more : c.ahead ≠ [] := by rw [begins]; exact List.cons_ne_nil _ _
    obtain ⟨letter, -, character⟩ := textual.char more
    have single := ofBytes?_eq_some_iff.2 character.symm
    cases found : tagTokens.find? fun entry => (bytes entry.1).isPrefixOf c.ahead with
    | some entry =>
      rw [inTag_fixed lexer here begins found]
      have prefixed := List.find?_some found
      exact ⟨_, _, rfl, rfl, _, .ofPrefix prefixed⟩
    | none =>
      cases quote : isQuote b with
      | true =>
        rw [inTag_string lexer here begins quote found]
        split
        · rename_i positive
          cases closes : Scan.quotedLength? c.ahead with
          | none => rw [closes] at positive; cases positive
          | some n =>
            obtain ⟨raw, valid⟩ := textual.quoted begins quote closes
            exact taken _ valid
        · exact taken _ single
      | false =>
        rw [inTag_name lexer here begins quote found]
        split
        · rename_i positive
          obtain ⟨name, valid⟩ := name_readable positive
          exact taken _ valid
        · exact taken _ single

/-- A quote that nothing answers is a token of its own. -/
theorem inTag_quote (lexer : Lexer) (here : lexer.input.At c) (textual : Textual c) (begins : c.ahead = b :: rest)
    (quote : isQuote b = true) (unclosed : Scan.quotedLength? c.ahead = none) :
    ∃ lexeme lexer', lexer.inTag = (.ok ⟨.text, lexeme, c.place⟩, lexer') ∧ (lexeme = "\"" ∨ lexeme = "'") := by
  have marked := here.setMark
  obtain ⟨delimiter, kind, rfl⟩ := quote_of_isQuote quote
  have unfixed := find_fixed_none begins (by rcases kind with rfl | rfl <;> decide)
  obtain ⟨letter, length, character⟩ := textual.char (by rw [begins]; exact List.cons_ne_nil _ _)
  rw [inTag_string lexer here begins quote unfixed, unclosed, if_neg (by exact Nat.lt_irrefl 0)]
  refine ⟨_, _, (take_ok _ marked).2 ⟨_, ofBytes?_eq_some_iff.2 character.symm, rfl, rfl⟩, ?_⟩
  have ascii : delimiter.toNat < 0x80 := by rcases kind with rfl | rfl <;> decide
  rw [bytes_ofList, spell_cons, spell_nil, List.append_nil, length] at character
  have same : String.utf8EncodeChar letter ++ c.ahead.drop (String.utf8EncodeChar letter).length =
      String.utf8EncodeChar delimiter ++ rest :=
    calc _ = c.ahead.take (String.utf8EncodeChar letter).length ++ c.ahead.drop (String.utf8EncodeChar letter).length :=
          by rw [character]
      _ = Scan.byteOf delimiter :: rest := by rw [List.take_append_drop, begins]
      _ = _ := by rw [Scan.spelling_byteOf ascii]; rfl
  obtain ⟨rfl, -⟩ := spelling_unique same
  rcases kind with rfl | rfl
  · exact .inl rfl
  · exact .inr rfl

end Lexer

namespace Reads

/-- The current token is the one that the lexer gives. -/
theorem lexed (reads : Reads k c tokens) : ∃ lexer : Lexer, lexer.At k c ∧ tokens.current = lexer.next.1 := by
  obtain ⟨lexer, fuel, here, -, rfl⟩ := reads
  refine ⟨lexer, here, ?_⟩
  cases fuel with
  | zero => rfl
  | succ fuel =>
    rw [Lexer.tokensWithin]
    cases lexer.next with
    | mk given lexer' =>
      cases given with
      | error e => rfl
      | ok token =>
        dsimp only
        split <;> rfl

/-- In a tag the current token stands behind the spaces. -/
theorem inTag (reads : Reads .tag c tokens) (space : Space c m) (stops : m.Unspaced) (textual : Textual c) :
    ∃ token, tokens.current = .ok token ∧ token.position = m.place ∧ ∃ d, Spells m token.lexeme d := by
  obtain ⟨lexer, here, current⟩ := reads.lexed
  obtain ⟨token, lexer', given, place, spelled⟩ := Lexer.inTag_readable ⟨lexer.input.skipSpace, lexer.context⟩
    (here.input.skipSpace_of space stops) (space.reaches.textual textual)
  refine ⟨token, ?_, place, spelled⟩
  rw [current, Lexer.next, here.context]
  rw [here.context] at given
  exact congrArg Prod.fst given

theorem inTag_quote (reads : Reads .tag c tokens) (space : Space c m) (textual : Textual c)
    (begins : m.ahead.head?.any Lexer.isQuote = true) (unclosed : Scan.quotedLength? m.ahead = none) :
    ∃ lexeme, tokens.current = .ok ⟨.text, lexeme, m.place⟩ ∧ (lexeme = "\"" ∨ lexeme = "'") := by
  obtain ⟨lexer, here, current⟩ := reads.lexed
  cases ahead : m.ahead with
  | nil => rw [ahead] at begins; cases begins
  | cons b rest =>
    have quote : Lexer.isQuote b = true := by simpa [ahead] using begins
    have stops : m.Unspaced := by
      refine unspaced_of ahead ?_
      obtain ⟨delimiter, kind, rfl⟩ := quote_of_isQuote quote
      rcases kind with rfl | rfl <;> rfl
    obtain ⟨lexeme, lexer', given, kind⟩ := Lexer.inTag_quote ⟨lexer.input.skipSpace, lexer.context⟩
      (here.input.skipSpace_of space stops) (space.reaches.textual textual) ahead quote unclosed
    refine ⟨lexeme, ?_, kind⟩
    rw [current, Lexer.next, here.context]
    rw [here.context] at given
    exact congrArg Prod.fst given

/-- Directly behind the opening of a tag the current token is a name, or stands where none is. -/
theorem atTagStart (reads : Reads .tagStart c tokens) (textual : Textual c) :
    ∃ token, tokens.current = .ok token ∧ (nameLength c.ahead = 0 → token.position = c.place) := by
  obtain ⟨lexer, here, current⟩ := reads.lexed
  have marked := here.input.setMark
  rw [Lexer.next, here.context] at current
  dsimp only at current
  rw [marked.nameLength] at current
  dsimp only at current
  split at current
  · rename_i positive
    obtain ⟨name, valid⟩ := name_readable positive
    obtain ⟨token, lexer', given, -⟩ := Lexer.take_readable ⟨lexer.input.setMark, .tag⟩ .name marked valid
    rw [given] at current
    exact ⟨_, current, fun none => absurd none (Nat.ne_of_gt positive)⟩
  · obtain ⟨token, lexer', given, place, -⟩ := Lexer.inTag_readable ⟨lexer.input.setMark, .tag⟩ marked textual
    rw [given] at current
    exact ⟨token, current, fun _ => place⟩

end Reads
end XmlBinding
