import XmlBinding.Proofs.Delivery
import XmlBinding.Proofs.Escaping
import XmlBinding.Proofs.Lexing

/-! Attribute values between their quotes. What is written for a value stands in a tag as one quoted string: the scan
for its end, which takes a byte along with every backslash, stops at the quote that was put behind it and nowhere
before, whatever follows, and what stands between the quotes decodes to the value. -/
namespace XmlBinding
open Text Grammar

namespace Text

/-- A value as it stands in a tag, in its written form between two quotes. -/
def inQuotes (value : String) : String := "\"" ++ attributeValue value ++ "\""

theorem inQuotes_eq (value : String) :
    inQuotes value = String.ofList ('"' :: (attributeValue value).toList ++ ['"']) := by
  apply String.toList_injective
  simp [inQuotes]

theorem length_inQuotes (value : String) :
    (bytes (inQuotes value)).length = (bytes (attributeValue value)).length + 2 := by
  have quote : (bytes "\"").length = 1 := rfl
  rw [inQuotes, bytes_append, bytes_append, List.length_append, List.length_append, quote]
  omega

theorem unquote_inQuotes (value : String) : unquote (inQuotes value) = attributeValue value := by
  rw [inQuotes_eq, unquote_quoted (.inl rfl)]

/-- Wherever it stands, a written value is a quoted string of the grammar. -/
theorem inQuotes_quoted (spelled : Spells c (inQuotes value) d) : Quoted c (attributeValue value) d := by
  have quotable := (protect_written (.inl rfl) value.toList).quotable
  rw [inQuotes_eq] at spelled
  exact .intro '"' (.inl rfl) (by rwa [attributeValue, String.toList_ofList]) spelled

/-- The closing quote of a written value is found where it was put. -/
theorem quotedLength?_inQuotes (value : String) (rest : List UInt8) :
    Scan.quotedLength? (bytes (inQuotes value) ++ rest) = some (bytes (inQuotes value)).length := by
  have spelled : Spells (.start (bytes (inQuotes value) ++ rest)) (inQuotes value) _ := .ofAhead rfl
  obtain ⟨_, _, raw, -, -, -, spelled', found⟩ := (inQuotes_quoted spelled).measured
  have same := Nat.add_right_cancel (spelled'.length.symm.trans spelled.length)
  rw [same] at found
  exact found

end Text

namespace Stream

/-- Whatever a source has still to deliver, a scan is answered for all of it. -/
theorem answer_whole {scan : Scan α} (settled : scan.Settled) (ending : Ending) (reads : List Read) (s : Stream)
    (dealt : scan.Dealt done s.ahead) :
    (answer scan ending reads done s).1 = scan.whole (s.ahead ++ reads.flatMap Read.content) := by
  induction reads generalizing s done with
  | nil =>
    unfold answer
    split
    · rename_i result answered
      exact (settled.final s.ahead _ result (settled.look dealt answered)).symm
    · rw [List.flatMap_nil, List.append_nil]
  | cons read later ih =>
    have received : (s.compact.receive read).ahead = s.ahead ++ read.content := by
      rw [receive, (compact_fields s).2.1]
    unfold answer
    split
    · rename_i result answered
      exact (settled.final s.ahead _ result (settled.look dealt answered)).symm
    · rename_i further stopped
      rw [ih _ (received ▸ dealt.later stopped), received, List.flatMap_cons, List.append_assoc]

theorem run_rest {scan : Scan α} (settled : scan.Settled) (s : Stream) : (s.run scan).1 = scan.whole s.rest := by
  unfold run rest
  split
  · rename_i exhausted
    rw [exhausted, Option.elim_none, List.append_nil]
    cases early : scan.early s.ahead with
    | none => rfl
    | some result => simpa using (settled.final s.ahead [] result early).symm
  · rename_i source waiting
    rw [waiting]
    exact answer_whole settled source.ending source.reads s .start

end Stream

/-- A value comes back from its written form. Between quotes that form is measured up to the closing quote, whatever
follows it and however it arrives, and in a tag it is one token, which holds the value. -/
theorem attributeValue_survives (value : String) (rest : List UInt8) :
    decodeAttribute (attributeValue value) = value ∧
      (∀ s : Stream, s.rest = bytes (inQuotes value) ++ rest →
        (s.run .quotedLength).1 = some ((bytes (attributeValue value)).length + 2)) ∧
      ∀ (lexer : Lexer) (c : Cursor), lexer.At .tag c → c.ahead = bytes (inQuotes value) ++ rest →
        ∃ lexer', lexer.next = (.ok ⟨.string, inQuotes value, c.place⟩, lexer') ∧ lexer'.input.ahead = rest ∧
          decodeAttribute (unquote (inQuotes value)) = value := by
  refine ⟨decodeAttribute_attributeValue value, fun s ahead => ?_, fun lexer c here ahead => ?_⟩
  · have measured (input : List UInt8) : Scan.quotedLength.whole input = Scan.quotedLength? input := rfl
    rw [Stream.run_rest Scan.quotedLength_settled, ahead, measured, quotedLength?_inQuotes, length_inQuotes]
  · have spelled : Spells c (inQuotes value) (c.past (bytes (inQuotes value)).length) := .ofAhead ahead
    have lexes : Lexes .tag c ⟨.string, inQuotes value, c.place⟩ .tag (c.past (bytes (inQuotes value)).length) := by
      refine .tag (.refl c) (.string spelled ?_)
      rw [unquote_inQuotes]
      exact inQuotes_quoted spelled
    obtain ⟨lexer', given, there⟩ := Lexer.next_complete here lexes
    refine ⟨lexer', given, ?_, ?_⟩
    · rw [there.input.ahead, Cursor.past, ahead, List.drop_left]
    · rw [unquote_inQuotes, decodeAttribute_attributeValue]

/-- A value that ends with a backslash and has both kinds of escapes in it, arriving a byte at a time with another
quote behind it. -/
theorem attributeValue_survives_piecewise :
    ((Stream.ofSource (.inPieces 0 true (bytes (inQuotes "\\n\"&\\") ++ bytes " y=\"\"") .endOfInput)).run
      .quotedLength).1 = some 18 ∧ decodeAttribute (unquote (inQuotes "\\n\"&\\")) = "\\n\"&\\" := by
  have survives := attributeValue_survives "\\n\"&\\" (bytes " y=\"\"")
  obtain ⟨lexer', -, -, back⟩ := survives.2.2
    { input := .ofBytes (bytes (inQuotes "\\n\"&\\") ++ bytes " y=\"\""), context := .tag }
    (.start _) ⟨rfl, .ofBytes _⟩ rfl
  have length : (bytes (attributeValue "\\n\"&\\")).length + 2 = 18 := by decide +kernel
  have scanned := survives.2.1
    (.ofSource (.inPieces 0 true (bytes (inQuotes "\\n\"&\\") ++ bytes " y=\"\"") .endOfInput)) (by decide +kernel)
  rw [length] at scanned
  exact ⟨scanned, back⟩

end XmlBinding
