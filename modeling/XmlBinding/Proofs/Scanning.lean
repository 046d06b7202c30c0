import XmlBinding.Proofs.Lookahead
import XmlBinding.Token.Lexer

/-! What the scans for single delimiters find when the input spells a text. Delimiters are ASCII, so a scan of
the bytes stops exactly where a scan of the characters would: text ends at the next tag, a section at its first
terminator and a quoted string at the first quote of its kind that no backslash escapes. -/
namespace XmlBinding.Scan
open Text

/-- The byte of an ASCII character. -/
def byteOf (c : Char) : UInt8 := UInt8.ofNat c.toNat

theorem byteOf_low {c : Char} (ascii : c.toNat < 0x80) : byteOf c < 0x80 := by
  simp only [byteOf, UInt8.lt_iff_toNat_lt, UInt8.toNat_ofNat', UInt8.reduceToNat]
  omega

theorem spelling_byteOf {c : Char} (ascii : c.toNat < 0x80) :
    String.utf8EncodeChar c = [byteOf c] := ascii_spelling ascii

theorem byteOf_inj {c d : Char} (ascii : c.toNat < 0x80) (ascii' : d.toNat < 0x80)
    (same : byteOf c = byteOf d) : c = d := by
  have alone : spell [c] = spell [d] := by
    rw [spell_cons, spell_cons, spelling_byteOf ascii, spelling_byteOf ascii', same]
  exact (List.cons.inj (spell_injective alone)).1

/-- An ASCII byte in the spelling of a character is all of that spelling. -/
theorem mem_spelling {c d : Char} (ascii : d.toNat < 0x80) (member : byteOf d ∈ String.utf8EncodeChar c) :
    c = d := by
  by_cases low : c.toNat < 0x80
  · rw [spelling_byteOf low, List.mem_singleton] at member
    exact (byteOf_inj ascii low member).symm
  · obtain ⟨lead, more, same, -, high, highs⟩ := wide_spelling (Nat.le_of_not_lt low)
    have small := byteOf_low ascii
    rw [same, List.mem_cons] at member
    rcases member with rfl | member
    · exact absurd small (by simpa using high)
    · exact absurd small (by simpa using highs _ member)

theorem mem_spell_iff {c : Char} {chars : List Char} (ascii : c.toNat < 0x80) :
    byteOf c ∈ spell chars ↔ c ∈ chars := by
  simp only [spell, List.mem_flatMap]
  constructor
  · rintro ⟨d, member, byte⟩
    rw [← mem_spelling ascii byte]
    exact member
  · intro member
    exact ⟨c, member, by rw [spelling_byteOf ascii, List.mem_singleton]⟩

/-- An ASCII byte at the end of a spelling is the last character. -/
theorem spell_eq_concat {chars : List Char} {c : Char} {before : List UInt8} (ascii : c.toNat < 0x80)
    (spelled : spell chars = before ++ [byteOf c]) :
    ∃ others, chars = others ++ [c] ∧ before = spell others := by
  rcases List.eq_nil_or_concat chars with rfl | ⟨others, d, rfl⟩
  · simp at spelled
  · rw [List.concat_eq_append] at spelled ⊢
    have ends : (spell [d]).getLast? = some (byteOf c) := by
      have last := congrArg List.getLast? spelled
      rw [spell_append, List.getLast?_append, List.getLast?_concat] at last
      cases own : (spell [d]).getLast? with
      | none =>
        rw [List.getLast?_eq_none_iff] at own
        simp [spell, String.utf8EncodeChar_ne_nil] at own
      | some b => simpa [own] using last
    have member : byteOf c ∈ String.utf8EncodeChar d := by
      simpa [spell] using List.mem_of_getLast? ends
    obtain rfl := mem_spelling ascii member
    rw [spell_append, spell_cons, spelling_byteOf ascii, spell_nil, List.append_nil] at spelled
    exact ⟨others, rfl, (List.append_inj_left' spelled rfl).symm⟩

theorem prefix_of_spell {needle chars : List Char} {after : List UInt8}
    (whole : spell needle ++ after = spell chars) : needle <+: chars := by
  rcases spell_comparable (whole.trans (List.append_nil _).symm) with ⟨more, rfl, -⟩ | ⟨more, rfl, none⟩
  · exact List.prefix_append needle more
  · cases more with
    | nil => simp
    | cons c more => simp [spell, String.utf8EncodeChar_ne_nil] at none

/-- An ASCII text occurs in the bytes of another only where it occurs in its characters. -/
theorem spell_infix_iff {needle chars : List Char} (some : needle ≠ [])
    (ascii : ∀ c ∈ needle, c.toNat < 0x80) : spell needle <:+: spell chars ↔ needle <:+: chars := by
  constructor
  · rintro ⟨before, after, whole⟩
    induction chars generalizing before with
    | nil =>
      cases needle with
      | nil => exact absurd rfl some
      | cons c needle => simp [spell, String.utf8EncodeChar_ne_nil] at whole
    | cons d chars ih =>
      rw [spell_cons, List.append_assoc] at whole
      rcases List.append_eq_append_iff.1 whole with ⟨rest, head, tail⟩ | ⟨rest, head, tail⟩
      · cases rest with
        | nil => exact (prefix_of_spell tail).isInfix.trans (List.suffix_cons d chars).isInfix
        | cons b rest =>
          cases needle with
          | nil => exact absurd rfl some
          | cons c needle =>
            have low := ascii c (by simp)
            rw [spell_cons, spelling_byteOf low] at tail
            obtain ⟨rfl, -⟩ := List.cons.inj tail
            -- The occurrence cannot begin inside a character, so it begins with this one.
            obtain rfl := mem_spelling (c := d) low (by rw [head]; simp)
            rw [spelling_byteOf low] at head
            have first : before = [] := by
              have lengths := congrArg List.length head
              simp only [List.length_append, List.length_cons, List.length_nil] at lengths
              exact List.eq_nil_of_length_eq_zero (by omega)
            rw [first, List.nil_append, ← spell_cons] at whole
            exact (prefix_of_spell whole).isInfix
      · exact (ih rest (by rw [List.append_assoc, tail])).trans (List.suffix_cons d chars).isInfix
  · rintro ⟨before, after, rfl⟩
    exact ⟨spell before, spell after, by simp⟩

/-- A needle that does not recur within itself is found at the end of the first bytes without it. -/
theorem indexOf?_terminator {init body : List UInt8} {last : UInt8} (unique : last ∉ init)
    (rest : List UInt8) :
    indexOf? (init ++ [last]) (body ++ ((init ++ [last]) ++ rest)) = some body.length ↔
      ¬ init ++ [last] <:+: body := by
  rw [indexOf?_eq_some_iff]
  constructor
  · rintro ⟨-, -, none⟩ ⟨before, after, rfl⟩
    refine none before.length (by simp only [List.length_append, List.length_cons]; omega) ?_
    simp
  · intro absent
    refine ⟨by simp, by simp, ?_⟩
    intro j before here
    have split := List.take_append_drop j body
    rw [List.drop_append_of_le_length (by omega)] at here
    have left : (body.drop j).length = body.length - j := List.length_drop
    by_cases fits : (init ++ [last]).length ≤ (body.drop j).length
    · have inside := List.prefix_of_prefix_length_le here (List.prefix_append _ _) fits
      exact absent (inside.isInfix.trans (List.drop_suffix j body).isInfix)
    · -- The needle would overlap the one that follows, so its last byte would come up too early.
      obtain ⟨tail, whole⟩ := here
      simp only [List.length_append, List.length_cons, List.length_nil] at fits
      rw [List.append_assoc, List.append_assoc] at whole
      have early : (init ++ ([last] ++ tail))[init.length]? = some last := by simp
      rw [whole, List.getElem?_append_right (by omega), List.getElem?_append_left (by omega)] at early
      exact unique (List.mem_of_getElem? early)

/-- Every terminator ends in its only closing bracket. -/
theorem terminator_spelled (sec : Section) :
    ∃ init, bytes sec.terminator = init ++ [0x3E] ∧ (0x3E : UInt8) ∉ init := by
  cases sec
  · exact ⟨[0x2D, 0x2D], rfl, by decide⟩
  · exact ⟨[0x5D, 0x5D], rfl, by decide⟩
  · exact ⟨[0x3F], rfl, by decide⟩
  · exact ⟨[0x3F], rfl, by decide⟩

theorem terminator_ascii (sec : Section) :
    sec.terminator.toList ≠ [] ∧ ∀ c ∈ sec.terminator.toList, c.toNat < 0x80 := by
  cases sec <;> simp [Section.terminator]

/-- The terminator of a section is found after the body if the body does not contain it. -/
theorem indexOf?_body (sec : Section) (body : String) (rest : List UInt8) :
    indexOf? (bytes sec.terminator) (bytes body ++ (bytes sec.terminator ++ rest)) =
        some (bytes body).length ↔ ¬ sec.terminator.toList <:+: body.toList := by
  obtain ⟨init, spelled, unique⟩ := terminator_spelled sec
  have ascii := terminator_ascii sec
  rw [← spell_infix_iff ascii.1 ascii.2, ← bytes_eq_spell, ← bytes_eq_spell, spelled]
  exact indexOf?_terminator unique rest

/-- What is found begins with the needle. -/
theorem indexOf?_split {needle input : List UInt8} {k : Nat} (found : indexOf? needle input = some k) :
    ∃ rest, input = input.take k ++ (needle ++ rest) ∧ (input.take k).length = k := by
  obtain ⟨bound, ⟨rest, here⟩, -⟩ := indexOf?_eq_some_iff.1 found
  exact ⟨rest, by rw [here, List.take_append_drop], List.length_take_of_le bound⟩

/-- Text goes on to the next opening bracket. -/
theorem textLength_whole (input : List UInt8) :
    textLength.whole input = (input.takeWhile (· != 0x3C)).length := by
  induction input with
  | nil => rfl
  | cons b rest ih =>
    simp only [textLength, indexOf?] at ih ⊢
    by_cases tag : b = 0x3C
    · simp [tag]
    · have same : ([0x3C] : List UInt8).isPrefixOf (b :: rest) = false := by
        simpa [List.isPrefixOf] using Ne.symm tag
      rw [if_neg (by simp [same]), List.takeWhile_cons, if_pos (by simpa using tag), List.length_cons,
        List.length_cons, ← ih]
      cases indexOf? [0x3C] rest <;> rfl

/-- A run of text without an opening bracket is measured whole if a tag or nothing follows it. -/
theorem textLength_spell {run : String} {rest : List UInt8} (plain : '<' ∉ run.toList)
    (ends : ∀ b more, rest = b :: more → b = 0x3C) :
    textLength.whole (bytes run ++ rest) = (bytes run).length := by
  rw [textLength_whole, List.takeWhile_append_of_pos]
  · cases rest with
    | nil => simp
    | cons b more => simp [ends b more rfl]
  · intro b member
    rw [bytes_eq_spell] at member
    simp only [bne_iff_ne, ne_eq]
    rintro rfl
    exact plain ((mem_spell_iff (c := '<') (by decide)).1 member)

/-- What is measured as text contains no opening bracket, and a tag or nothing follows it. -/
theorem textLength_split (input : List UInt8) :
    (0x3C : UInt8) ∉ input.take (textLength.whole input) ∧
      ∀ b more, input.drop (textLength.whole input) = b :: more → b = 0x3C := by
  rw [textLength_whole]
  have parts := List.takeWhile_append_dropWhile (p := (· != (0x3C : UInt8))) (l := input)
  have taken : input.take (input.takeWhile (· != 0x3C)).length = input.takeWhile (· != 0x3C) :=
    List.prefix_iff_eq_take.1 (List.takeWhile_prefix _) |>.symm
  have left : input.drop (input.takeWhile (· != 0x3C)).length = input.dropWhile (· != 0x3C) := by
    have split := congrArg (List.drop (input.takeWhile (· != 0x3C)).length) parts
    rw [List.drop_left] at split
    exact split.symm
  rw [taken, left]
  constructor
  · intro member
    have all := List.all_takeWhile (p := (· != (0x3C : UInt8))) (l := input)
    simpa using List.all_eq_true.1 all _ member
  · intro b more stop
    have head := List.head?_dropWhile_not (· != (0x3C : UInt8)) input
    rw [stop] at head
    simpa using head

/-- Space characters are measured up to the first other byte. -/
theorem spaces_spell {blank : List Char} {rest : List UInt8} (all : ∀ c ∈ blank, isSpace c = true)
    (ends : ∀ b more, rest = b :: more → isSpaceByte b = false) :
    spaces.whole (spell blank ++ rest) = (spell blank).length := by
  have high (c : Char) (space : isSpace c = true) : c.toNat < 0x80 ∧ isSpaceByte (byteOf c) = true := by
    simp only [isSpace, Bool.or_eq_true, beq_iff_eq] at space
    rcases space with ((rfl | rfl) | rfl) | rfl <;> decide
  change (List.takeWhile isSpaceByte _).length = _
  rw [List.takeWhile_append_of_pos]
  · cases rest with
    | nil => simp
    | cons b more => simp [ends b more rfl]
  · intro b member
    simp only [spell, List.mem_flatMap] at member
    obtain ⟨c, inside, byte⟩ := member
    obtain ⟨ascii, space⟩ := high c (all c inside)
    rw [spelling_byteOf ascii, List.mem_singleton] at byte
    rw [byte, space]

/-- What is measured as space spells space characters, and none follows it. -/
theorem spaces_split (input : List UInt8) :
    ∃ blank : List Char, (∀ c ∈ blank, isSpace c = true) ∧
      input = spell blank ++ input.drop (spaces.whole input) ∧
      spaces.whole input = (spell blank).length ∧
      ∀ b more, input.drop (spaces.whole input) = b :: more → isSpaceByte b = false := by
  induction input with
  | nil => exact ⟨[], by simp, rfl, rfl, by simp⟩
  | cons b rest ih =>
    by_cases space : isSpaceByte b = true
    · obtain ⟨blank, all, split, length, ends⟩ := ih
      have step : spaces.whole (b :: rest) = spaces.whole rest + 1 := by
        simp [spaces, space]
      have char : isSpace (Char.ofNat b.toNat) = true ∧
          String.utf8EncodeChar (Char.ofNat b.toNat) = [b] := by
        simp only [isSpaceByte, Bool.or_eq_true, beq_iff_eq] at space
        rcases space with ((rfl | rfl) | rfl) | rfl <;> decide
      refine ⟨Char.ofNat b.toNat :: blank, ?_, ?_, ?_, ?_⟩
      · simpa using ⟨char.1, all⟩
      · rw [step, spell_cons, char.2, List.drop_succ_cons, List.cons_append, List.nil_append,
          List.cons_append, ← split]
      · rw [step, spell_cons, char.2, length]
        simp
      · rw [step, List.drop_succ_cons]
        exact ends
    · have none : spaces.whole (b :: rest) = 0 := by
        simp [spaces, space]
      refine ⟨[], by simp, by rw [none]; rfl, none, ?_⟩
      rw [none]
      rintro c more same
      obtain ⟨rfl, -⟩ := List.cons.inj same
      simpa using space

/-- What may stand between two quotes of a kind: no such quote, unless a backslash takes it along. -/
inductive Quotable (quote : Char) : List Char → Prop where
  | nil : Quotable quote []
  | plain (other : c ≠ quote) (unescaped : c ≠ '\\') (more : Quotable quote rest) :
      Quotable quote (c :: rest)
  | escape (more : Quotable quote rest) : Quotable quote ('\\' :: c :: rest)

theorem closingQuote?_pass {quote : UInt8} {passed : List UInt8}
    (plain : ∀ b ∈ passed, b ≠ quote ∧ b ≠ 0x5C) (rest : List UInt8) :
    closingQuote? quote (passed ++ rest) = (closingQuote? quote rest).map (· + passed.length) := by
  induction passed with
  | nil => simp
  | cons b passed ih =>
    obtain ⟨other, unescaped⟩ := plain b (by simp)
    rw [List.cons_append, closingQuote?_plain other unescaped,
      ih fun c member => plain c (List.mem_cons_of_mem b member), Option.map_map]
    rfl

section Quotes
variable {quote : Char} (kind : quote = '"' ∨ quote = '\'')
include kind

private theorem quote_ascii : quote.toNat < 0x80 := by
  rcases kind with rfl | rfl <;> decide

private theorem quote_not_escape : (0x5C : UInt8) ≠ byteOf quote := by
  rcases kind with rfl | rfl <;> decide

/-- A character that is neither the quote nor a backslash is passed over. -/
theorem closingQuote?_char {c : Char} (other : c ≠ quote) (unescaped : c ≠ '\\') (rest : List UInt8) :
    closingQuote? (byteOf quote) (String.utf8EncodeChar c ++ rest) =
      (closingQuote? (byteOf quote) rest).map (· + (String.utf8EncodeChar c).length) := by
  apply closingQuote?_pass
  intro b member
  constructor
  · rintro rfl
    exact other (mem_spelling (quote_ascii kind) member)
  · rintro rfl
    exact unescaped (mem_spelling (d := '\\') (by decide) member)

/-- A backslash takes the whole next character along, although only its first byte is skipped. -/
theorem closingQuote?_taken (c : Char) (rest : List UInt8) :
    closingQuote? (byteOf quote) (spell ['\\', c] ++ rest) =
      (closingQuote? (byteOf quote) rest).map (· + (spell ['\\', c]).length) := by
  have small := byteOf_low (quote_ascii kind)
  by_cases ascii : c.toNat < 0x80
  · rw [spell_cons, spell_cons, spelling_byteOf ascii, spelling_byteOf (c := '\\') (by decide)]
    exact closingQuote?_escape (quote_not_escape kind) (byteOf c) rest
  · obtain ⟨lead, more, same, -, -, highs⟩ := wide_spelling (Nat.le_of_not_lt ascii)
    have plain : ∀ b ∈ more, b ≠ byteOf quote ∧ b ≠ 0x5C := by
      intro b member
      have high := highs b member
      constructor
      · rintro rfl
        exact absurd small (by simpa using high)
      · rintro rfl
        exact absurd high (by decide)
    rw [spell_cons, spell_cons, same, spelling_byteOf (c := '\\') (by decide)]
    change closingQuote? _ (0x5C :: lead :: (more ++ [] ++ rest)) = _
    rw [closingQuote?_escape (quote_not_escape kind), List.append_nil, closingQuote?_pass plain,
      Option.map_map]
    congr 1
    funext n
    simp
    omega

private theorem quotable_of_found (rest : List UInt8) : ∀ inside : List Char,
    closingQuote? (byteOf quote) (spell inside ++ byteOf quote :: rest) = some (spell inside).length →
      Quotable quote inside
  | [], _ => .nil
  | c :: inside, found => by
    by_cases closes : c = quote
    · rw [closes, spell_cons, spelling_byteOf (quote_ascii kind), List.append_assoc] at found
      simp [closingQuote?_here] at found
    by_cases escape : c = '\\'
    · subst escape
      cases inside with
      | nil =>
        change closingQuote? _ (0x5C :: byteOf quote :: rest) = some 1 at found
        simp [closingQuote?_escape (quote_not_escape kind)] at found
      | cons d inside =>
        have split : spell ('\\' :: d :: inside) = spell ['\\', d] ++ spell inside := by
          rw [← spell_append]
          rfl
        rw [split, List.append_assoc, closingQuote?_taken kind, Option.map_eq_some_iff] at found
        obtain ⟨k, inner, length⟩ := found
        refine .escape (quotable_of_found rest inside ?_)
        rw [inner]
        simp only [List.length_append] at length
        congr 1
        omega
    · rw [spell_cons, List.append_assoc, closingQuote?_char kind closes escape, Option.map_eq_some_iff] at found
      obtain ⟨k, inner, length⟩ := found
      refine .plain closes escape (quotable_of_found rest inside ?_)
      rw [inner]
      simp only [List.length_append] at length
      congr 1
      omega

/-- The closing quote is found behind exactly what may stand between the two. -/
theorem closingQuote?_spell (inside : List Char) (rest : List UInt8) :
    closingQuote? (byteOf quote) (spell inside ++ byteOf quote :: rest) = some (spell inside).length ↔
      Quotable quote inside := by
  constructor
  · exact quotable_of_found kind rest inside
  · intro quotable
    induction quotable with
    | nil => exact closingQuote?_here _ rest
    | plain other unescaped _ ih =>
      rw [spell_cons, List.append_assoc, closingQuote?_char kind other unescaped, ih, List.length_append,
        Nat.add_comm]
      rfl
    | @escape inside c _ ih =>
      have split : spell ('\\' :: c :: inside) = spell ['\\', c] ++ spell inside := by
        rw [← spell_append]
        rfl
      rw [split, List.append_assoc, closingQuote?_taken kind, ih, List.length_append, Nat.add_comm]
      rfl

end Quotes

/-- A closing quote that is found ends the string at itself. -/
theorem closingQuote?_split {quote : UInt8} {input : List UInt8} {k : Nat}
    (found : closingQuote? quote input = some k) :
    ∃ rest, input = input.take k ++ quote :: rest ∧ (input.take k).length = k := by
  fun_induction closingQuote? quote input generalizing k with
  | case1 => cases found
  | case2 b rest closes =>
    cases found
    rw [beq_iff_eq] at closes
    exact ⟨rest, by rw [closes]; rfl, rfl⟩
  | case3 => cases found
  | case4 b other escape next rest ih =>
    obtain ⟨k, inner, rfl⟩ := Option.map_eq_some_iff.1 found
    obtain ⟨after, split, length⟩ := ih inner
    refine ⟨after, ?_, ?_⟩
    · simpa using split
    · simpa using length
  | case5 b rest other plain ih =>
    obtain ⟨k, inner, rfl⟩ := Option.map_eq_some_iff.1 found
    obtain ⟨after, split, length⟩ := ih inner
    refine ⟨after, ?_, ?_⟩
    · simpa using split
    · simpa using length

end XmlBinding.Scan
