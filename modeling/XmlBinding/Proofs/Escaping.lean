import XmlBinding.Markup.Writer
import XmlBinding.Proofs.Scanning

/-! Texts that are written and read back. References resolve to the characters that they stand for, and backslashes
are taken apart as they were put together; so an attribute value, character data and CDATA each come back as they
were, and none of them contains what would end it early. -/
namespace XmlBinding.Text

/-- The characters of a reference already resolved are passed over. -/
theorem unescapeFrom_passed (passed rest : List Char) :
    unescapeFrom passed.length (passed ++ rest) = unescapeFrom 0 rest := by
  induction passed with
  | nil => rfl
  | cons c passed ih => exact ih

theorem unescapeFrom_plain {c : Char} (plain : c ≠ '&') (rest : List Char) :
    unescapeFrom 0 (c :: rest) = c :: unescapeFrom 0 rest := by
  rw [unescapeFrom]
  simpa using plain

theorem reference?_body {body : List Char} (short : body.length < maxReference - 1) (closed : ';' ∉ body)
    (rest : List Char) : reference? (body ++ ';' :: rest) = (referent? body).map fun c => (c, body.length + 1) := by
  have near : (body ++ ';' :: rest).take (maxReference - 1) =
    body ++ ';' :: rest.take (maxReference - 2 - body.length) := by
    rw [List.take_append, List.take_of_length_le (by omega)]
    obtain ⟨n, room⟩ : ∃ n, maxReference - 1 - body.length = n + 1 := ⟨maxReference - 2 - body.length, by omega⟩
    rw [room, List.take_succ_cons, show n = maxReference - 2 - body.length by omega]
  have inside : (body ++ ';' :: rest.take (maxReference - 2 - body.length)).takeWhile (· != ';') = body := by
    rw [List.takeWhile_append_of_pos]
    · simp
    · intro c member
      simpa using ne_of_mem_of_not_mem member closed
  rw [reference?, near, inside, if_pos (by simp)]

/-- A reference resolves to the character that it stands for. -/
theorem unescapeFrom_reference {c : Char} (body : List Char) (stands : referent? body = some c)
    (short : body.length < maxReference - 1) (closed : ';' ∉ body) (rest : List Char) :
    unescapeFrom 0 ('&' :: (body ++ ';' :: rest)) = c :: unescapeFrom 0 rest := by
  rw [unescapeFrom, reference?_body short closed, stands]
  have passed := unescapeFrom_passed (body ++ [';']) rest
  rw [List.length_append, List.append_assoc] at passed
  exact congrArg (c :: ·) passed

theorem unescapeFrom_escapeChar (c : Char) (rest : List Char) :
    unescapeFrom 0 (escapeChar c ++ rest) = c :: unescapeFrom 0 rest := by
  unfold escapeChar
  split
  · exact unescapeFrom_reference ['a', 'm', 'p'] rfl (by decide) (by decide) rest
  · exact unescapeFrom_reference ['l', 't'] rfl (by decide) (by decide) rest
  · exact unescapeFrom_reference ['g', 't'] rfl (by decide) (by decide) rest
  · exact unescapeFrom_reference ['q', 'u', 'o', 't'] rfl (by decide) (by decide) rest
  · exact unescapeFrom_reference ['a', 'p', 'o', 's'] rfl (by decide) (by decide) rest
  · rename_i other _ _ _ _
    exact unescapeFrom_plain other rest

theorem unescapeFrom_escapeChars (chars rest : List Char) :
    unescapeFrom 0 (escapeChars chars ++ rest) = chars ++ unescapeFrom 0 rest := by
  induction chars with
  | nil => rfl
  | cons c chars ih =>
    rw [escapeChars, List.flatMap_cons, List.append_assoc, unescapeFrom_escapeChar]
    exact congrArg (c :: ·) ih

/-- Every character that text may not contain literally is escaped. -/
theorem mem_escapeChar {c d : Char} (member : d ∈ escapeChar c) : d ≠ '<' ∧ d ≠ '"' ∧ d ≠ '\'' := by
  unfold escapeChar at member
  split at member
  · revert d; simp
  · revert d; simp
  · revert d; simp
  · revert d; simp
  · revert d; simp
  · rename_i notAmp notLt notGt notQuot notApos
    rw [List.mem_singleton] at member
    subst member
    exact ⟨notLt, notQuot, notApos⟩

theorem mem_escapeChars {chars : List Char} {d : Char} (member : d ∈ escapeChars chars) :
    d ≠ '<' ∧ d ≠ '"' ∧ d ≠ '\'' := by
  obtain ⟨c, -, member⟩ := List.mem_flatMap.1 member
  exact mem_escapeChar member

/-- An escaped character begins with one that no backslash can take along, unless it is one that a backslash could
take along before it was escaped; and nothing in it is a backslash unless it is one. -/
theorem escapeChar_cons (c : Char) : ∃ first more, escapeChar c = first :: more ∧
    (escaped? c = none → escaped? first = none) ∧ (c ≠ '\\' → first ≠ '\\') ∧ '\\' ∉ more := by
  unfold escapeChar
  split
  · exact ⟨_, _, rfl, fun _ => rfl, fun _ => by decide, by decide⟩
  · exact ⟨_, _, rfl, fun _ => rfl, fun _ => by decide, by decide⟩
  · exact ⟨_, _, rfl, fun _ => rfl, fun _ => by decide, by decide⟩
  · exact ⟨_, _, rfl, fun _ => rfl, fun _ => by decide, by decide⟩
  · exact ⟨_, _, rfl, fun _ => rfl, fun _ => by decide, by decide⟩
  · exact ⟨c, [], rfl, id, id, List.not_mem_nil⟩

theorem protect_plain {c : Char} (other : c ≠ '\\') (rest : List Char) : protect (c :: rest) = c :: protect rest := by
  rw [protect]
  exact other

theorem unprotect_plain {plain : List Char} (free : '\\' ∉ plain) (rest : List Char) :
    unprotect (plain ++ rest) = plain ++ unprotect rest := by
  induction plain with
  | nil => rfl
  | cons c plain ih =>
    have other := List.ne_of_not_mem_cons free
    rw [List.cons_append, unprotect, ih (List.not_mem_of_not_mem_cons free)]
    · rfl
    · intro d more same
      exact absurd same.symm other

theorem quotable_plain {quote : Char} {plain rest : List Char} (free : ∀ c ∈ plain, c ≠ quote ∧ c ≠ '\\')
    (more : Scan.Quotable quote rest) : Scan.Quotable quote (plain ++ rest) := by
  induction plain with
  | nil => exact more
  | cons c plain ih =>
    obtain ⟨⟨other, unescaped⟩, free⟩ := List.forall_mem_cons.1 free
    exact .plain other unescaped (ih free)

theorem quotable_tail {quote c : Char} {rest : List Char} (quotable : Scan.Quotable quote (c :: rest))
    (other : c ≠ '\\') :
    Scan.Quotable quote rest := by
  cases quotable with
  | plain _ _ more => exact more
  | escape => exact absurd rfl other

/-- What is written for an attribute value may stand between quotes, and without its backslashes it is the value with
its named characters escaped. -/
structure Written (quote : Char) (chars : List Char) : Prop where
  quotable : Scan.Quotable quote (escapeChars (protect chars))
  resolved : unprotect (escapeChars (protect chars)) = escapeChars chars

theorem Written.plain {quote c : Char} {rest : List Char} (kind : quote = '"' ∨ quote = '\'') (other : c ≠ '\\')
    (written : Written quote rest) : Written quote (c :: rest) := by
  have plain : ∀ d ∈ escapeChar c, d ≠ quote ∧ d ≠ '\\' := by
    intro d member
    obtain ⟨first, more, split, -, first_ne, free⟩ := escapeChar_cons c
    constructor
    · rcases kind with rfl | rfl
      · exact (mem_escapeChar member).2.1
      · exact (mem_escapeChar member).2.2
    · rw [split] at member
      rcases List.mem_cons.1 member with rfl | member
      · exact first_ne other
      · exact ne_of_mem_of_not_mem member free
  have shape : escapeChars (protect (c :: rest)) = escapeChar c ++ escapeChars (protect rest) := by
    rw [protect_plain other]
    rfl
  constructor
  · rw [shape]
    exact quotable_plain plain written.quotable
  · rw [shape, unprotect_plain fun member => (plain _ member).2 rfl, written.resolved]
    rfl

/-- A backslash that takes nothing along stays single. -/
theorem Written.lone {quote d : Char} {rest : List Char} (unknown : escaped? d = none)
    (written : Written quote (d :: rest)) :
    Scan.Quotable quote (escapeChars ('\\' :: protect (d :: rest))) ∧
      unprotect (escapeChars ('\\' :: protect (d :: rest))) = escapeChars ('\\' :: d :: rest) := by
  have notBackslash : d ≠ '\\' := by
    rintro rfl
    cases unknown
  obtain ⟨first, more, split, unknown', other, -⟩ := escapeChar_cons d
  have shape : escapeChars (protect (d :: rest)) = first :: (more ++ escapeChars (protect rest)) := by
    rw [protect_plain notBackslash, escapeChars, List.flatMap_cons, split]
    rfl
  obtain ⟨quotable, resolved⟩ := written
  rw [shape] at quotable resolved
  have whole : escapeChars ('\\' :: protect (d :: rest)) =
      '\\' :: first :: (more ++ escapeChars (protect rest)) := congrArg ('\\' :: ·) shape
  rw [whole]
  constructor
  · exact .escape (quotable_tail quotable (other notBackslash))
  · rw [unprotect, unknown' unknown]
    rw [unprotect] at resolved
    · exact (congrArg ('\\' :: ·) resolved)
    · exact fun d more same => absurd same (other notBackslash)

theorem protect_written {quote : Char} (kind : quote = '"' ∨ quote = '\'')
    (chars : List Char) : Written quote chars := by
  induction chars with
  | nil => exact ⟨.nil, rfl⟩
  | cons c rest ih =>
    by_cases backslash : c = '\\'
    · subst backslash
      suffices both : Scan.Quotable quote (escapeChars (protect ('\\' :: rest))) ∧
          unprotect (escapeChars (protect ('\\' :: rest))) = escapeChars ('\\' :: rest) from ⟨both.1, both.2⟩
      rw [protect]
      split
      · exact ⟨.escape ih.quotable, congrArg ('\\' :: ·) ih.resolved⟩
      · rename_i lone
        cases rest with
        | nil => exact absurd rfl lone
        | cons d rest => exact ih.lone (by simpa using lone)
    · exact ih.plain kind backslash

/-- Attribute values come back as they were written. -/
theorem decodeAttribute_attributeValue (value : String) : decodeAttribute (attributeValue value) = value := by
  have resolved := (protect_written (.inl rfl) value.toList).resolved
  have back := unescapeFrom_escapeChars value.toList []
  rw [List.append_nil] at back
  rw [decodeAttribute, attributeValue, String.toList_ofList, resolved, unescapeChars, back]
  simp [unescapeFrom]

/-- No space stands at either end. -/
structure Trimmed (chars : List Char) : Prop where
  first : ∀ c, chars.head? = some c → isSpace c = false
  last : ∀ c, chars.getLast? = some c → isSpace c = false

namespace Trimmed

theorem nil : Trimmed [] := ⟨by simp, by simp⟩

theorem append {a b : List Char} (first : Trimmed a) (second : Trimmed b) : Trimmed (a ++ b) where
  first c found := by
    rw [List.head?_append] at found
    cases head : a.head? with
    | none => exact second.first c (by simpa [head] using found)
    | some d => exact first.first c (by simpa [head] using found)
  last c found := by
    rw [List.getLast?_append] at found
    cases last : b.getLast? with
    | none => exact first.last c (by simpa [last] using found)
    | some d => exact second.last c (by simpa [last] using found)

theorem flatMap {f : Char → List Char} {chars : List Char} (each : ∀ c ∈ chars, Trimmed (f c)) :
    Trimmed (chars.flatMap f) := by
  induction chars with
  | nil => exact nil
  | cons c chars ih =>
    obtain ⟨first, rest⟩ := List.forall_mem_cons.1 each
    exact first.append (ih rest)

end Trimmed

/-- Characters that are trimmed at the end are split into what is kept and the spaces behind it. -/
theorem trimEnd_split (chars : List Char) :
    trimEnd isSpace chars ++ chars.drop (trimEnd isSpace chars).length = chars ∧
    (∀ c ∈ chars.drop (trimEnd isSpace chars).length, isSpace c = true) ∧
    ∀ c, (trimEnd isSpace chars).getLast? = some c → isSpace c = false := by
  have split : trimEnd isSpace chars ++ (chars.reverse.takeWhile isSpace).reverse = chars := by
    rw [trimEnd, ← List.reverse_append, List.takeWhile_append_dropWhile, List.reverse_reverse]
  have behind : chars.drop (trimEnd isSpace chars).length = (chars.reverse.takeWhile isSpace).reverse := by
    conv => lhs; arg 2; rw [← split]
    exact List.drop_left
  refine ⟨by rw [behind, split], ?_, ?_⟩
  · rw [behind]
    intro c member
    exact List.all_eq_true.1 List.all_takeWhile c (List.mem_reverse.1 member)
  · intro c found
    rw [trimEnd, List.getLast?_reverse] at found
    have stops := List.head?_dropWhile_not isSpace chars.reverse
    rw [found] at stops
    simpa using stops

/-- Spaces around characters without spaces at their ends are trimmed, and nothing else. -/
theorem trimChars_padded {before chars after : List Char} (front : ∀ c ∈ before, isSpace c = true)
    (trimmed : Trimmed chars) (behind : ∀ c ∈ after, isSpace c = true) :
    trimChars isSpace (before ++ chars ++ after) = chars := by
  rw [trimChars, List.append_assoc, List.dropWhile_append_of_pos front]
  cases chars with
  | nil =>
    have gone : (after ++ []).dropWhile isSpace = [] := List.dropWhile_append_of_pos behind
    rw [List.append_nil] at gone
    rw [List.nil_append, gone]
    rfl
  | cons c rest =>
    rw [List.cons_append, List.dropWhile_cons_of_neg (by simpa using trimmed.first c rfl), ← List.cons_append,
      trimEnd, List.reverse_append, List.dropWhile_append_of_pos (by simpa using behind)]
    cases reversed : (c :: rest).reverse with
    | nil => simp at reversed
    | cons d more =>
      have last : (c :: rest).getLast? = some d := by rw [← List.head?_reverse, reversed]; rfl
      rw [List.dropWhile_cons_of_neg (by simpa using trimmed.last d last), ← reversed, List.reverse_reverse]

theorem spaceReference_eq {c : Char} (space : isSpace c = true) : ∃ body, spaceReference c = '&' :: (body ++ [';']) ∧
    referent? body = some c ∧ body.length < maxReference - 1 ∧ ';' ∉ body ∧ '<' ∉ body := by
  simp only [isSpace, Bool.or_eq_true, beq_iff_eq] at space
  rcases space with ((rfl | rfl) | rfl) | rfl
  · exact ⟨['#', '3', '2'], rfl, rfl, by decide, by decide, by decide⟩
  · exact ⟨['#', '9'], rfl, rfl, by decide, by decide, by decide⟩
  · exact ⟨['#', '1', '0'], rfl, rfl, by decide, by decide, by decide⟩
  · exact ⟨['#', '1', '3'], rfl, rfl, by decide, by decide, by decide⟩

theorem unescapeFrom_spaces {blank : List Char} (all : ∀ c ∈ blank, isSpace c = true) (rest : List Char) :
    unescapeFrom 0 (blank.flatMap spaceReference ++ rest) = blank ++ unescapeFrom 0 rest := by
  induction blank with
  | nil => rfl
  | cons c blank ih =>
    obtain ⟨space, all⟩ := List.forall_mem_cons.1 all
    obtain ⟨body, written, stands, short, closed, -⟩ := spaceReference_eq space
    rw [List.flatMap_cons, written, List.append_assoc, List.cons_append, List.append_assoc,
      List.singleton_append, unescapeFrom_reference body stands short closed, ih all]
    rfl

/-- Character data is written in three parts, of which the outer two stand for the spaces at the ends. -/
theorem characterDataChars_eq (chars : List Char) : ∃ before body after, chars = before ++ body ++ after ∧
    (∀ c ∈ before, isSpace c = true) ∧ Trimmed body ∧ (∀ c ∈ after, isSpace c = true) ∧
    characterDataChars chars = before.flatMap spaceReference ++ escapeChars body ++ after.flatMap spaceReference := by
  obtain ⟨split, behind, last⟩ := trimEnd_split (chars.dropWhile isSpace)
  refine ⟨chars.takeWhile isSpace, trimEnd isSpace (chars.dropWhile isSpace), _, ?_, ?_, ⟨?_, last⟩, behind, rfl⟩
  · rw [List.append_assoc, split, List.takeWhile_append_dropWhile]
  · exact fun c member => List.all_eq_true.1 List.all_takeWhile c member
  · intro c found
    have stops := List.head?_dropWhile_not isSpace chars
    rw [← split, List.head?_append, found] at stops
    simpa using stops

theorem escapeChar_trimmed {c : Char} (other : isSpace c = false) : Trimmed (escapeChar c) := by
  unfold escapeChar
  split
  case h_6 => exact ⟨by rintro d ⟨⟩; exact other, by rintro d ⟨⟩; exact other⟩
  all_goals exact ⟨by rintro d ⟨⟩; rfl, by rintro d ⟨⟩; rfl⟩

theorem escapeChar_ne_nil (c : Char) : escapeChar c ≠ [] := by
  obtain ⟨first, more, split, -⟩ := escapeChar_cons c
  rw [split]
  exact List.cons_ne_nil _ _

theorem escapeChars_trimmed {chars : List Char} (trimmed : Trimmed chars) : Trimmed (escapeChars chars) where
  first d found := by
    cases chars with
    | nil => cases found
    | cons c rest =>
      obtain ⟨head, more, split⟩ := List.exists_cons_of_ne_nil (escapeChar_ne_nil c)
      rw [escapeChars, List.flatMap_cons, split, List.cons_append, List.head?_cons, ← List.head?_cons,
        ← split] at found
      exact (escapeChar_trimmed (trimmed.first c rfl)).first d found
  last d found := by
    rcases List.eq_nil_or_concat chars with rfl | ⟨rest, c, rfl⟩
    · cases found
    · rw [List.concat_eq_append] at trimmed found
      obtain ⟨last, some⟩ := Option.isSome_iff_exists.1 (List.getLast?_isSome.2 (escapeChar_ne_nil c))
      rw [escapeChars, List.flatMap_append, List.flatMap_singleton, List.getLast?_append, some, Option.some_or,
        ← some] at found
      exact (escapeChar_trimmed (trimmed.last c List.getLast?_concat)).last d found

theorem spaceReferences_trimmed {blank : List Char} (all : ∀ c ∈ blank, isSpace c = true) :
    Trimmed (blank.flatMap spaceReference) := by
  apply Trimmed.flatMap
  intro c member
  obtain ⟨body, written, -⟩ := spaceReference_eq (all c member)
  rw [written]
  constructor
  · rintro d ⟨⟩
    rfl
  · intro d found
    rw [← List.cons_append, List.getLast?_concat] at found
    cases found
    rfl

/-- Written character data has no spaces at its ends, and no opening bracket. -/
theorem characterDataChars_trimmed (chars : List Char) : Trimmed (characterDataChars chars) := by
  obtain ⟨before, body, after, -, front, trimmed, behind, written⟩ := characterDataChars_eq chars
  rw [written]
  exact ((spaceReferences_trimmed front).append (escapeChars_trimmed trimmed)).append (spaceReferences_trimmed behind)

theorem characterData_plain (text : String) : '<' ∉ (characterData text).toList := by
  obtain ⟨before, body, after, -, front, -, behind, written⟩ := characterDataChars_eq text.toList
  have plain {blank : List Char} (all : ∀ c ∈ blank, isSpace c = true) : '<' ∉ blank.flatMap spaceReference := by
    intro member
    obtain ⟨c, inside, member⟩ := List.mem_flatMap.1 member
    obtain ⟨body, written, -, -, -, free⟩ := spaceReference_eq (all c inside)
    rw [written] at member
    simp [free] at member
  rw [characterData, String.toList_ofList, written]
  intro member
  rcases List.mem_append.1 member with member | member
  · rcases List.mem_append.1 member with member | member
    · exact plain front member
    · exact (mem_escapeChars member).1 rfl
  · exact plain behind member

/-- Text comes back as it was written, whatever spaces stand around it. -/
theorem unescape_characterData {text before after : String} (front : ∀ c ∈ before.toList, isSpace c = true)
    (behind : ∀ c ∈ after.toList, isSpace c = true) :
    unescape (trimSpace (before ++ characterData text ++ after)) = text := by
  obtain ⟨first, body, last, split, front', -, behind', written⟩ := characterDataChars_eq text.toList
  have trimmed := trimChars_padded front (characterDataChars_trimmed text.toList) behind
  rw [trimSpace, String.toList_append, String.toList_append, characterData, String.toList_ofList, trimmed, unescape,
    String.toList_ofList, unescapeChars, written, List.append_assoc, unescapeFrom_spaces front',
    unescapeFrom_escapeChars, ← List.append_nil (last.flatMap spaceReference), unescapeFrom_spaces behind',
    unescapeFrom, List.append_nil, ← List.append_assoc, ← split, String.ofList_toList]

/-- Resolving references leaves no text empty. -/
theorem unescape_eq_empty_iff {text : String} : unescape text = "" ↔ text = "" := by
  constructor
  · intro empty
    have chars := congrArg String.toList empty
    rw [unescape, String.toList_ofList, unescapeChars] at chars
    cases split : text.toList with
    | nil => exact String.toList_inj.1 split
    | cons c rest =>
      rw [split] at chars
      by_cases ampersand : c = '&'
      · subst ampersand
        rw [unescapeFrom] at chars
        split at chars <;> cases chars
      · rw [unescapeFrom_plain ampersand] at chars
        cases chars
  · rintro rfl
    rfl

end XmlBinding.Text

namespace XmlBinding

/-- CDATA is written as bodies of sections that together hold the text, none of which contains a terminator. -/
theorem splitCData_eq (chars : List Char) : ∃ first more, first ++ more.flatten = chars ∧
    splitCData chars = first ++ more.flatMap (Section.cdata.terminator.toList ++ Section.cdata.opening.toList ++ ·) ∧
    ∀ body ∈ first :: more, ¬ Section.cdata.terminator.toList <:+: body := by
  have terminator : Section.cdata.terminator.toList = [']', ']', '>'] := rfl
  induction chars using splitCData.induct with
  | case1 rest ih =>
    obtain ⟨first, more, whole, written, free⟩ := ih
    obtain ⟨none, free⟩ := List.forall_mem_cons.1 free
    refine ⟨[']', ']'], ('>' :: first) :: more, by simp [← whole], ?_, ?_⟩
    · rw [splitCData, written]
      rfl
    · refine List.forall_mem_cons.2 ⟨by decide, List.forall_mem_cons.2 ⟨?_, free⟩⟩
      rw [List.infix_cons_iff, terminator]
      rintro (⟨tail, same⟩ | inside)
      · cases same
      · exact none inside
  | case2 c rest other ih =>
    obtain ⟨first, more, whole, written, free⟩ := ih
    obtain ⟨none, free⟩ := List.forall_mem_cons.1 free
    refine ⟨c :: first, more, congrArg (c :: ·) whole, ?_, List.forall_mem_cons.2 ⟨?_, free⟩⟩
    · rw [splitCData, written]
      · rfl
      · exact other
    · rw [List.infix_cons_iff, terminator]
      rintro (⟨tail, same⟩ | inside)
      · -- A terminator at the beginning would have been taken apart.
        obtain ⟨begins, same⟩ := List.cons.inj same
        refine other (tail ++ more.flatten) begins.symm ?_
        rw [← whole, ← same]
        rfl
      · exact none inside
  | case3 => exact ⟨[], [], rfl, rfl, by simp [terminator]⟩

end XmlBinding
