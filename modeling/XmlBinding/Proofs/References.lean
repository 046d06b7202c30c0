import Mathlib.Data.Nat.Digits.Defs
import XmlBinding.Proofs.Escaping

/-! What resolving references comes to. A reference is recognised by its own characters alone, and a text is read from
left to right: a reference gives its character, anything else is copied. No reference begins within another, so what
stands around one is read as if it stood by itself; and no ampersand begins within a character, so the same reading of
the bytes never cuts a character apart. -/
namespace XmlBinding.Text
open Scan

/-- A digit of a base with its value, letters in either case. -/
def IsDigit (base : Nat) (c : Char) (value : Nat) : Prop :=
  value < base ∧ (c = value.digitChar ∨ c = value.digitChar.toUpper)

instance : Decidable (IsDigit base c value) := inferInstanceAs (Decidable (_ ∧ _))

/-- One or more digits, and nothing else, that write a number in a base. -/
inductive Numeral (base : Nat) (digits : List Char) : Nat → Prop where
  | intro (some : digits ≠ []) (each : List.Forall₂ (IsDigit base) digits values) :
      Numeral base digits (Nat.ofDigits base values.reverse)

/-- What may stand between the ampersand and the semicolon of a reference, with the character that it stands for. -/
inductive StandsFor : List Char → Char → Prop where
  | lt : StandsFor "lt".toList '<'
  | gt : StandsFor "gt".toList '>'
  | amp : StandsFor "amp".toList '&'
  | quot : StandsFor "quot".toList '"'
  | apos : StandsFor "apos".toList '\''
  | decimal (written : Numeral 10 digits c.toNat) (nonzero : c ≠ '\x00') : StandsFor ('#' :: digits) c
  | hexadecimal (written : Numeral 16 digits c.toNat) (nonzero : c ≠ '\x00') : StandsFor ('#' :: 'x' :: digits) c

/-- A reference that is recognised, from its ampersand to the first semicolon. -/
inductive IsReference : List Char → Char → Prop where
  | intro (stands : StandsFor body c) (closed : ';' ∉ body) (alone : '&' ∉ body)
      (short : (spell ('&' :: (body ++ [';']))).length ≤ maxReference) : IsReference ('&' :: (body ++ [';'])) c

/-- A reading from left to right of what is written in some units, its characters or its bytes: where a reference
stands its character is read, and everywhere else one unit is copied. -/
inductive Resolves (written : List Char → List α) : List α → List α → Prop where
  | done : Resolves written [] []
  | reference (recognised : IsReference reference c) (more : Resolves written rest result) :
      Resolves written (written reference ++ rest) (written [c] ++ result)
  | copy (none : ∀ reference c, IsReference reference c → ¬ written reference <+: unit :: rest)
      (more : Resolves written rest result) : Resolves written (unit :: rest) (unit :: result)

theorem digitValue?_low (read : digitValue? c = some value) : c.toNat < 0x67 := by
  simp only [digitValue?, Char.le_def, UInt32.le_iff_toNat_le] at read
  change c.val.toNat < 0x67
  split at read
  · rename_i range
    exact Nat.lt_of_le_of_lt range.2 (by decide)
  · split at read
    · rename_i range
      exact Nat.lt_of_le_of_lt range.2 (by decide)
    · split at read
      · rename_i range
        exact Nat.lt_of_le_of_lt range.2 (by decide)
      · cases read

theorem digitValue?_eq_some_iff : digitValue? c = some value ↔ IsDigit 16 c value := by
  constructor
  · intro read
    have all : ∀ code < 0x67, ∀ value ∈ digitValue? (Char.ofNat code), IsDigit 16 (Char.ofNat code) value := by
      decide
    rw [← Char.ofNat_toNat c] at read ⊢
    exact all _ (digitValue?_low (by rwa [Char.ofNat_toNat] at read)) value read
  · have all : ∀ value < 16, digitValue? value.digitChar = some value ∧
        digitValue? value.digitChar.toUpper = some value := by
      decide
    rintro ⟨inside, rfl | rfl⟩
    · exact (all value inside).1
    · exact (all value inside).2

theorem IsDigit.read (digit : IsDigit base c value) (small : base ≤ 16) : digitValue? c = some value :=
  digitValue?_eq_some_iff.2 ⟨Nat.lt_of_lt_of_le digit.1 small, digit.2⟩

theorem IsDigit.plain (digit : IsDigit base c value) (small : base ≤ 16) :
    c.toNat < 0x80 ∧ c ≠ ';' ∧ c ≠ '&' := by
  have read := digit.read small
  have low := digitValue?_low read
  refine ⟨by omega, ?_, ?_⟩ <;>
  · rintro rfl
    cases read

theorem digitsFrom?_eq_some_iff (small : base ≤ 16) {value n : Nat} {digits : List Char} :
    digitsFrom? base value digits = some n ↔ ∃ values, List.Forall₂ (IsDigit base) digits values ∧
      n = Nat.ofDigits base (values.reverse ++ [value]) := by
  have carry (values : List Nat) (value first : Nat) :
      Nat.ofDigits base (values.reverse ++ [value * base + first]) =
        Nat.ofDigits base ((first :: values).reverse ++ [value]) := by
    rw [List.reverse_cons, List.append_assoc, Nat.ofDigits_append, Nat.ofDigits_append, Nat.ofDigits_singleton,
      List.singleton_append, Nat.ofDigits_cons, Nat.ofDigits_singleton, Nat.add_comm first, Nat.mul_comm base value]
  induction digits generalizing value with
  | nil =>
    rw [digitsFrom?, Option.some.injEq, eq_comm]
    constructor
    · rintro rfl
      exact ⟨[], .nil, Nat.ofDigits_singleton.symm⟩
    · rintro ⟨_, ⟨⟩, same⟩
      exact same.trans Nat.ofDigits_singleton
  | cons c digits ih =>
    rw [digitsFrom?]
    constructor
    · intro read
      split at read
      · rename_i first found
        split at read
        · rename_i inside
          obtain ⟨values, each, rfl⟩ := ih.1 read
          exact ⟨first :: values, .cons ⟨inside, (digitValue?_eq_some_iff.1 found).2⟩ each, carry values value first⟩
        · cases read
      · cases read
    · rintro ⟨_, _ | ⟨digit, each⟩, rfl⟩
      rename_i first values
      rw [digit.read small]
      exact (if_pos digit.1).trans (ih.2 ⟨values, each, (carry values value first).symm⟩)

theorem number?_eq_some_iff (small : base ≤ 16) {digits : List Char} :
    number? base digits = some n ↔ Numeral base digits n := by
  have start (values : List Nat) : Nat.ofDigits base (values.reverse ++ [0]) = Nat.ofDigits base values.reverse := by
    rw [Nat.ofDigits_append, Nat.ofDigits_singleton, Nat.mul_zero, Nat.add_zero]
  cases digits with
  | nil =>
    constructor
    · exact nofun
    · rintro ⟨some, -⟩
      exact absurd rfl some
  | cons c digits =>
    rw [number?, digitsFrom?_eq_some_iff small]
    · constructor
      · rintro ⟨values, each, rfl⟩
        rw [start]
        exact .intro (List.cons_ne_nil c digits) each
      · rintro ⟨-, each⟩
        exact ⟨_, each, (start _).symm⟩
    · exact nofun

theorem Numeral.digit (numeral : Numeral base digits n) (member : d ∈ digits) : ∃ value, IsDigit base d value := by
  obtain ⟨-, each⟩ := numeral
  induction each with
  | nil => cases member
  | cons digit each ih =>
    rcases List.mem_cons.1 member with rfl | member
    · exact ⟨_, digit⟩
    · exact ih member

theorem charOfCode?_eq_some_iff : charOfCode? code = some c ↔ c.toNat = code ∧ c ≠ '\x00' := by
  rw [charOfCode?, Option.ite_none_right_eq_some, Option.some.injEq]
  constructor
  · rintro ⟨⟨nonzero, valid⟩, rfl⟩
    have same : (Char.ofNat code).toNat = code := by rw [Char.ofNat, dif_pos valid]; rfl
    refine ⟨same, fun zero => nonzero ?_⟩
    rw [← same, zero]
    rfl
  · rintro ⟨rfl, nonzero⟩
    exact ⟨⟨fun zero => nonzero (Char.toNat_inj.1 zero), c.valid⟩, Char.ofNat_toNat c⟩

/-! References. -/

theorem referent?_eq_some_iff {body : List Char} : referent? body = some c ↔ StandsFor body c := by
  constructor
  · intro read
    unfold referent? at read
    split at read
    case h_6 digits =>
      obtain ⟨code, number, char⟩ := Option.bind_eq_some_iff.1 read
      obtain ⟨rfl, nonzero⟩ := charOfCode?_eq_some_iff.1 char
      exact .hexadecimal ((number?_eq_some_iff (by decide)).1 number) nonzero
    case h_7 digits other =>
      obtain ⟨code, number, char⟩ := Option.bind_eq_some_iff.1 read
      obtain ⟨rfl, nonzero⟩ := charOfCode?_eq_some_iff.1 char
      exact .decimal ((number?_eq_some_iff (by decide)).1 number) nonzero
    case h_8 => cases read
    all_goals cases read; constructor
  · rintro (_ | _ | _ | _ | _ | ⟨written, nonzero⟩ | ⟨written, nonzero⟩)
    case decimal digits =>
      rw [referent?, (number?_eq_some_iff (by decide)).2 written]
      · exact charOfCode?_eq_some_iff.2 ⟨rfl, nonzero⟩
      · rintro more rfl
        obtain ⟨value, digit⟩ := written.digit (List.mem_cons_self ..)
        cases digit.read (by decide)
    case hexadecimal digits =>
      rw [referent?, (number?_eq_some_iff (by decide)).2 written]
      exact charOfCode?_eq_some_iff.2 ⟨rfl, nonzero⟩
    all_goals rfl

theorem StandsFor.plain (stands : StandsFor body c) (member : d ∈ body) :
    d.toNat < 0x80 ∧ d ≠ ';' ∧ d ≠ '&' := by
  cases stands with
  | decimal written nonzero =>
    rcases List.mem_cons.1 member with rfl | member
    · decide
    · obtain ⟨value, digit⟩ := written.digit member
      exact digit.plain (by decide)
  | hexadecimal written nonzero =>
    rcases List.mem_cons.1 member with rfl | member
    · decide
    rcases List.mem_cons.1 member with rfl | member
    · decide
    · obtain ⟨value, digit⟩ := written.digit member
      exact digit.plain (by decide)
  | lt | gt | amp | quot | apos =>
    refine of_decide_eq_true ((List.all_eq_true (p := fun d => d.toNat < 0x80 ∧ d ≠ ';' ∧ d ≠ '&')).1 ?_ d member)
    decide

theorem spell_ascii {chars : List Char} (ascii : ∀ c ∈ chars, c.toNat < 0x80) : spell chars = chars.map byteOf := by
  induction chars with
  | nil => rfl
  | cons c chars ih =>
    obtain ⟨low, ascii⟩ := List.forall_mem_cons.1 ascii
    rw [spell_cons, spelling_byteOf low, ih ascii]
    rfl

/-- What stands for a character is ASCII, so a reference has as many bytes as characters. -/
theorem StandsFor.length (stands : StandsFor body c) :
    (spell ('&' :: (body ++ [';']))).length = body.length + 2 := by
  have ascii : ∀ d ∈ '&' :: (body ++ [';']), d.toNat < 0x80 := by
    intro d member
    rcases List.mem_cons.1 member with rfl | member
    · decide
    rcases List.mem_append.1 member with member | member
    · exact (stands.plain member).1
    · obtain rfl := List.mem_singleton.1 member
      decide
  rw [spell_ascii ascii, List.length_map, List.length_cons, List.length_append]
  rfl

theorem StandsFor.isReference (stands : StandsFor body c) (short : body.length < maxReference - 1) :
    IsReference ('&' :: (body ++ [';'])) c := by
  refine .intro stands (fun member => (stands.plain member).2.1 rfl) (fun member => (stands.plain member).2.2 rfl) ?_
  rw [stands.length]
  omega

theorem IsReference.resolved (recognised : IsReference reference c) (rest : List Char) :
    ∃ length, (∃ more, reference ++ rest = '&' :: more ∧ reference? more = some (c, length)) ∧
      unescapeFrom 0 (reference ++ rest) = c :: unescapeFrom 0 rest := by
  obtain ⟨stands, closed, alone, short⟩ := recognised
  rename_i body
  rw [stands.length] at short
  have stands' := referent?_eq_some_iff.2 stands
  have few : body.length < maxReference - 1 := by omega
  rw [List.cons_append, List.append_assoc, List.singleton_append]
  refine ⟨body.length + 1, ⟨_, rfl, ?_⟩, unescapeFrom_reference body stands' few closed rest⟩
  rw [reference?_body few closed, stands']
  rfl

/-- What is looked up and resolved is a reference. -/
theorem reference?_sound (found : reference? rest = some (c, length)) :
    ∃ body more, rest = body ++ ';' :: more ∧ length = body.length + 1 ∧ IsReference ('&' :: (body ++ [';'])) c := by
  rw [reference?, Option.ite_none_right_eq_some, Option.map_eq_some_iff] at found
  obtain ⟨closes, c, stands, ⟨⟩⟩ := found
  have parts := List.takeWhile_append_dropWhile (p := (· != ';')) (l := rest.take (maxReference - 1))
  have stops := List.head?_dropWhile_not (· != ';') (rest.take (maxReference - 1))
  generalize (rest.take (maxReference - 1)).takeWhile (· != ';') = body at *
  cases behind : (rest.take (maxReference - 1)).dropWhile (· != ';') with
  | nil =>
    rw [behind, List.append_nil] at parts
    exact absurd (congrArg List.length parts) (by omega)
  | cons d more =>
    rw [behind] at parts stops
    obtain rfl : d = ';' := by simpa using stops
    have short : body.length < maxReference - 1 := by
      have most := List.length_take_le (maxReference - 1) rest
      omega
    refine ⟨body, more ++ rest.drop (maxReference - 1), ?_, rfl,
      (referent?_eq_some_iff.1 stands).isReference short⟩
    rw [← List.cons_append, ← List.append_assoc, parts, List.take_append_drop]

/-! Readings of characters. -/

theorem unescapeFrom_resolves (chars : List Char) : Resolves id chars (unescapeFrom 0 chars) := by
  induction size : chars.length using Nat.strong_induction_on generalizing chars with
  | _ size ih =>
    subst size
    cases chars with
    | nil => exact .done
    | cons d rest =>
      by_cases ampersand : d = '&'
      · subst ampersand
        cases found : reference? rest with
        | some pair =>
          obtain ⟨c, length⟩ := pair
          obtain ⟨body, more, rfl, rfl, recognised⟩ := reference?_sound found
          have shape : '&' :: (body ++ ';' :: more) = '&' :: (body ++ [';']) ++ more := by simp
          obtain ⟨-, -, resolved⟩ := recognised.resolved more
          rw [shape, resolved]
          exact .reference recognised (ih more.length (by simp; omega) more rfl)
        | none =>
          have copied : unescapeFrom 0 ('&' :: rest) = '&' :: unescapeFrom 0 rest := by rw [unescapeFrom, found]
          rw [copied]
          refine .copy ?_ (ih rest.length (Nat.lt_succ_self _) rest rfl)
          rintro reference c recognised ⟨tail, whole⟩
          obtain ⟨length, ⟨more, same, some⟩, -⟩ := recognised.resolved tail
          cases whole.symm.trans same
          rw [found] at some
          cases some
      · rw [unescapeFrom_plain ampersand]
        refine .copy ?_ (ih rest.length (Nat.lt_succ_self _) rest rfl)
        rintro reference c recognised ⟨tail, whole⟩
        obtain ⟨length, ⟨more, same, -⟩, -⟩ := recognised.resolved tail
        cases whole.symm.trans same
        exact ampersand rfl

/-- No reference begins within another. -/
theorem IsReference.free (recognised : IsReference (d :: inside) c) : '&' ∉ inside := by
  obtain ⟨-, -, alone, -⟩ := recognised
  simpa using alone

/-- A reference that begins in front of an ampersand also ends there. -/
theorem IsReference.before (recognised : IsReference entity c) (here : entity <+: d :: front ++ '&' :: rest) :
    entity <+: d :: front := by
  rcases List.prefix_or_prefix_of_prefix here (List.prefix_append (d :: front) ('&' :: rest)) with
    sooner | ⟨tail, rfl⟩
  · exact sooner
  · cases tail with
    | nil => simp
    | cons e tail =>
      rw [List.prefix_append_right_inj, List.cons_prefix_cons] at here
      obtain ⟨rfl, -⟩ := here
      exact absurd (List.mem_append_right front List.mem_cons_self) recognised.free

/-- Around a reference, what stands on its two sides is read as if it stood by itself. -/
theorem Resolves.around (recognised : IsReference entity c) (left : Resolves id before before')
    (right : Resolves id after after') : Resolves id (before ++ (entity ++ after)) (before' ++ c :: after') := by
  induction left with
  | done =>
    have read : Resolves id (id entity ++ after) (id [c] ++ after') := .reference recognised right
    exact read
  | reference first more ih =>
    rw [List.append_assoc, List.append_assoc]
    exact .reference first ih
  | @copy d front front' none more ih =>
    refine .copy ?_ ih
    rintro other e first here
    obtain ⟨stands, closed, alone, short⟩ := recognised
    exact none other e first (first.before here)

/-- Of two references at the same place one does not go on behind the other. -/
theorem IsReference.unique (first : IsReference entity c) (second : IsReference entity' c')
    (same : entity ++ rest = entity' ++ rest') : entity = entity' ∧ c = c' := by
  obtain ⟨stands, closed, -, -⟩ := first
  obtain ⟨stands', closed', -, -⟩ := second
  rename_i body body'
  have bodies : body = body' := by
    have ends (body : List Char) (closed : ';' ∉ body) (rest : List Char) :
        (body ++ ';' :: rest).takeWhile (· != ';') = body := by
      rw [List.takeWhile_append_of_pos fun c member => by simpa using ne_of_mem_of_not_mem member closed]
      simp
    have insides : body ++ ';' :: rest = body' ++ ';' :: rest' := by simpa using same
    rw [← ends body closed rest, insides, ends body' closed' rest']
  subst bodies
  have stands := referent?_eq_some_iff.2 stands
  rw [referent?_eq_some_iff.2 stands'] at stands
  cases stands
  exact ⟨rfl, rfl⟩

/-- Where texts can be told apart by how they are written, a text can be read in one way only. -/
theorem Resolves.unique {written : List Char → List α} (some : ∀ c rest, written (c :: rest) ≠ [])
    (comparable : ∀ {a b x y}, written a ++ x = written b ++ y → a <+: b ∨ b <+: a)
    (first : Resolves written text result) (second : Resolves written text result') : result = result' := by
  have alone {entity entity' : List Char} {c c' : Char} {rest rest' : List α} (recognised : IsReference entity c)
      (recognised' : IsReference entity' c') (same : written entity ++ rest = written entity' ++ rest') :
      entity = entity' ∧ c = c' := by
    rcases comparable same with ⟨more, whole⟩ | ⟨more, whole⟩
    · exact recognised.unique recognised' (whole.trans (List.append_nil _).symm)
    · exact recognised.unique recognised' ((List.append_nil _).trans whole.symm)
  induction first generalizing result' with
  | done =>
    generalize ended : [] = text at second
    cases second with
    | done => rfl
    | reference recognised more =>
      obtain ⟨stands, closed, alone, short⟩ := recognised
      exact absurd (List.append_eq_nil_iff.1 ended.symm).1 (some _ _)
    | copy none more => cases ended
  | @reference entity c rest result recognised more ih =>
    generalize same : written entity ++ rest = text at second
    cases second with
    | done =>
      obtain ⟨stands, closed, alone, short⟩ := recognised
      exact absurd (List.append_eq_nil_iff.1 same).1 (some _ _)
    | reference recognised' more' =>
      obtain ⟨rfl, rfl⟩ := alone recognised recognised' same
      rw [ih (List.append_cancel_left same ▸ more')]
    | copy none more' => exact absurd ⟨_, same⟩ (none _ _ recognised)
  | @copy unit rest result none more ih =>
    generalize same : unit :: rest = text at second
    cases second with
    | done => cases same
    | reference recognised' more' => exact absurd ⟨_, same.symm⟩ (none _ _ recognised')
    | copy none' more' =>
      cases same
      rw [ih more']

/-! Readings of bytes. -/

/-- Bytes among which there is no ampersand are copied. -/
theorem Resolves.copies {run : List UInt8} (free : byteOf '&' ∉ run) (more : Resolves spell rest result) :
    Resolves spell (run ++ rest) (run ++ result) := by
  induction run with
  | nil => exact more
  | cons b run ih =>
    refine .copy ?_ (ih (List.not_mem_of_not_mem_cons free))
    rintro entity c recognised ⟨tail, whole⟩
    obtain ⟨stands, closed, alone, short⟩ := recognised
    rw [spell_cons, spelling_byteOf (by decide)] at whole
    exact List.ne_of_not_mem_cons free (List.cons.inj whole).1

/-- Reading the bytes gives the bytes of what reading the characters gives. -/
theorem Resolves.spelled (read : Resolves id chars result) : Resolves spell (spell chars) (spell result) := by
  induction read with
  | done => exact .done
  | reference recognised more ih =>
    rw [id, id, spell_append, spell_append]
    exact .reference recognised ih
  | @copy d rest result none more ih =>
    rw [spell_cons, spell_cons]
    by_cases ampersand : d = '&'
    · subst ampersand
      rw [spelling_byteOf (by decide)]
      refine .copy ?_ ih
      rintro entity c recognised ⟨tail, whole⟩
      have here : spell entity ++ tail = spell ('&' :: rest) := by
        rw [whole, spell_cons, spelling_byteOf (by decide)]
        rfl
      exact none entity c recognised (prefix_of_spell here)
    · exact .copies (fun member => ampersand (mem_spelling (by decide) member)) ih

end XmlBinding.Text

namespace XmlBinding
open Text

/-- Resolving references reads a text from left to right, its bytes as well as its characters: a reference that is
recognised becomes the character it stands for, and everything else is copied. A reference is read on its own, whatever
stands before and behind it. -/
theorem unescape_resolves :
    (∀ text result : String, unescape text = result ↔ Resolves id text.toList result.toList) ∧
      (∀ text result : String, unescape text = result ↔ Resolves spell (bytes text) (bytes result)) ∧
      ∀ (before entity after : String) (c : Char), IsReference entity.toList c →
        unescape (before ++ entity ++ after) = unescape before ++ String.singleton c ++ unescape after := by
  have chars (text : String) : Resolves id text.toList (unescape text).toList := by
    rw [unescape, String.toList_ofList]
    exact unescapeFrom_resolves text.toList
  have byChars {text result : String} (read : Resolves id text.toList result.toList) : unescape text = result := by
    apply String.toList_injective
    refine (chars text).unique (fun c rest => List.cons_ne_nil c rest) (fun same => ?_) read
    exact List.prefix_or_prefix_of_prefix ⟨_, same⟩ ⟨_, rfl⟩
  have spelled (text : String) : Resolves spell (bytes text) (bytes (unescape text)) := by
    rw [bytes_eq_spell, bytes_eq_spell]
    exact (chars text).spelled
  refine ⟨fun text result => ⟨?_, byChars⟩, fun text result => ⟨?_, fun read => ?_⟩, ?_⟩
  · rintro rfl
    exact chars text
  · rintro rfl
    exact spelled text
  · apply bytes_injective
    refine (spelled text).unique (fun c rest => ?_) (fun same => ?_) read
    · simp [spell_cons, String.utf8EncodeChar_ne_nil]
    · rcases spell_comparable same with ⟨more, rfl, -⟩ | ⟨more, rfl, -⟩
      · exact .inl (List.prefix_append _ more)
      · exact .inr (List.prefix_append _ more)
  · intro before entity after c recognised
    apply byChars
    have read := (chars before).around recognised (chars after)
    simpa using read

/-- A reference between two that are broken off, the first of which lacks just the semicolon. -/
theorem unescape_resolves_between :
    IsReference "&#x3C;".toList '<' ∧ unescape "&#65&#x3C;&lt" = "&#65<&lt" := by
  have recognised : IsReference "&#x3C;".toList '<' :=
    (referent?_eq_some_iff.1 rfl : StandsFor "#x3C".toList '<').isReference (by decide)
  have before : unescape "&#65" = "&#65" := by decide +kernel
  have after : unescape "&lt" = "&lt" := by decide +kernel
  have read := unescape_resolves.2.2 "&#65" "&#x3C;" "&lt" '<' recognised
  rw [before, after] at read
  exact ⟨recognised, read⟩

end XmlBinding
