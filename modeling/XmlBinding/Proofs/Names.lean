import XmlBinding.Proofs.Spelling
import XmlBinding.Text.Name

/-! Names character by character. The scan of a name works on bytes and asks for whole characters only outside
ASCII; it measures exactly the longest stretch of characters that is a name in the sense defined here. -/
namespace XmlBinding.Text

/-- The characters that may begin a name. -/
def NameStart (c : Char) : Prop :=
  ('A' ≤ c ∧ c ≤ 'Z') ∨ ('a' ≤ c ∧ c ≤ 'z') ∨ c = '_' ∨ c = ':' ∨ (0x80 ≤ c.toNat ∧ isAlphabetic c = true)

/-- The characters that may go on with a name. -/
def NameChar (c : Char) : Prop :=
  NameStart c ∨ ('0' ≤ c ∧ c ≤ '9') ∨ c = '.' ∨ c = '-'

/-- A name: one character that begins it and any number that go on. -/
inductive IsName : List Char → Prop where
  | intro (begins : NameStart first) (goesOn : ∀ c ∈ more, NameChar c) : IsName (first :: more)

/-- Some bytes begin with a character that would make a name before them longer. -/
def GoesOn (rest : List UInt8) : Prop :=
  ∃ c more, NameChar c ∧ rest = String.utf8EncodeChar c ++ more

/-- What a character must be at the beginning of a name, or later in it. -/
def Fits (first : Bool) (c : Char) : Prop :=
  if first then NameStart c else NameChar c

theorem startsName_iff {c : Char} (ascii : c.toNat < 0x80) :
    startsName (UInt8.ofNat c.toNat) = true ↔ NameStart c := by
  have value : (UInt8.ofNat c.toNat).toNat = c.toNat := by
    rw [UInt8.toNat_ofNat']
    omega
  have code (d : Char) : c = d ↔ c.toNat = d.toNat := Char.toNat_inj.symm
  simp only [startsName, NameStart, Bool.or_eq_true, Bool.and_eq_true, decide_eq_true_eq, beq_iff_eq,
    UInt8.le_iff_toNat_le, ← UInt8.toNat_inj, value, Char.le_def, UInt32.le_iff_toNat_le, code]
  change _ ↔ (0x41 ≤ c.toNat ∧ c.toNat ≤ 0x5A) ∨ (0x61 ≤ c.toNat ∧ c.toNat ≤ 0x7A) ∨ c.toNat = 0x5F ∨
    c.toNat = 0x3A ∨ _
  simp only [UInt8.reduceToNat]
  omega

theorem continuesName_iff {c : Char} (ascii : c.toNat < 0x80) :
    continuesName (UInt8.ofNat c.toNat) = true ↔ NameChar c := by
  have value : (UInt8.ofNat c.toNat).toNat = c.toNat := by
    rw [UInt8.toNat_ofNat']
    omega
  have code (d : Char) : c = d ↔ c.toNat = d.toNat := Char.toNat_inj.symm
  simp only [continuesName, NameChar, Bool.or_eq_true, Bool.and_eq_true, decide_eq_true_eq, beq_iff_eq,
    startsName_iff ascii, UInt8.le_iff_toNat_le, ← UInt8.toNat_inj, value, Char.le_def,
    UInt32.le_iff_toNat_le, code]
  change _ ↔ _ ∨ (0x30 ≤ c.toNat ∧ c.toNat ≤ 0x39) ∨ c.toNat = 0x2E ∨ c.toNat = 0x2D
  simp only [UInt8.reduceToNat, or_assoc]

theorem fits_ascii_iff {first : Bool} {c : Char} (ascii : c.toNat < 0x80) :
    (if first then startsName (UInt8.ofNat c.toNat) else continuesName (UInt8.ofNat c.toNat)) = true ↔
      Fits first c := by
  cases first
  · exact continuesName_iff ascii
  · exact startsName_iff ascii

/-- Outside ASCII a character may stand anywhere in a name if it is alphabetic, and nowhere otherwise. -/
theorem fits_wide_iff {first : Bool} {c : Char} (wide : 0x80 ≤ c.toNat) :
    Fits first c ↔ isAlphabetic c = true := by
  have above (d : Char) (low : d.toNat < 0x80) : ¬ c ≤ d := by
    rw [Char.le_def, UInt32.le_iff_toNat_le]
    change ¬ c.toNat ≤ d.toNat
    omega
  have other (d : Char) (low : d.toNat < 0x80) : c ≠ d := by
    rintro rfl
    omega
  have start : NameStart c ↔ isAlphabetic c = true := by
    simp [NameStart, above 'Z' (by decide), above 'z' (by decide), other '_' (by decide),
      other ':' (by decide), wide]
  cases first
  · simp [Fits, NameChar, start, above '9' (by decide), other '.' (by decide), other '-' (by decide)]
  · simp [Fits, start]

/-- The scan at a byte outside ASCII. -/
theorem nameExtent_wide {b : UInt8} (wide : ¬ b < 0x80) (first : Bool) (rest : List UInt8) :
    nameExtent first 0 (b :: rest) =
      if leadWidth b = 0 then (0, false)
      else if rest.length + 1 < leadWidth b then (0, true)
      else if spellsLetter ((b :: rest).take (leadWidth b)) then
        ((nameExtent false (leadWidth b - 1) rest).1 + 1, (nameExtent false (leadWidth b - 1) rest).2)
      else (0, false) := by
  have short : min (leadWidth b) (rest.length + 1) < leadWidth b ↔ rest.length + 1 < leadWidth b := by
    omega
  simp only [nameExtent, wide, ↓reduceIte, List.length_take, List.length_cons, short]

/-- The bytes of a character already accepted are passed over, whatever they are. -/
theorem nameExtent_owed (first : Bool) (passed rest : List UInt8) :
    nameExtent first passed.length (passed ++ rest) =
      ((nameExtent first 0 rest).1 + passed.length, (nameExtent first 0 rest).2) := by
  induction passed with
  | nil => rfl
  | cons b passed ih =>
    simp only [List.length_cons, List.cons_append, nameExtent, ih]
    rfl

theorem spellsLetter_spelling (c : Char) :
    spellsLetter (String.utf8EncodeChar c) = isAlphabetic c := by
  have read : ofBytes? (String.utf8EncodeChar c) = some (String.ofList [c]) := by
    rw [ofBytes?_eq_some_iff, bytes_ofList, spell_cons, spell_nil, List.append_nil]
  simp [spellsLetter, read]

/-- The bytes that a leading byte announces spell a letter only if they are one character. -/
theorem letter_of_spells {b : UInt8} {rest : List UInt8}
    (letter : spellsLetter ((b :: rest).take (leadWidth b)) = true) :
    ∃ c more, isAlphabetic c = true ∧ b :: rest = String.utf8EncodeChar c ++ more := by
  unfold spellsLetter at letter
  split at letter
  · rename_i text read
    rw [ofBytes?_eq_some_iff, bytes_eq_spell] at read
    cases chars : text.toList with
    | nil => simp [chars] at letter
    | cons c others =>
      rw [chars, spell_cons] at read
      simp only [chars, List.head?_cons, Option.any_some] at letter
      refine ⟨c, spell others ++ (b :: rest).drop (leadWidth b), letter, ?_⟩
      rw [← List.append_assoc, read, List.take_append_drop]
  · cases letter

/-- The characters of a stretch fit, the first of them where the scan begins. -/
def FitsAll (first : Bool) : List Char → Prop
  | [] => True
  | c :: more => Fits first c ∧ ∀ d ∈ more, Fits false d

theorem fitsAll_false {chars : List Char} : FitsAll false chars ↔ ∀ c ∈ chars, Fits false c := by
  cases chars <;> simp [FitsAll]

/-- The scan measures a stretch of characters that fit, after which none that fits follows. -/
def Measured (first : Bool) (input : List UInt8) : Prop :=
  ∃ chars rest, input = spell chars ++ rest ∧ (nameExtent first 0 input).1 = (spell chars).length ∧
    FitsAll first chars ∧ ∀ c more, rest = String.utf8EncodeChar c ++ more → ¬ Fits (first && chars.isEmpty) c

namespace Measured

/-- The scan ends where no character that fits is spelled. -/
theorem stop {first : Bool} {input : List UInt8} (none : (nameExtent first 0 input).1 = 0)
    (refused : ∀ c more, input = String.utf8EncodeChar c ++ more → ¬ Fits first c) : Measured first input :=
  ⟨[], input, rfl, none, trivial, by simpa using refused⟩

theorem ascii (first : Bool) {b : UInt8} {rest : List UInt8} (low : b < 0x80) (later : Measured false rest) :
    Measured first (b :: rest) := by
  obtain ⟨value, spelling⟩ := ascii_char_of_byte low
  have lowValue : (Char.ofNat b.toNat).toNat < 0x80 := by
    rw [value]
    simpa [UInt8.lt_iff_toNat_lt] using low
  have fits : _ ↔ Fits first _ := fits_ascii_iff lowValue
  rw [value, UInt8.ofNat_toNat] at fits
  by_cases allowed : Fits first (Char.ofNat b.toNat)
  · obtain ⟨chars, rest', split, length, all, ended⟩ := later
    refine ⟨Char.ofNat b.toNat :: chars, rest', ?_, ?_, ⟨allowed, fitsAll_false.1 all⟩, ?_⟩
    · rw [spell_cons, spelling, split]
      rfl
    · simp [nameExtent, low, fits.2 allowed, length, spell_cons, spelling]
    · simpa using ended
  · apply stop
    · simp [nameExtent, low, mt fits.1 allowed]
    · intro c more spelled
      rcases spelling_head spelled with ⟨-, rfl, -⟩ | ⟨wide, -⟩
      · exact allowed
      · exact absurd low wide

theorem wide (first : Bool) {b : UInt8} {rest : List UInt8} (high : ¬ b < 0x80)
    (later : ∀ more, more.length ≤ rest.length → Measured false more) : Measured first (b :: rest) := by
  -- A character spelled here is the one that the leading byte announces.
  have here (c : Char) (more : List UInt8) (spelled : b :: rest = String.utf8EncodeChar c ++ more) :
      ∃ others, String.utf8EncodeChar c = b :: others ∧ leadWidth b = others.length + 1 ∧
        rest = others ++ more ∧ (Fits first c ↔ isAlphabetic c = true) := by
    rcases spelling_head spelled with ⟨low, -⟩ | ⟨-, wide, others, same, width, rfl⟩
    · exact absurd low high
    · exact ⟨others, same, width, rfl, fits_wide_iff wide⟩
  by_cases letter : spellsLetter ((b :: rest).take (leadWidth b)) = true
  · obtain ⟨c, more, alphabetic, spelled⟩ := letter_of_spells letter
    obtain ⟨others, same, width, tail, fits⟩ := here c more spelled
    have shorter : more.length ≤ rest.length := by
      rw [tail, List.length_append]
      exact Nat.le_add_left ..
    obtain ⟨chars, rest', split, length, all, ended⟩ := later more shorter
    have enough : ¬ rest.length + 1 < leadWidth b := by
      simp only [tail, width, List.length_append]
      omega
    refine ⟨c :: chars, rest', ?_, ?_, ⟨fits.2 alphabetic, fitsAll_false.1 all⟩, ?_⟩
    · rw [spell_cons, spelled, split, List.append_assoc]
    · rw [nameExtent_wide high, if_neg (by omega), if_neg enough, if_pos letter, width,
        Nat.add_sub_cancel, tail, nameExtent_owed, length, spell_cons, same]
      simp only [List.length_append, List.length_cons]
      omega
    · simpa using ended
  · apply stop
    · rw [nameExtent_wide high, if_neg letter]
      split
      · rfl
      · split <;> rfl
    · intro c more spelled
      obtain ⟨others, same, width, rfl, fits⟩ := here c more spelled
      rw [fits]
      intro alphabetic
      apply letter
      rw [spelled, same, width, List.take_left' (by simp), ← same, spellsLetter_spelling, alphabetic]

end Measured

theorem nameExtent_measures : (first : Bool) → (input : List UInt8) → Measured first input
  | first, [] => by
    refine .stop rfl fun c more spelled => ?_
    simp [String.utf8EncodeChar_ne_nil] at spelled
  | first, b :: rest => by
    by_cases low : b < 0x80
    · exact .ascii first low (nameExtent_measures false rest)
    · exact .wide first low fun more shorter => nameExtent_measures false more
termination_by _ input => input.length
decreasing_by
  · exact Nat.lt_succ_self _
  · exact Nat.lt_succ_of_le shorter

/-- A name is measured where one begins: the longest one. -/
theorem nameLength_pos {input : List UInt8} (some : 0 < nameLength input) :
    ∃ name rest, input = spell name ++ rest ∧ nameLength input = (spell name).length ∧ IsName name ∧
      ¬ GoesOn rest := by
  obtain ⟨chars, rest, split, length, all, ended⟩ := nameExtent_measures true input
  cases chars with
  | nil =>
    rw [nameLength, length] at some
    cases some
  | cons c more =>
    refine ⟨c :: more, rest, split, length, ⟨all.1, all.2⟩, ?_⟩
    rintro ⟨d, after, fits, spelled⟩
    exact ended d after spelled fits

/-- Where a name stands and nothing after it goes on with it, that name is measured. -/
theorem nameLength_spell {name : List Char} {rest : List UInt8} (named : IsName name)
    (ends : ¬ GoesOn rest) : nameLength (spell name ++ rest) = (spell name).length := by
  obtain ⟨chars, rest', split, length, all, ended⟩ := nameExtent_measures true (spell name ++ rest)
  rw [nameLength, length]
  obtain ⟨begins, goesOn⟩ := named
  rcases spell_comparable split with ⟨more, rfl, tail⟩ | ⟨more, same, tail⟩
  · cases more with
    | nil => rw [List.append_nil]
    | cons c more =>
      rw [spell_cons, List.append_assoc] at tail
      exact absurd ⟨c, _, all.2 c (by simp), tail⟩ ends
  · cases more with
    | nil => rw [same, List.append_nil]
    | cons d others =>
      rw [spell_cons, List.append_assoc] at tail
      refine absurd ?_ (ended d _ tail)
      cases chars with
      | nil =>
        obtain ⟨rfl, -⟩ := List.cons.inj same
        exact begins
      | cons c chars =>
        obtain ⟨-, rfl⟩ := List.cons.inj same
        exact goesOn d (by simp)

theorem isName_iff {text : String} : isName text = true ↔ IsName text.toList := by
  rw [isName, bytes_eq_spell, Bool.and_eq_true, bne_iff_ne, beq_iff_eq]
  constructor
  · rintro ⟨some, whole⟩
    have positive : 0 < nameLength (spell text.toList) := by
      rw [whole, List.length_pos_iff, ← bytes_eq_spell]
      exact mt bytes_eq_nil_iff.1 some
    obtain ⟨name, rest, split, length, named, -⟩ := nameLength_pos positive
    have none : rest = [] := by
      have total := congrArg List.length split
      rw [List.length_append] at total
      exact List.eq_nil_of_length_eq_zero (by omega)
    rw [none, List.append_nil] at split
    rwa [spell_injective split]
  · intro named
    have alone : ¬ GoesOn [] := by
      rintro ⟨c, more, -, spelled⟩
      simp [String.utf8EncodeChar_ne_nil] at spelled
    have length := nameLength_spell named alone
    rw [List.append_nil] at length
    refine ⟨?_, length⟩
    rintro rfl
    cases named

end XmlBinding.Text
