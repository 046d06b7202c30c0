import XmlBinding.Text.Utf8

/-! The spelling of characters in UTF-8. A character below the ASCII limit is one byte of that value; every
other one is a leading byte that announces the width and continuation bytes, all of them above the limit. So a
scan for ASCII bytes sees exactly the ASCII characters of a text. -/
namespace XmlBinding.Text

/-- The bytes of some characters, one after another. -/
def spell (chars : List Char) : List UInt8 :=
  chars.flatMap String.utf8EncodeChar

@[simp] theorem spell_nil : spell [] = [] := rfl

theorem spell_cons (c : Char) (rest : List Char) :
    spell (c :: rest) = String.utf8EncodeChar c ++ spell rest := rfl

@[simp] theorem spell_append (first second : List Char) :
    spell (first ++ second) = spell first ++ spell second := by
  simp [spell]

theorem bytes_eq_spell (text : String) : bytes text = spell text.toList := by
  rw [bytes, String.toUTF8_eq_toByteArray, ← String.utf8Encode_toList, List.utf8Encode, spell,
    List.data_toByteArray]

@[simp] theorem bytes_ofList (chars : List Char) : bytes (String.ofList chars) = spell chars := by
  rw [bytes_eq_spell, String.toList_ofList]

@[simp] theorem bytes_append (first second : String) :
    bytes (first ++ second) = bytes first ++ bytes second := by
  simp [bytes_eq_spell]

@[simp] theorem bytes_empty : bytes "" = [] := by
  simp [bytes_eq_spell]

/-- What is true of all characters of two texts is true of all characters of both together. -/
theorem forall_mem_append {P : Char → Prop} {first second : String} (front : ∀ c ∈ first.toList, P c)
    (behind : ∀ c ∈ second.toList, P c) : ∀ c ∈ (first ++ second).toList, P c := by
  rw [String.toList_append]
  exact List.forall_mem_append.2 ⟨front, behind⟩

/-- Reading back what was written is the only way to get these bytes. -/
theorem bytes_injective {first second : String} (same : bytes first = bytes second) :
    first = second := by
  have back := ofBytes?_bytes first
  rw [same, ofBytes?_bytes] at back
  exact (Option.some.inj back).symm

@[simp] theorem bytes_eq_nil_iff {text : String} : bytes text = [] ↔ text = "" := by
  constructor
  · intro none
    exact bytes_injective (none.trans bytes_empty.symm)
  · rintro rfl
    exact bytes_empty

theorem spell_injective {first second : List Char} (same : spell first = spell second) :
    first = second := by
  rw [← bytes_ofList, ← bytes_ofList] at same
  exact String.ofList_injective (bytes_injective same)

theorem ascii_spelling {c : Char} (ascii : c.toNat < 0x80) :
    String.utf8EncodeChar c = [UInt8.ofNat c.toNat] := by
  have small : c.val.toNat ≤ 127 := by
    change c.toNat ≤ 127
    omega
  simp only [String.utf8EncodeChar, if_pos small]
  rfl

theorem ascii_char_of_byte {b : UInt8} (ascii : b < 0x80) :
    (Char.ofNat b.toNat).toNat = b.toNat ∧ String.utf8EncodeChar (Char.ofNat b.toNat) = [b] := by
  have small : b.toNat < 0x80 := by simpa [UInt8.lt_iff_toNat_lt] using ascii
  have valid : b.toNat.isValidChar := .inl (by omega)
  have value : (Char.ofNat b.toNat).toNat = b.toNat := by
    rw [Char.ofNat, dif_pos valid]
    rfl
  refine ⟨value, ?_⟩
  rw [ascii_spelling (by omega), value, UInt8.ofNat_toNat]

private theorem leadWidth_two : ∀ n < 32, leadWidth (UInt8.ofNat (n + 192)) = 2 := by decide
private theorem leadWidth_three : ∀ n < 16, leadWidth (UInt8.ofNat (n + 224)) = 3 := by decide
private theorem leadWidth_four : ∀ n < 8, leadWidth (UInt8.ofNat (n + 240)) = 4 := by decide

private theorem high_ofNat {n : Nat} (low : 0x80 ≤ n) (bound : n < 0x100) :
    0x80 ≤ UInt8.ofNat n := by
  simp only [UInt8.le_iff_toNat_le, UInt8.toNat_ofNat', UInt8.reduceToNat]
  omega

/-- A character outside ASCII is a leading byte that announces its width, and bytes that continue it. -/
theorem wide_spelling {c : Char} (wide : 0x80 ≤ c.toNat) :
    ∃ lead more, String.utf8EncodeChar c = lead :: more ∧ leadWidth lead = more.length + 1 ∧
      0x80 ≤ lead ∧ ∀ b ∈ more, 0x80 ≤ b := by
  have large : ¬ c.val.toNat ≤ 127 := by
    change ¬ c.toNat ≤ 127
    omega
  simp only [String.utf8EncodeChar, if_neg large]
  split
  · refine ⟨_, _, rfl, leadWidth_two _ (by omega), high_ofNat (by omega) (by omega), ?_⟩
    simp only [List.mem_singleton, forall_eq]
    exact high_ofNat (by omega) (by omega)
  · split
    · refine ⟨_, _, rfl, leadWidth_three _ (by omega), high_ofNat (by omega) (by omega), ?_⟩
      simp only [List.mem_cons, List.not_mem_nil, or_false, forall_eq_or_imp, forall_eq]
      exact ⟨high_ofNat (by omega) (by omega), high_ofNat (by omega) (by omega)⟩
    · refine ⟨_, _, rfl, leadWidth_four _ (by omega), high_ofNat (by omega) (by omega), ?_⟩
      simp only [List.mem_cons, List.not_mem_nil, or_false, forall_eq_or_imp, forall_eq]
      exact ⟨high_ofNat (by omega) (by omega), high_ofNat (by omega) (by omega),
        high_ofNat (by omega) (by omega)⟩

private theorem ofNat_low {n : Nat} (low : n < 0x80) : UInt8.ofNat n < 0x80 := by
  simp only [UInt8.lt_iff_toNat_lt, UInt8.toNat_ofNat', UInt8.reduceToNat]
  omega

/-- The first byte of a spelling tells an ASCII character, and otherwise how many bytes there are. -/
theorem spelling_head {c : Char} {b : UInt8} {more rest : List UInt8}
    (spelled : b :: rest = String.utf8EncodeChar c ++ more) :
    (b < 0x80 ∧ c = Char.ofNat b.toNat ∧ rest = more) ∨
      (¬ b < 0x80 ∧ 0x80 ≤ c.toNat ∧
        ∃ others, String.utf8EncodeChar c = b :: others ∧ leadWidth b = others.length + 1 ∧
          rest = others ++ more) := by
  by_cases ascii : c.toNat < 0x80
  · rw [ascii_spelling ascii] at spelled
    obtain ⟨rfl, rfl⟩ := List.cons.inj spelled
    refine .inl ⟨ofNat_low ascii, ?_, rfl⟩
    rw [UInt8.toNat_ofNat', Nat.mod_eq_of_lt (by omega), Char.ofNat_toNat]
  · obtain ⟨lead, others, same, width, high, -⟩ := wide_spelling (Nat.le_of_not_lt ascii)
    rw [same] at spelled
    obtain ⟨rfl, rfl⟩ := List.cons.inj spelled
    exact .inr ⟨by simpa using high, Nat.le_of_not_lt ascii, others, same, width, rfl⟩

/-- Different characters are spelled differently, whatever follows them. -/
theorem spelling_unique {c d : Char} {first second : List UInt8}
    (same : String.utf8EncodeChar c ++ first = String.utf8EncodeChar d ++ second) :
    c = d ∧ first = second := by
  cases spelled : String.utf8EncodeChar c with
  | nil => exact absurd spelled String.utf8EncodeChar_ne_nil
  | cons b rest =>
    rw [spelled, List.cons_append] at same
    have own : b :: (rest ++ first) = String.utf8EncodeChar c ++ first := by rw [spelled]; rfl
    rcases spelling_head own with ⟨low, rfl, tail⟩ | ⟨high, -, others, here, width, tail⟩
    · rcases spelling_head same with ⟨-, rfl, tail'⟩ | ⟨high, -⟩
      · exact ⟨rfl, tail.symm.trans tail'⟩
      · exact absurd low high
    · rcases spelling_head same with ⟨low, -⟩ | ⟨-, -, others', here', width', tail'⟩
      · exact absurd low high
      · have lengths : others.length = others'.length := by omega
        obtain ⟨rfl, rfl⟩ := List.append_inj (tail.symm.trans tail') lengths
        refine ⟨?_, rfl⟩
        have alone : spell [c] = spell [d] := by
          rw [spell_cons, spell_cons, here, here']
        exact (List.cons.inj (spell_injective alone)).1

/-- Of two texts at the same place the longer one goes on from the shorter one. -/
theorem spell_comparable {first second : List Char} {x y : List UInt8}
    (same : spell first ++ x = spell second ++ y) :
    (∃ more, second = first ++ more ∧ x = spell more ++ y) ∨
      (∃ more, first = second ++ more ∧ y = spell more ++ x) := by
  induction first generalizing second with
  | nil => exact .inl ⟨second, rfl, same⟩
  | cons c first ih =>
    cases second with
    | nil => exact .inr ⟨c :: first, rfl, same.symm⟩
    | cons d second =>
      rw [spell_cons, spell_cons, List.append_assoc, List.append_assoc] at same
      obtain ⟨rfl, rest⟩ := spelling_unique same
      rcases ih rest with ⟨more, rfl, tail⟩ | ⟨more, rfl, tail⟩
      · exact .inl ⟨more, rfl, tail⟩
      · exact .inr ⟨more, rfl, tail⟩

end XmlBinding.Text
