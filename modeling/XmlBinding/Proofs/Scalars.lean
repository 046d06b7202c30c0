import XmlBinding.Typed.Scalar

/-! Scalars and their texts. A scalar of a type other than a float is read from its text again. -/
namespace XmlBinding

namespace Number

/-- A number counted upwards or downwards from zero. -/
def count (negative : Bool) (n : Nat) : Int := if negative then -n else n

theorem decimalDigit?_digitChar {digit : Nat} (small : digit < 10) : decimalDigit? digit.digitChar = some digit := by
  have every : ∀ digit : Fin 10, decimalDigit? (Nat.digitChar digit) = some digit.val := by decide
  exact every ⟨digit, small⟩

theorem appendDigits_digit (range : IntegerRange) (negative : Bool) {digit n : Nat} (small : digit < 10)
    (inside : range.Contains (count negative (n * 10 + digit))) (rest : List Char) :
    appendDigits range negative (count negative n) (digit.digitChar :: rest) =
      appendDigits range negative (count negative (n * 10 + digit)) rest := by
  have next : (if negative then count negative n * 10 - digit else count negative n * 10 + digit) =
      count negative (n * 10 + digit) := by
    cases negative <;> simp only [count, if_true, if_false, Bool.false_eq_true] <;> omega
  rw [appendDigits, decimalDigit?_digitChar small]
  dsimp only
  rw [next, if_neg (Int.not_lt.2 inside.1), if_neg (Int.not_lt.2 inside.2)]

/-- Nothing on the way to a number of a range that holds zero is outside the range. -/
theorem IntegerRange.Contains.count_le {range : IntegerRange} {m n : Nat} (zero : range.Contains 0)
    (inside : range.Contains (count negative n)) (less : m ≤ n) : range.Contains (count negative m) := by
  unfold Contains at *
  cases negative <;> simp only [count, if_true, if_false, Bool.false_eq_true] at * <;> omega

/-- The digits of a number carry zero to the number. -/
theorem appendDigits_toDigits {range : IntegerRange} (zero : range.Contains 0) {negative : Bool} (n : Nat)
    (inside : range.Contains (count negative n)) (rest : List Char) :
    appendDigits range negative 0 (Nat.toDigits 10 n ++ rest) =
      appendDigits range negative (count negative n) rest := by
  induction n using Nat.strongRecOn generalizing rest with
  | ind n ih =>
    have start : (0 : Int) = count negative 0 := by cases negative <;> rfl
    rw [Nat.toDigits_eq_if (by decide)]
    split
    · rename_i small
      have step := appendDigits_digit range negative (n := 0) small (by rwa [Nat.zero_mul, Nat.zero_add]) rest
      rwa [Nat.zero_mul, Nat.zero_add, ← start] at step
    · rename_i large
      have whole : n / 10 * 10 + n % 10 = n := Nat.div_add_mod' n 10
      have before := ih (n / 10) (by omega) (zero.count_le inside (Nat.div_le_self n 10)) ((n % 10).digitChar :: rest)
      have step := appendDigits_digit range negative (n := n / 10) (Nat.mod_lt n (by decide)) (by rwa [whole]) rest
      rw [List.append_assoc, List.singleton_append, before, step, whole]

theorem readInteger_integerText {range : IntegerRange} (zero : range.Contains 0) {n : Int} (inside : range.Contains n) :
    readInteger range (integerText n) = .ok n := by
  have digits (negative : Bool) (same : count negative n.natAbs = n) :
      appendDigits range negative 0 (Nat.toDigits 10 n.natAbs) = .ok n := by
    have all := appendDigits_toDigits zero n.natAbs (same.symm ▸ inside) []
    rwa [List.append_nil, same] at all
  have isDigit : ∀ c ∈ Nat.toDigits 10 n.natAbs, c.isDigit = true :=
    fun c member => Nat.isDigit_of_mem_toDigits (by decide) (Nat.le_refl _) member
  rw [integerText]
  match chars : Nat.toDigits 10 n.natAbs with
  | [] => exact absurd chars Nat.toDigits_ne_nil
  | first :: more =>
    rw [chars] at digits isDigit
    split
    · rename_i below
      rw [readInteger, if_pos (Int.lt_of_le_of_lt inside.1 below)]
      · exact digits true (by simp only [count, if_true]; omega)
      · simp
    · rename_i above
      have firstDigit := isDigit first List.mem_cons_self
      unfold readInteger
      split
      · rename_i same; cases same
      · rename_i same; cases same; cases firstDigit
      · rename_i same; cases same; cases firstDigit
      · rename_i same; cases same; cases firstDigit
      · rename_i same; cases same; cases firstDigit
      · exact digits false (by simp only [count, if_false, Bool.false_eq_true]; omega)

/-- The text of an integer is one of digits, after a minus sign at most. -/
theorem mem_integerText {c : Char} (member : c ∈ integerText n) : c = '-' ∨ c.isDigit = true := by
  rw [integerText] at member
  split at member
  · rcases List.mem_cons.1 member with rfl | member
    · exact .inl rfl
    · exact .inr (Nat.isDigit_of_mem_toDigits (by decide) (Nat.le_refl _) member)
  · exact .inr (Nat.isDigit_of_mem_toDigits (by decide) (Nat.le_refl _) member)

end Number

namespace Text

theorem trimChars_of_none {inClass : Char → Bool} {chars : List Char} (none : ∀ c ∈ chars, inClass c = false) :
    trimChars inClass chars = chars := by
  have stays {chars : List Char} (none : ∀ c ∈ chars, inClass c = false) : chars.dropWhile inClass = chars := by
    cases chars with
    | nil => rfl
    | cons c rest => exact List.dropWhile_cons_of_neg (by simp [none c List.mem_cons_self])
  rw [trimChars, stays none, trimEnd, stays fun c member => none c (List.mem_reverse.1 member), List.reverse_reverse]

theorem isBlank_digit {c : Char} (digit : c.isDigit = true) : isBlank c = false := by
  rw [Char.isDigit, Bool.and_eq_true, decide_eq_true_eq, decide_eq_true_eq] at digit
  have least : 48 ≤ c.toNat := digit.1
  have greatest : c.toNat ≤ 57 := digit.2
  rw [← Bool.not_eq_true, isBlank, inRanges_iff]
  rintro ⟨range, member, from', upTo⟩
  simp only [blankRanges, List.mem_cons, List.not_mem_nil, or_false] at member
  rcases member with rfl | rfl | rfl | rfl | rfl | rfl | rfl | rfl | rfl | rfl <;> dsimp only at from' upTo <;> omega

end Text

/-- Whether a scalar is one of a type, of those whose texts are exact. -/
def ScalarType.Holds : ScalarType → Scalar → Prop
  | .string, .text _ => True
  | .char, .char _ => True
  | .bool, .bool _ => True
  | .signed width, .integer n => (Number.IntegerRange.signed width.bits).Contains n
  | .unsigned width, .integer n => (Number.IntegerRange.unsigned width.bits).Contains n
  | _, _ => False

theorem Number.IntegerRange.signed_zero (width : Width) : (signed width.bits).Contains 0 := by
  cases width <;> decide

theorem Number.IntegerRange.unsigned_zero (width : Width) : (unsigned width.bits).Contains 0 := by
  cases width <;> decide

/-- A scalar is read from its text. -/
theorem ScalarType.read?_format {type : ScalarType} {scalar : Scalar} (holds : type.Holds scalar) :
    type.read? scalar.format = some scalar := by
  have integer {range : Number.IntegerRange} {n : Int} (zero : range.Contains 0) (inside : range.Contains n) :
      (Number.readInteger range (Text.trimBlank (String.ofList (Number.integerText n))).toList).toOption.map
        Scalar.integer = some (.integer n) := by
    rw [Text.trimBlank, String.toList_ofList, String.toList_ofList, Text.trimChars_of_none,
      Number.readInteger_integerText zero inside]
    · rfl
    · intro c member
      rcases Number.mem_integerText member with rfl | digit
      · decide
      · exact Text.isBlank_digit digit
  cases type <;> cases scalar <;> try exact holds.elim
  case string.text text => rfl
  case char.char c => simp [read?, Scalar.format]
  case bool.bool b => cases b <;> decide
  case signed.integer width n =>
    rw [Holds] at holds
    rw [read?]
    exact integer (Number.IntegerRange.signed_zero width) holds
  case unsigned.integer width n =>
    rw [Holds] at holds
    rw [read?]
    exact integer (Number.IntegerRange.unsigned_zero width) holds

/-- A scalar that is nothing in its type is the blank one. -/
theorem ScalarType.eq_blank {type : ScalarType} {scalar : Scalar} (holds : type.Holds scalar)
    (zero : scalar.isZero = true) : scalar = type.blank := by
  cases type <;> cases scalar <;> first | exact holds.elim | skip
  all_goals simp_all [Scalar.isZero, blank]

/-- Only the blank scalar of its type may have no text. -/
theorem ScalarType.eq_blank_of_format {type : ScalarType} {scalar : Scalar} (holds : type.Holds scalar)
    (none : scalar.format = "") : scalar = type.blank := by
  have digits (n : Int) : Number.integerText n ≠ [] := by
    rw [Number.integerText]
    split
    · exact List.cons_ne_nil _ _
    · exact Nat.toDigits_ne_nil
  have integer (n : Int) : String.ofList (Number.integerText n) ≠ "" := fun same =>
    digits n (by simpa using congrArg String.toList same)
  cases type <;> cases scalar <;> try exact holds.elim
  case string.text text => exact congrArg Scalar.text none
  case char.char c => exact absurd (congrArg String.toList none) (by simp [Scalar.format])
  case bool.bool b => cases b <;> exact absurd none (by decide)
  case signed.integer width n => exact absurd none (integer n)
  case unsigned.integer width n => exact absurd none (integer n)

end XmlBinding
