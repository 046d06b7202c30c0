/-! The bytes of a text. Reading them back restores the text, and bytes that spell no text in UTF-8
are refused. -/
namespace XmlBinding.Text

/-- The bytes of a text in UTF-8. -/
def bytes (text : String) : List UInt8 :=
  text.toUTF8.data.toList

/-- The text that the bytes spell in UTF-8, if they spell one. -/
def ofBytes? (bytes : List UInt8) : Option String :=
  String.fromUTF8? ⟨bytes.toArray⟩

/-- Whether bytes spell a text in UTF-8, decided without making the text. -/
def isText (bytes : List UInt8) : Bool :=
  ByteArray.validateUTF8 ⟨bytes.toArray⟩

/-- Whether a byte continues a character that an earlier byte began. -/
def isContinuation (b : UInt8) : Bool :=
  b &&& 0xC0 == 0x80

/-- The number of bytes that a leading byte above the ASCII range announces, zero if it leads nothing. -/
def leadWidth (b : UInt8) : Nat :=
  if 0xC0 ≤ b ∧ b ≤ 0xDF then 2
  else if 0xE0 ≤ b ∧ b ≤ 0xEF then 3
  else if 0xF0 ≤ b ∧ b ≤ 0xF7 then 4
  else 0

/-- How many bytes at the front belong to a character that is broken off: those that could begin one, or else
the first byte alone. -/
def brokenLength : List UInt8 → Nat
  | lead :: second :: rest =>
    let least : UInt8 := if lead == 0xE0 then 0xA0 else if lead == 0xF0 then 0x90 else 0x80
    let greatest : UInt8 := if lead == 0xED then 0x9F else if lead == 0xF4 then 0x8F else 0xBF
    if lead < 0xE0 || 0xF4 < lead || second < least || greatest < second then 1
    else if 0xF0 ≤ lead && rest.head?.any isContinuation then 3
    else 2
  | _ => 1

/-- The text that bytes spell, with a replacement character for each piece that spells nothing, where `count`
bounds the characters. -/
def lossyChars : Nat → List UInt8 → List Char
  | 0, _ => []
  | _, [] => []
  | count + 1, bytes =>
    let whole? (width : Nat) : Option Char :=
      if bytes.length < width then none
      else (ofBytes? (bytes.take width)).bind fun text => text.toList.head?
    match ((whole? 1).or (whole? 2)).or ((whole? 3).or (whole? 4)) with
    | some c => c :: lossyChars count (bytes.drop c.utf8Size)
    | none => '\uFFFD' :: lossyChars count (bytes.drop (brokenLength bytes))

/-- The text that bytes spell in UTF-8, as far as they spell one. -/
def ofBytesLossy (bytes : List UInt8) : String :=
  (ofBytes? bytes).getD (String.ofList (lossyChars bytes.length bytes))

theorem ofBytes?_eq_some_iff {spelling : List UInt8} {text : String} :
    ofBytes? spelling = some text ↔ bytes text = spelling := by
  unfold ofBytes? bytes String.fromUTF8?
  constructor
  · intro read
    split at read
    · cases read
      rfl
    · cases read
  · rintro rfl
    have valid : (⟨text.toUTF8.data.toList.toArray⟩ : ByteArray).IsValidUTF8 := text.isValidUTF8
    rw [dif_pos valid]
    rfl

@[simp] theorem ofBytes?_bytes (text : String) : ofBytes? (bytes text) = some text :=
  ofBytes?_eq_some_iff.2 rfl

theorem isText_eq_isSome (spelling : List UInt8) : isText spelling = (ofBytes? spelling).isSome := by
  unfold ofBytes? String.fromUTF8?
  split
  · rename_i valid
    exact ByteArray.validateUTF8_eq_true_iff.2 valid
  · rename_i invalid
    exact Bool.eq_false_iff.2 (mt ByteArray.validateUTF8_eq_true_iff.1 invalid)

end XmlBinding.Text
