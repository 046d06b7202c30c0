import XmlBinding.Text.Classes

/-! Character references. Writing replaces the five characters that have a name in markup; reading
resolves each reference on its own, by name or by number, and keeps everything else as it stands. How one
character is replaced and what one reference stands for is the business of quick_xml, whose documented behaviour
`escapeChar` and `referent?` are; where references begin and end is decided here. -/
namespace XmlBinding.Text

/-- A character as it is written in markup, in the way that the `escape` of quick_xml is documented to write it. -/
def escapeChar : Char → List Char
  | '&' => ['&', 'a', 'm', 'p', ';']
  | '<' => ['&', 'l', 't', ';']
  | '>' => ['&', 'g', 't', ';']
  | '"' => ['&', 'q', 'u', 'o', 't', ';']
  | '\'' => ['&', 'a', 'p', 'o', 's', ';']
  | c => [c]

def escapeChars (chars : List Char) : List Char :=
  chars.flatMap escapeChar

/-- A text with the five named characters replaced by their references. -/
def escape (text : String) : String :=
  String.ofList (escapeChars text.toList)

/-- The value of a digit, hexadecimal letters of either case included. -/
def digitValue? (c : Char) : Option Nat :=
  if '0' ≤ c ∧ c ≤ '9' then some (c.toNat - '0'.toNat)
  else if 'a' ≤ c ∧ c ≤ 'f' then some (c.toNat - 'a'.toNat + 10)
  else if 'A' ≤ c ∧ c ≤ 'F' then some (c.toNat - 'A'.toNat + 10)
  else none

/-- The number written by digits of a base after those that stand for `value`. -/
def digitsFrom? (base value : Nat) : List Char → Option Nat
  | [] => some value
  | c :: rest =>
    match digitValue? c with
    | some digit => if digit < base then digitsFrom? base (value * base + digit) rest else none
    | none => none

/-- The number written by one or more digits of a base. -/
def number? (base : Nat) : List Char → Option Nat
  | [] => none
  | digits => digitsFrom? base 0 digits

/-- The character with a code point, which must be a scalar value other than zero. -/
def charOfCode? (code : Nat) : Option Char :=
  if code ≠ 0 ∧ code.isValidChar then some (Char.ofNat code) else none

/-- The character that the inside of a reference stands for: what the `unescape` of quick_xml is documented to
make of it, the five names and the numbers of characters other than zero. -/
def referent? : List Char → Option Char
  | ['l', 't'] => some '<'
  | ['g', 't'] => some '>'
  | ['a', 'm', 'p'] => some '&'
  | ['q', 'u', 'o', 't'] => some '"'
  | ['a', 'p', 'o', 's'] => some '\''
  | '#' :: 'x' :: digits => (number? 16 digits).bind charOfCode?
  | '#' :: digits => (number? 10 digits).bind charOfCode?
  | _ => none

/-- The longest reference that is looked up, from its ampersand to its semicolon. -/
def maxReference : Nat := 32

/-- The character of the reference whose ampersand stood before these characters, and how many of
them belong to it. -/
def reference? (afterAmpersand : List Char) : Option (Char × Nat) :=
  let near := afterAmpersand.take (maxReference - 1)
  let body := near.takeWhile (· != ';')
  if body.length < near.length then (referent? body).map fun c => (c, body.length + 1) else none

/-- Resolves references from left to right, after passing over the characters of one already resolved. -/
def unescapeFrom : Nat → List Char → List Char
  | _, [] => []
  | passed + 1, _ :: rest => unescapeFrom passed rest
  | 0, '&' :: rest =>
    match reference? rest with
    | some (c, length) => c :: unescapeFrom length rest
    | none => '&' :: unescapeFrom 0 rest
  | 0, c :: rest => c :: unescapeFrom 0 rest

def unescapeChars (chars : List Char) : List Char :=
  unescapeFrom 0 chars

/-- A text with every recognised reference replaced by its character. -/
def unescape (text : String) : String :=
  String.ofList (unescapeChars text.toList)

/-- A space character written as a numeric reference. -/
def spaceReference (c : Char) : List Char :=
  ['&', '#'] ++ Nat.toDigits 10 c.toNat ++ [';']

/-- Character data as it is written in an element. The spaces at its two ends, which a reader trims
from literal text, become references. -/
def characterDataChars (chars : List Char) : List Char :=
  let rest := chars.dropWhile isSpace
  let body := trimEnd isSpace rest
  (chars.takeWhile isSpace).flatMap spaceReference ++ escapeChars body ++
    (rest.drop body.length).flatMap spaceReference

/-- The text of an element as it is written. -/
def characterData (text : String) : String :=
  String.ofList (characterDataChars text.toList)

end XmlBinding.Text
