import XmlBinding.Text.Quoted
import XmlBinding.Token

/-! Everything that can go wrong, by its cause. Faults of the markup carry the place where they were
found; errors of typed values carry the path of fields, keys and indices that leads to them. The wording
of each is fixed here and nowhere else. -/
namespace XmlBinding

/-- What the grammar allows at a place. -/
inductive Expectation where
  | token (kind : TokenKind)
  | restOfTag
deriving DecidableEq, Repr

def Expectation.describe : Expectation → String
  | token kind => kind.describe
  | restOfTag => "attribute, '>' or '/>'"

/-- What stands at a place where something else was expected. -/
inductive Finding where
  | token (kind : TokenKind)
  | lexeme (kind : TokenKind) (text : String)
  | character (c : Char)
  | byte (b : UInt8)
  | endOfInput
deriving DecidableEq, Repr

/-- A byte in two hexadecimal digits. -/
def hexByte (b : UInt8) : String :=
  String.ofList [Nat.digitChar (b.toNat / 16), Nat.digitChar (b.toNat % 16)]

def Finding.describe : Finding → String
  | token kind => kind.describe
  | lexeme kind text => .join [kind.describe, " ", Text.quoted text]
  | character c => Text.quotedSingle c
  | byte b => .join ["byte 0x", hexByte b]
  | endOfInput => "end of input"

/-- A token as a finding; the kinds whose lexemes vary show them. -/
def Token.finding (token : Token) : Finding :=
  match token.kind with
  | .name | .text | .string => .lexeme token.kind token.lexeme
  | kind => .token kind

/-- A way in which markup can be ill-formed. -/
inductive Fault where
  | unexpectedToken (expected : Expectation) (found : Finding)
  | expectedElementName
  | expectedClosingName
  | expectedAttributeName
  | expectedEquals (name : String)
  | expectedAttributeValue (name : String)
  | unterminatedString
  | unterminatedComment
  | unterminatedCData
  | unterminatedDeclaration
  | unterminatedInstruction
  | mismatchedTags (opening closing : String)
  | unclosedElement (name : String)
  | unexpectedEnd
  | unexpectedContent (kind : TokenKind)
  | trailingContent
  | nestingTooDeep (limit : Nat)
  | invalidText
deriving DecidableEq, Repr

def Fault.describe : Fault → String
  | unexpectedToken expected found => .join ["expected ", expected.describe, ", found ", found.describe]
  | expectedElementName => "expected element name"
  | expectedClosingName => "expected element name in closing tag"
  | expectedAttributeName => "expected attribute name"
  | expectedEquals name => .join ["expected '=' after attribute ", Text.quoted name]
  | expectedAttributeValue name => .join ["expected quoted value for attribute ", Text.quoted name]
  | unterminatedString => "unterminated string"
  | unterminatedComment => "unterminated comment"
  | unterminatedCData => "unterminated CDATA section"
  | unterminatedDeclaration => "unterminated XML declaration"
  | unterminatedInstruction => "unterminated processing instruction"
  | mismatchedTags opening closing =>
    .join ["mismatched tags: opening ", Text.quoted opening, ", closing ", Text.quoted closing]
  | unclosedElement name =>
    .join ["unexpected end of input, element ", Text.quoted name, " is not closed"]
  | unexpectedEnd => "unexpected end of input"
  | unexpectedContent kind => .join ["unexpected ", kind.describe, " in element content"]
  | trailingContent => "unexpected content after root element"
  | nestingTooDeep limit => .join ["elements are nested deeper than ", toString limit, " levels"]
  | invalidText => "input is not valid UTF-8"

/-- The three forms of a native value. -/
inductive ValueKind where
  | string
  | map
  | list
deriving DecidableEq, Repr

def ValueKind.describe : ValueKind → String
  | string => "string"
  | map => "map"
  | list => "list"

/-- A reason why a native value is no document. -/
inductive NativeFault where
  | rootNotMap (found : ValueKind)
  | notString (key : String) (found : ValueKind)
  | unknownSpecialKey (key : String)
  | nestedList (key : String)
deriving DecidableEq, Repr

def NativeFault.describe : NativeFault → String
  | rootNotMap found => .join ["the root must be a map, found ", found.describe]
  | notString key found => .join [Text.quoted key, " must hold a string, found ", found.describe]
  | unknownSpecialKey key => .join ["unknown special key ", Text.quoted key]
  | nestedList key => .join ["repeated element ", Text.quoted key, " contains a nested list"]

/-- What was met where a value of some type was wanted. -/
inductive Misfit where
  | native (kind : ValueKind)
  | otherType
deriving DecidableEq, Repr

def Misfit.describe : Misfit → String
  | native kind => kind.describe
  | otherType => "value of another type"

/-- An error of reading, writing or converting. Types appear by their full names. -/
inductive Error where
  | malformed (fault : Fault) (position : Position)
  | readFailed (cause : String)
  | unsupportedType (type : String)
  | nonStringKey (type : String)
  | notText (type : String)
  | mismatch (found : Misfit) (expected : String)
  | invalidScalar (value expected : String)
  | invalidNative (fault : NativeFault)
  | invalidName (name : String)
  | unresolved (type : String)
  | inField (field : String) (cause : Error)
  | inKey (key : String) (cause : Error)
  | atIndex (index : Nat) (cause : Error)
  | custom (message : String)
deriving DecidableEq, Repr

namespace Error

/-- The text shown for an error. -/
def message : Error → String
  | malformed fault position => .join [fault.describe, " at ", position.describe]
  | readFailed cause => .join ["I/O error while reading XML input: ", cause]
  | unsupportedType type => .join ["xml: unsupported type ", type]
  | nonStringKey type => .join ["xml: unsupported map key type ", type, ", map keys must be strings"]
  | notText type => .join ["xml: ", type, " cannot be written as text"]
  | mismatch found expected =>
    .join ["xml: cannot decode ", found.describe, " into value of type ", expected]
  | invalidScalar value expected =>
    .join ["xml: invalid value ", Text.quoted value, " for type ", expected]
  | invalidNative fault => .join ["invalid native value: ", fault.describe]
  | invalidName name => .join ["xml: invalid element name ", Text.quoted name]
  | unresolved type => .join ["xml: encoder for ", type, " was invoked before it finished compiling"]
  | inField field cause => .join ["field ", field, ": ", cause.message]
  | inKey key cause => .join ["key ", Text.quoted key, ": ", cause.message]
  | atIndex index cause => .join ["index ", toString index, ": ", cause.message]
  | custom message => message

/-- The place of an error of the markup. -/
def position? : Error → Option Position
  | malformed _ position => some position
  | _ => none

end Error

end XmlBinding
