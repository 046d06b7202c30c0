import XmlBinding.Text.Reference
import XmlBinding.Text.Utf8

/-! Attribute values. Inside its quotes a value may escape characters with a backslash, and after that
with references; writing protects every backslash that reading would otherwise take for an escape. -/
namespace XmlBinding.Text

/-- The character that a backslash followed by this one stands for. -/
def escaped? : Char → Option Char
  | '\\' => some '\\'
  | '"' => some '"'
  | '\'' => some '\''
  | 'n' => some '\n'
  | 't' => some '\t'
  | 'r' => some '\r'
  | _ => none

/-- Resolves backslash escapes. An unknown escape keeps its backslash, as does one at the end. -/
def unprotect : List Char → List Char
  | '\\' :: c :: rest =>
    match escaped? c with
    | some meant => meant :: unprotect rest
    | none => '\\' :: c :: unprotect rest
  | c :: rest => c :: unprotect rest
  | [] => []

/-- Doubles each backslash that would begin an escape or stand at the end. -/
def protect : List Char → List Char
  | [] => []
  | '\\' :: rest =>
    if rest.head?.all fun c => (escaped? c).isSome then '\\' :: '\\' :: protect rest
    else '\\' :: protect rest
  | c :: rest => c :: protect rest

/-- The value that stands between the quotes of an attribute. -/
def decodeAttribute (inside : String) : String :=
  String.ofList (unescapeChars (unprotect inside.toList))

/-- A value as it is written between the quotes of an attribute. -/
def attributeValue (value : String) : String :=
  String.ofList (escapeChars (protect value.toList))

/-- A quoted lexeme without its first and last byte; empty if that leaves no text. -/
def unquote (lexeme : String) : String :=
  (ofBytes? ((bytes lexeme).drop 1).dropLast).getD ""

end XmlBinding.Text
