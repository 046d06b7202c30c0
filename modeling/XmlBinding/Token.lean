import XmlBinding.Position

/-! Lexical tokens of markup. A token is a kind, the stretch of input that it covers and the place
where that stretch begins. -/
namespace XmlBinding

inductive TokenKind where
  | tagOpen
  | tagClose
  | selfClose
  | endTagOpen
  | equals
  | name
  /-- A quoted attribute value; its lexeme keeps the quotes and escapes. -/
  | string
  | text
  | cdataStart
  | cdataContent
  | cdataEnd
  | commentStart
  | commentContent
  | commentEnd
  | instructionStart
  | instructionEnd
  | declarationStart
  | endOfInput
deriving DecidableEq, Repr, Inhabited

/-- What a kind of token is called in messages. -/
def TokenKind.describe : TokenKind → String
  | tagOpen => "'<'"
  | tagClose => "'>'"
  | selfClose => "'/>'"
  | endTagOpen => "'</'"
  | equals => "'='"
  | name => "name"
  | string => "quoted string"
  | text => "text"
  | cdataStart => "CDATA section"
  | cdataContent => "CDATA content"
  | cdataEnd => "']]>'"
  | commentStart => "comment"
  | commentContent => "comment content"
  | commentEnd => "'-->'"
  | instructionStart => "processing instruction"
  | instructionEnd => "'?>'"
  | declarationStart => "XML declaration"
  | endOfInput => "end of input"

structure Token where
  kind : TokenKind
  lexeme : String
  position : Position
deriving DecidableEq, Repr, Inhabited

end XmlBinding
