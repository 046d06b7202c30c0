import XmlBinding.Input.Lookahead

/-! The lexer cuts input into tokens, one at a time. It knows whether it stands in content, in a tag or
inside a section, so that text is recognised only between tags and the body of a comment, a CDATA
section or an instruction is one token between its two delimiters. -/
namespace XmlBinding

/-- A stretch of markup with delimiters of its own, whose body is not looked into. -/
inductive Section where
  | comment
  | cdata
  | declaration
  | instruction
deriving DecidableEq, Repr

namespace Section

def opening : Section → String
  | comment => "<!--"
  | cdata => "<![CDATA["
  | declaration => "<?xml"
  | instruction => "<?"

def terminator : Section → String
  | comment => "-->"
  | cdata => "]]>"
  | declaration | instruction => "?>"

def startKind : Section → TokenKind
  | comment => .commentStart
  | cdata => .cdataStart
  | declaration => .declarationStart
  | instruction => .instructionStart

def contentKind : Section → TokenKind
  | comment => .commentContent
  | cdata => .cdataContent
  | declaration | instruction => .text

def endKind : Section → TokenKind
  | comment => .commentEnd
  | cdata => .cdataEnd
  | declaration | instruction => .instructionEnd

/-- The fault of a section without its terminator. -/
def unterminated : Section → Fault
  | comment => .unterminatedComment
  | cdata => .unterminatedCData
  | declaration => .unterminatedDeclaration
  | instruction => .unterminatedInstruction

/-- The sections in the order in which their openings are tried. -/
def all : List Section := [comment, cdata, declaration, instruction]

end Section

/-- Where a lexer stands. -/
inductive LexerContext where
  | content
  /-- Directly after the opening of a tag. -/
  | tagStart
  /-- In a tag, where spaces separate tokens. -/
  | tag
  | inside (sec : Section)
  | done
deriving DecidableEq, Repr

structure Lexer where
  input : Stream
  context : LexerContext := .content
deriving Repr

/-- The kinds of token with a fixed spelling inside a tag, in the order in which they are tried, each
with the context after it. -/
def tagTokens : List (String × TokenKind × LexerContext) := [
  ("?>", .instructionEnd, .content),
  ("</", .endTagOpen, .tagStart),
  ("/>", .selfClose, .content),
  ("<", .tagOpen, .tagStart),
  (">", .tagClose, .content),
  ("=", .equals, .tag)]

namespace Lexer

def ofBytes (bytes : List UInt8) : Lexer :=
  { input := .ofBytes bytes }

def ofSource (source : Source) : Lexer :=
  { input := .ofSource source }

/-- The token of the given kind over the next `length` bytes. -/
def take (lexer : Lexer) (kind : TokenKind) (length : Nat) : Except Error Token × Lexer :=
  let start := lexer.input.position
  let input := lexer.input.advance length
  ((input.textFrom start.offset).map fun lexeme => ⟨kind, lexeme, start⟩, { lexer with input })

/-- The end of the input, or the failure that cut it short. -/
def finish (lexer : Lexer) : Except Error Token × Lexer :=
  match lexer.input.takeFailure with
  | (some cause, input) => (.error (.readFailed cause), { lexer with input })
  | (none, input) => (.ok ⟨.endOfInput, "", input.position⟩, { input, context := .done })

/-- Enters a section whose opening is ahead, provided that it has a terminator. -/
def openSection (lexer : Lexer) (sec : Section) : Except Error Token × Lexer :=
  let start := lexer.input.position
  let input := lexer.input.advance (Text.bytes sec.opening).length
  match input.run (.find (Text.bytes sec.terminator)) with
  | (some _, input) =>
    (.ok ⟨sec.startKind, sec.opening, start⟩, { input, context := .inside sec })
  | (none, input) =>
    match input.takeFailure with
    | (some cause, input) => (.error (.readFailed cause), { lexer with input })
    | (none, input) => (.error (.malformed sec.unterminated start), { lexer with input })

/-- The body of a section, or its terminator. -/
def inSection (lexer : Lexer) (sec : Section) : Except Error Token × Lexer :=
  let start := lexer.input.position
  let terminator := Text.bytes sec.terminator
  match lexer.input.setMark.eat terminator with
  | (true, input) =>
    (.ok ⟨sec.endKind, sec.terminator, start⟩, { input, context := .content })
  | (false, input) =>
    match input.run (.find terminator) with
    | (some length, input) => { lexer with input }.take sec.contentKind length
    | (none, input) => (.error (.malformed .unexpectedEnd start), { lexer with input })

/-- The first section whose opening is ahead. -/
def findSection (input : Stream) : List Section → Option Section × Stream
  | [] => (none, input)
  | sec :: rest =>
    match input.startsWith (Text.bytes sec.opening) with
    | (true, input) => (some sec, input)
    | (false, input) => findSection input rest

/-- The next token between tags. -/
def inContent (lexer : Lexer) : Except Error Token × Lexer :=
  let start := lexer.input.position
  match lexer.input.setMark.isAtEnd with
  | (true, input) => { lexer with input }.finish
  | (false, input) =>
    match findSection input Section.all with
    | (some sec, input) => { lexer with input }.openSection sec
    | (none, input) =>
      match input.eat (Text.bytes "</") with
      | (true, input) => (.ok ⟨.endTagOpen, "</", start⟩, { input, context := .tagStart })
      | (false, input) =>
        match input.eat (Text.bytes "<") with
        | (true, input) => (.ok ⟨.tagOpen, "<", start⟩, { input, context := .tagStart })
        | (false, input) =>
          let (length, input) := input.setMark.run .textLength
          { lexer with input }.take .text length

/-- The first token of fixed spelling that is ahead, which is moved over. -/
def eatFixed (input : Stream) :
    List (String × TokenKind × LexerContext) → Option (String × TokenKind × LexerContext) × Stream
  | [] => (none, input)
  | entry :: rest =>
    match input.eat (Text.bytes entry.1) with
    | (true, input) => (some entry, input)
    | (false, input) => eatFixed input rest

/-- Whether a byte is one of the two quotes. -/
def isQuote (b : UInt8) : Bool :=
  b == 0x22 || b == 0x27

/-- The next token of a tag: a fixed spelling, a quoted string, a name, or else a single character,
which is left to the reader of the tokens to refuse. -/
def inTag (lexer : Lexer) : Except Error Token × Lexer :=
  let start := lexer.input.position
  match lexer.input.setMark.peek with
  | (none, input) => { lexer with input }.finish
  | (some b, input) =>
    match eatFixed input tagTokens with
    | (some (lexeme, kind, context), input) => (.ok ⟨kind, lexeme, start⟩, { input, context })
    | (none, input) =>
      let (length, kind, input) :=
        if isQuote b then
          let (length?, input) := input.run .quotedLength
          (length?.getD 0, TokenKind.string, input)
        else
          let (length, input) := input.run .nameLength
          (length, TokenKind.name, input)
      if 0 < length then { lexer with input }.take kind length
      else
        let (length, input) := input.run .charLength
        { lexer with input }.take .text length

/-- The next token. After the input has ended, every further token is the end of the input. -/
def next (lexer : Lexer) : Except Error Token × Lexer :=
  match lexer.context with
  | .inside sec => lexer.inSection sec
  | .tagStart =>
    let (length, input) := lexer.input.setMark.run .nameLength
    let lexer : Lexer := { input, context := .tag }
    if 0 < length then lexer.take .name length else lexer.inTag
  | .tag => { lexer with input := lexer.input.skipSpace }.inTag
  | .content => lexer.inContent
  | .done => lexer.finish

/-- The bytes that are still to be cut into tokens, at most. -/
def remaining (lexer : Lexer) : Nat :=
  lexer.input.ahead.length + (lexer.input.source.elim [] Source.content).length

end Lexer

/-- The tokens of some input up to its end, or up to the first error. -/
structure Tokens where
  /-- The tokens before the last. -/
  tokens : List Token
  /-- The token that marks the end of the input, or the error met instead. -/
  last : Except Error Token
deriving Repr

namespace Lexer

/-- Cuts the input into tokens, at most `fuel` of them before the last. -/
def tokensWithin : (fuel : Nat) → Lexer → Tokens
  | 0, lexer => ⟨[], lexer.next.1⟩
  | fuel + 1, lexer =>
    match lexer.next with
    | (.error error, _) => ⟨[], .error error⟩
    | (.ok token, lexer) =>
      if token.kind = .endOfInput then ⟨[], .ok token⟩
      else
        let rest := tokensWithin fuel lexer
        { rest with tokens := token :: rest.tokens }

/-- All tokens of the input. Each of them but the last covers at least one byte, so there are no more
than bytes. -/
def tokens (lexer : Lexer) : Tokens :=
  tokensWithin lexer.remaining lexer

end Lexer

end XmlBinding
