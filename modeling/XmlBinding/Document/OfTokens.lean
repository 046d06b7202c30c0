import XmlBinding.Document.Node
import XmlBinding.Storage
import XmlBinding.Text.AttributeValue
import XmlBinding.Token.Lexer

/-! The tree of a document from its tokens, read by recursive descent with one token of lookahead. The
first fault ends the reading. Elements may nest up to a fixed depth, on which the recursion runs; every
loop below it uses up at least one token in each round. -/
namespace XmlBinding

/-- Elements nested deeper than this are refused. -/
def maxDepth : Nat := 128

/-- The tokens still to be read, the first being the current one, and the supply of storage. -/
structure Parsing (σ : Type) where
  tokens : Tokens
  spare : σ

/-- A step of parsing, which keeps its state also when it fails. -/
abbrev Parse (σ : Type) := EStateM Error (Parsing σ)

namespace Parse

/-- The current token. -/
def current : Parse σ Token := do
  let state ← get
  match state.tokens.tokens with
  | token :: _ => return token
  | [] =>
    match state.tokens.last with
    | .ok token => return token
    | .error error => throw error

/-- Goes on with the given tokens, of which the first must be readable. -/
def moveTo (tokens : List Token) : Parse σ Unit := do
  modify fun state => { state with tokens := { state.tokens with tokens } }
  discard current

/-- The tokens that are left before the last. -/
def remaining : Parse σ (List Token) := do
  return (← get).tokens.tokens

/-- Moves to the next token and gives the one that was current. -/
def advance : Parse σ Token := do
  let token ← current
  moveTo (← remaining).tail
  return token

def failAt (fault : Fault) (position : Position) : Parse σ α :=
  throw (.malformed fault position)

/-- Fails at the current token. -/
def fail (fault : Fault) : Parse σ α := do
  failAt fault (← current).position

/-- Fails because the current token is not what the grammar allows. -/
def unexpected (expected : Expectation) : Parse σ α := do
  let token ← current
  failAt (.unexpectedToken expected token.finding) token.position

/-- Moves over a token that must be of the given kind. -/
def expect (kind : TokenKind) : Parse σ Token := do
  if (← current).kind = kind then advance else unexpected (.token kind)

/-- A map from the supply, for a new object. -/
def newProperties (supply : Supply σ) : Parse σ Properties :=
  modifyGet fun state =>
    let (properties, spare) := supply.takeProperties state.spare
    (properties, { state with spare })

/-- A list from the supply, for a new array. -/
def newItems (supply : Supply σ) : Parse σ (List Node) :=
  modifyGet fun state =>
    let (items, spare) := supply.takeItems state.spare
    (items, { state with spare })

end Parse

/-- Whether a token is text that consists of spaces only. -/
def Token.isBlankText (token : Token) : Bool :=
  token.kind = .text && token.lexeme.toList.all Text.isSpace

namespace Parse

def skipBlankText : Parse σ Unit := do
  moveTo ((← remaining).dropWhile Token.isBlankText)

/-- Moves over a section from its start through a token of the kind that ends it. -/
def skipSection (endKind : TokenKind) : Parse σ Unit := do
  discard advance
  match (← remaining).dropWhile fun token => token.kind ≠ endKind with
  | _ :: rest => moveTo rest
  | [] =>
    moveTo []
    fail .unexpectedEnd

/-- Moves over blank text and comments outside the root element. -/
def skipMisc : (fuel : Nat) → Parse σ Unit
  | 0 => return
  | fuel + 1 => do
    let token ← current
    if token.isBlankText then
      discard advance
      skipMisc fuel
    else if token.kind = .commentStart then
      skipSection .commentEnd
      skipMisc fuel

/-- Reads one attribute, whose name is current, into the properties. -/
def readAttribute (properties : Properties) : Parse σ Properties := do
  let name := (← advance).lexeme
  if (← current).kind ≠ .equals then fail (.expectedEquals name)
  discard advance
  let token ← current
  if token.kind = .text ∧ (token.lexeme = "\"" ∨ token.lexeme = "'") then fail .unterminatedString
  if token.kind ≠ .string then fail (.expectedAttributeValue name)
  discard advance
  let value := Text.decodeAttribute (Text.unquote token.lexeme)
  return properties.put (attributeKey name) (.literal value token.position)

/-- Reads the attributes of a tag and its end. The second result says whether the element ends with its
tag. -/
def restOfTag : (fuel : Nat) → Properties → Parse σ (Properties × Bool)
  | 0, _ => unexpected .restOfTag
  | fuel + 1, properties => do
    match (← current).kind with
    | .name => restOfTag fuel (← readAttribute properties)
    | .selfClose =>
      discard advance
      return (properties, true)
    | .tagClose =>
      discard advance
      return (properties, false)
    | _ => unexpected .restOfTag

end Parse

/-- What has been read of the content of an element. -/
structure Content where
  properties : Properties
  /-- The text runs so far, with the place of the first. -/
  text : String := ""
  textPosition? : Option Position := none
  /-- The bodies of the CDATA sections so far, with the place of the first. -/
  cdata? : Option (String × Position) := none

namespace Content

def addText (content : Content) (text : String) (position : Position) : Content :=
  { content with
    text := content.text ++ text
    textPosition? := content.textPosition?.or (some position) }

def addCData (content : Content) (body : String) (position : Position) : Content :=
  match content.cdata? with
  | none => { content with cdata? := some (body, position) }
  | some (earlier, first) => { content with cdata? := some (earlier ++ body, first) }

/-- The properties of the element that is complete. Its text counts without the spaces around it, and
only if anything is left. -/
def finish (content : Content) (position : Position) : Properties :=
  let trimmed := Text.trimSpace content.text
  let properties :=
    if trimmed = "" then content.properties
    else content.properties.put textKey
      (.literal (Text.unescape trimmed) (content.textPosition?.getD position))
  match content.cdata? with
  | none => properties
  | some (body, first) => properties.put cdataKey (.literal body first)

end Content

namespace Parse

/-- Adds a child element, drawing a list from the supply if the child is the second of its name. -/
def addChild (supply : Supply σ) (properties : Properties) (name : String) (child : Node) :
    Parse σ Properties := do
  let spare ←
    match properties.get? name with
    | none | some (.array _ _) => pure []
    | some _ => newItems supply
  return properties.insertWith (Node.coalesce spare) name child

/-- Reads the content of an element up to its closing tag, by a reader of one child element. -/
def content (supply : Supply σ) (child : Parse σ (String × Node)) (name : String) :
    (fuel : Nat) → Content → Parse σ Content
  | 0, _ => fail (.unclosedElement name)
  | fuel + 1, soFar => do
    let token ← current
    match token.kind with
    | .endTagOpen => return soFar
    | .text | .name =>
      discard advance
      content supply child name fuel (soFar.addText token.lexeme token.position)
    | .cdataStart =>
      discard advance
      let bodies := (← remaining).takeWhile fun token => token.kind = .cdataContent
      moveTo ((← remaining).drop bodies.length)
      discard (expect .cdataEnd)
      let body := bodies.foldl (fun text token => text ++ token.lexeme) ""
      content supply child name fuel (soFar.addCData body token.position)
    | .commentStart =>
      skipSection .commentEnd
      content supply child name fuel soFar
    | .tagOpen =>
      let (childName, node) ← child
      let properties ← addChild supply soFar.properties childName node
      content supply child name fuel { soFar with properties }
    | .endOfInput => fail (.unclosedElement name)
    | kind => fail (.unexpectedContent kind)

/-- Reads one element, in which elements may nest `levels` deep, itself included. A tag and a content have
at most `parts` parts. -/
def element (supply : Supply σ) (parts : Nat) : (levels : Nat) → Parse σ (String × Node)
  | 0 => do
    let start := (← current).position
    discard (expect .tagOpen)
    failAt (.nestingTooDeep maxDepth) start
  | levels + 1 => do
    let start := (← current).position
    discard (expect .tagOpen)
    if (← current).kind ≠ .name then fail .expectedElementName
    let name := (← advance).lexeme
    let (properties, isEmpty) ← restOfTag parts (← newProperties supply)
    if isEmpty then return (name, .object properties start)
    let inside ← content supply (element supply parts levels) name parts { properties }
    discard (expect .endTagOpen)
    if (← current).kind ≠ .name then fail .expectedClosingName
    let close ← advance
    if close.lexeme ≠ name then failAt (.mismatchedTags name close.lexeme) close.position
    discard (expect .tagClose)
    return (name, .object (inside.finish start) start)

/-- Reads a document: an optional declaration, one element, and comments around it. Each part of it takes at
least one token. -/
def document (supply : Supply σ) : Parse σ Node := do
  let parts := (← remaining).length
  discard current
  skipBlankText
  if (← current).kind = .declarationStart then skipSection .instructionEnd
  skipMisc parts
  let (_, root) ← element supply parts maxDepth
  skipMisc parts
  let token ← current
  if token.kind ≠ .endOfInput then failAt .trailingContent token.position
  return root

end Parse

namespace Node

/-- The tree of a document from its tokens. -/
def ofTokens (tokens : Tokens) : Except Error Node :=
  match Parse.document .fresh ⟨tokens, ()⟩ with
  | .ok root _ => .ok root
  | .error error _ => .error error

/-- The tree of a document in some bytes. -/
def ofBytes (bytes : List UInt8) : Except Error Node :=
  ofTokens (Lexer.ofBytes bytes).tokens

/-- The tree of a document that a source delivers. -/
def ofSource (source : Source) : Except Error Node :=
  ofTokens (Lexer.ofSource source).tokens

end Node

namespace Storage

/-- The tree of the document that a lexer reads, built from what is kept, and the storage that is left. -/
def parseFrom (storage : Storage) (lexer : Lexer) : Except Error Node × Storage :=
  match Parse.document supply ⟨lexer.tokens, storage⟩ with
  | .ok root state => (.ok root, state.spare)
  | .error error state => (.error error, state.spare)

end Storage

end XmlBinding
