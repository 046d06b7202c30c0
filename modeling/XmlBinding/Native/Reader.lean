import XmlBinding.Document.OfTokens
import XmlBinding.Native.Value

/-! Reading a document straight from the bytes, without tokens and without a tree. What is made of it is
left to a builder: one makes nothing, so that only well-formedness is decided, and one makes native
values. -/
namespace XmlBinding

/-- Says what is made of an element and its parts. -/
structure Builder (ε : Type) where
  /-- Whether texts are wanted at all. -/
  keepsText : Bool
  element : ε
  addAttribute : ε → String → String → ε
  addText : ε → String → ε
  addCData : ε → String → ε
  addChild : ε → String → ε → ε

namespace Builder

/-- Makes nothing. -/
def nothing : Builder Unit where
  keepsText := false
  element := ()
  addAttribute _ _ _ := ()
  addText _ _ := ()
  addCData _ _ := ()
  addChild _ _ _ := ()

/-- Makes the entries of a map. -/
def entries : Builder Entries where
  keepsText := true
  element := []
  addAttribute element name value := element.put (attributeKey name) (.string value)
  addText element text := element.put textKey (.string text)
  addCData element cdata := element.put cdataKey (.string cdata)
  addChild element name child := element.insertChild name (.map child)

end Builder

/-- A step of reading. A failed reading is given up, and its stream with it. -/
abbrev Reading := StateT Stream (Except Error)

namespace Reading

/-- Fails at a place, unless the input was cut short, which is reported instead. -/
def failAt (fault : Fault) (position : Position) : Reading α := do
  match (← get).failure with
  | some cause => throw (.readFailed cause)
  | none => throw (.malformed fault position)

/-- Fails at the cursor. -/
def fail (fault : Fault) : Reading α := do
  failAt fault (← get).position

def startsWith (literal : String) : Reading Bool :=
  modifyGet (·.startsWith (Text.bytes literal))

def eat (literal : String) : Reading Bool :=
  modifyGet (·.eat (Text.bytes literal))

def isAtEnd : Reading Bool :=
  modifyGet (·.isAtEnd)

def skipSpace : Reading Unit :=
  modify (·.skipSpace)

/-- Begins a lexeme at the cursor. -/
def mark : Reading Nat :=
  modifyGet fun input => (input.offset, input.setMark)

def ask (scan : Scan α) : Reading α :=
  modifyGet (·.run scan)

def advance (length : Nat) : Reading Unit :=
  modify (·.advance length)

/-- The bytes that are still to be read, at most. -/
def remaining : Reading Nat := do
  return ({ input := ← get } : Lexer).remaining

/-- The text since an offset. -/
def textFrom (start : Nat) : Reading String := do
  (← get).textFrom start

/-- Checks the text since an offset without making it. -/
def checkFrom (start : Nat) : Reading Unit := do
  (← get).checkFrom start

/-- The text since an offset, if texts are wanted; otherwise it is only checked. -/
def lexeme (keepsText : Bool) (start : Nat) : Reading (Option String) := do
  if keepsText then
    return some (← textFrom start)
  else
    checkFrom start
    return none

/-- A text has to be valid whether or not it is wanted. -/
theorem lexeme_eq (keepsText : Bool) (start : Nat) : lexeme keepsText start =
    textFrom start >>= fun text => pure (if keepsText then some text else none) := by
  cases keepsText with
  | true => rfl
  | false =>
    funext s
    change ((s.checkFrom start).map fun _ => ((), s)).bind _ = ((s.textFrom start).map fun text => (text, s)).bind _
    rw [Stream.checkFrom_eq]
    cases s.textFrom start <;> rfl

/-- What stands at the cursor where something else was expected. -/
def finding : Reading Finding := do
  match ← modifyGet (·.peek) with
  | none => return .endOfInput
  | some b => return if b < 0x80 then .character (Char.ofNat b.toNat) else .byte b

/-- Reads a section whose opening is ahead, and gives its body if texts are wanted. -/
def delimited (keepsText : Bool) (sec : Section) : Reading (Option String) := do
  let start := (← get).position
  advance (Text.bytes sec.opening).length
  let bodyStart ← mark
  match ← ask (.find (Text.bytes sec.terminator)) with
  | none => failAt sec.unterminated start
  | some length =>
    advance length
    let body ← lexeme keepsText bodyStart
    advance (Text.bytes sec.terminator).length
    return body

/-- Moves over spaces and comments outside the root element. -/
def skipMisc (keepsText : Bool) : (fuel : Nat) → Reading Unit
  | 0 => skipSpace
  | fuel + 1 => do
    skipSpace
    if ← startsWith Section.comment.opening then
      discard (delimited keepsText .comment)
      skipMisc keepsText fuel

/-- Reads a name, which must be there. -/
def name (missing : Fault) : Reading String := do
  let start ← mark
  let length ← ask .nameLength
  if length = 0 then fail missing
  advance length
  textFrom start

/-- Reads one attribute into an element. -/
def readAttribute (builder : Builder ε) (element : ε) : Reading ε := do
  let name ← name .expectedAttributeName
  skipSpace
  unless ← eat "=" do fail (.expectedEquals name)
  skipSpace
  let start ← mark
  unless (← modifyGet (·.peek)).any Lexer.isQuote do fail (.expectedAttributeValue name)
  match ← ask .quotedLength with
  | none => fail .unterminatedString
  | some length =>
    advance length
    match ← lexeme builder.keepsText start with
    | none => return element
    | some raw => return builder.addAttribute element name (Text.decodeAttribute (Text.unquote raw))

/-- Reads the attributes of a tag and its end. The second result says whether the element ends with its
tag. -/
def restOfTag (builder : Builder ε) : (fuel : Nat) → ε → Reading (ε × Bool)
  | 0, _ => fail .unexpectedEnd
  | fuel + 1, element => do
    skipSpace
    if ← eat "/>" then return (element, true)
    if ← eat ">" then return (element, false)
    if ← isAtEnd then fail .unexpectedEnd
    restOfTag builder fuel (← readAttribute builder element)

/-- Ends an element with the text and CDATA read inside it. -/
def finish (builder : Builder ε) (element : ε) (text : String) (cdata? : Option String) : ε :=
  let trimmed := Text.trimSpace text
  let element := if trimmed = "" then element else builder.addText element (Text.unescape trimmed)
  match cdata? with
  | none => element
  | some body => builder.addCData element body

/-- Reads the content of an element up to its closing tag, by a reader of one child element. -/
def content (builder : Builder ε) (child : Reading (String × ε)) (name : String) :
    (fuel : Nat) → ε → (text : String) → (cdata? : Option String) → Reading ε
  | 0, _, _, _ => fail (.unclosedElement name)
  | fuel + 1, element, text, cdata? => do
    if ← isAtEnd then fail (.unclosedElement name)
    if ← startsWith "</" then
      return finish builder element text cdata?
    else if ← startsWith Section.comment.opening then
      discard (delimited builder.keepsText .comment)
      content builder child name fuel element text cdata?
    else if ← startsWith Section.cdata.opening then
      let body ← delimited builder.keepsText .cdata
      content builder child name fuel element text (some (cdata?.getD "" ++ body.getD ""))
    else if ← startsWith "<?" then
      fail (.unexpectedContent .instructionStart)
    else if ← startsWith "<" then
      let (childName, inner) ← child
      content builder child name fuel (builder.addChild element childName inner) text cdata?
    else
      let start ← mark
      advance (← ask .textLength)
      let run ← lexeme builder.keepsText start
      content builder child name fuel element (text ++ run.getD "") cdata?

/-- Reads one element, in which elements may nest `levels` deep, itself included. A tag and a content have
at most `parts` parts. -/
def element (builder : Builder ε) (parts : Nat) : (levels : Nat) → Reading (String × ε)
  | 0 => do
    let start := (← get).position
    unless ← eat "<" do fail (.unexpectedToken (.token .tagOpen) (← finding))
    throw (.malformed (.nestingTooDeep maxDepth) start)
  | levels + 1 => do
    unless ← eat "<" do fail (.unexpectedToken (.token .tagOpen) (← finding))
    let opening ← name .expectedElementName
    let (made, isEmpty) ← restOfTag builder parts builder.element
    if isEmpty then return (opening, made)
    let made ← content builder (element builder parts levels) opening parts made "" none
    advance 2
    let closePosition := (← get).position
    let closing ← name .expectedClosingName
    if closing ≠ opening then throw (.malformed (.mismatchedTags opening closing) closePosition)
    skipSpace
    unless ← eat ">" do fail (.unexpectedToken (.token .tagClose) (← finding))
    return (opening, made)

/-- Reads a document: an optional declaration, one element, and comments around it. Each part of it takes at
least one byte. -/
def document (builder : Builder ε) : Reading ε := do
  let parts ← remaining
  skipSpace
  if ← startsWith Section.declaration.opening then
    discard (delimited builder.keepsText .declaration)
  skipMisc builder.keepsText parts
  let (_, root) ← element builder parts maxDepth
  skipMisc builder.keepsText parts
  unless ← isAtEnd do fail .trailingContent
  match (← get).failure with
  | some cause => throw (.readFailed cause)
  | none => return root

end Reading

/-- Decides whether a stream holds a well-formed document. -/
def validate (input : Stream) : Except Error Unit :=
  (Reading.document .nothing input).map Prod.fst

/-- The content of the root element of the document that a stream holds. -/
def Value.ofStream (input : Stream) : Except Error Value :=
  (Reading.document .entries input).map fun result => .map result.1

end XmlBinding
