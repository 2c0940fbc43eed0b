/-!
# Syntax errors

Why a text is not a document, and where. While a text is being read a place in it is what remains to
be read, plus a number of bytes into that; line and column are worked out from the whole text once
an error is final. Columns count bytes.
-/

namespace TypedSettings

/-- Why a text is not a document. -/
inductive SyntaxCause where
  | endOfValue
  | endOfString
  | endOfList
  | endOfObject
  | endOfComment
  | expectedIdent
  | expectedValue
  | expectedComment
  | expectedListSeparator
  | expectedObjectSeparator
  | expectedColon
  | keyNotString
  | trailingCharacters
  | recursionLimit
  | invalidNumber
  | numberOutOfRange
  | controlCharacter
  | invalidEscape
  | loneSurrogate
  | unfinishedSurrogate
  deriving DecidableEq, Repr

/-- The wording of a cause. -/
def SyntaxCause.message : SyntaxCause → String
  | .endOfValue => "EOF while parsing a value"
  | .endOfString => "EOF while parsing a string"
  | .endOfList => "EOF while parsing a list"
  | .endOfObject => "EOF while parsing an object"
  | .endOfComment => "EOF while parsing a block comment"
  | .expectedIdent => "expected ident"
  | .expectedValue => "expected value"
  | .expectedComment => "expected `/` or `*` after `/`"
  | .expectedListSeparator => "expected `,` or `]`"
  | .expectedObjectSeparator => "expected `,` or `\x7d`"
  | .expectedColon => "expected `:`"
  | .keyNotString => "key must be a string"
  | .trailingCharacters => "trailing characters"
  | .recursionLimit => "recursion limit exceeded"
  | .invalidNumber => "invalid number"
  | .numberOutOfRange => "number out of range"
  | .controlCharacter => "control character (\\u0000-\\u001F) found while parsing a string"
  | .invalidEscape => "invalid escape"
  | .loneSurrogate => "lone leading surrogate in hex escape"
  | .unfinishedSurrogate => "unexpected end of hex escape"

/-! ## §1 Places and positions -/

/-- A place in a text: `ahead` bytes into what remains to be read, but not beyond its end. -/
structure Place where
  rest : List Char
  ahead : Nat
  deriving DecidableEq, Repr

namespace Place

/-- Just before what remains. -/
def before (rest : List Char) : Place := ⟨rest, 0⟩

/-- Just after the first byte of what remains, where an unexpected character is reported. -/
def onto (rest : List Char) : Place := ⟨rest, 1⟩

/-- The end of the text. -/
def atEnd : Place := ⟨[], 0⟩

end Place

/-- A line, counted from one, and the number of bytes since its start. -/
structure Position where
  line : Nat
  column : Nat
  deriving DecidableEq, Repr

namespace Position

/-- The start of a text. -/
def start : Position := ⟨1, 0⟩

/-- The position `bytes` further on; it may fall inside a character. -/
def advance (bytes : Nat) : List Char → Position → Position
  | [], position => position
  | c :: rest, position =>
    if bytes < c.utf8Size then
      { position with column := position.column + bytes }
    else
      advance (bytes - c.utf8Size) rest
        (if c = '\n' then ⟨position.line + 1, 0⟩
         else { position with column := position.column + c.utf8Size })

end Position

/-- The length of a text in bytes. -/
def byteLength (text : List Char) : Nat :=
  text.foldr (fun c total => c.utf8Size + total) 0

/-- The position of a place in the text it was taken from. -/
def Place.position (text : List Char) (place : Place) : Position :=
  Position.start.advance (byteLength text - byteLength place.rest + place.ahead) text

/-! ## §2 Errors -/

/-- A cause at a place of the text being read. -/
structure LocalError where
  cause : SyntaxCause
  place : Place
  deriving DecidableEq, Repr

/-- A cause at a position of a whole text. -/
structure SyntaxError where
  cause : SyntaxCause
  position : Position
  deriving DecidableEq, Repr

namespace SyntaxError

/-- An error of the text it was found in. -/
def ofLocal (text : List Char) (e : LocalError) : SyntaxError :=
  ⟨e.cause, e.place.position text⟩

/-- The wording of an error with its position. -/
def message (e : SyntaxError) : String :=
  s!"{e.cause.message} at line {e.position.line} column {e.position.column}"

end SyntaxError

end TypedSettings
