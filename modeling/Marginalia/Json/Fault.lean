import Marginalia.Text.Ascii

/-!
# Faults of a JSON text

Why a text could not be read and where: a fault keeps the characters that were
still ahead, so its place in the text is what has been read by then.
-/

namespace Marginalia

namespace Json

inductive Cause where
  | endInList
  | endInObject
  | endInString
  | endInValue
  | expectedColon
  | expectedListCommaOrEnd
  | expectedObjectCommaOrEnd
  | expectedWord
  | expectedValue
  | invalidEscape
  | invalidNumber
  | numberOutOfRange
  | controlCharacter
  | keyMustBeString
  | loneSurrogate
  | endOfHexEscape
  | trailingComma
  | trailingCharacters
  | tooDeep
  /-- The text is sound, but its value is not of the kind that was asked for. -/
  | unsuitable
  deriving DecidableEq, Repr

inductive Category where
  | syntaxError
  | dataError
  | endOfText
  deriving DecidableEq, Repr

namespace Cause

def category : Cause → Category
  | endInList | endInObject | endInString | endInValue => .endOfText
  | unsuitable => .dataError
  | _ => .syntaxError

def message : Cause → String
  | endInList => "EOF while parsing a list"
  | endInObject => "EOF while parsing an object"
  | endInString => "EOF while parsing a string"
  | endInValue => "EOF while parsing a value"
  | expectedColon => "expected `:`"
  | expectedListCommaOrEnd => "expected `,` or `]`"
  | expectedObjectCommaOrEnd => "expected `,` or `\x7d`"
  | expectedWord => "expected ident"
  | expectedValue => "expected value"
  | invalidEscape => "invalid escape"
  | invalidNumber => "invalid number"
  | numberOutOfRange => "number out of range"
  | controlCharacter => "control character (\\u0000-\\u001F) found while parsing a string"
  | keyMustBeString => "key must be a string"
  | loneSurrogate => "lone leading surrogate in hex escape"
  | endOfHexEscape => "unexpected end of hex escape"
  | trailingComma => "trailing comma"
  | trailingCharacters => "trailing characters"
  | tooDeep => "recursion limit exceeded"
  | unsuitable => "unsuitable value"

end Cause

/--
A cause together with its place: the characters not yet read, and the number of
bytes after them that the place lies further on.
-/
structure Fault where
  cause : Cause
  ahead : List Char
  further : Nat := 0
  deriving DecidableEq, Repr

namespace Fault

def readBytes (fault : Fault) (text : List Char) : List UInt8 :=
  let bytes := (String.ofList text).toUTF8.toList
  let ahead := (String.ofList fault.ahead).utf8ByteSize
  bytes.take (bytes.length - ahead + fault.further)

/--
The line, counted from one, and the column: the number of bytes read since the
last line feed.
-/
def position (fault : Fault) (text : List Char) : Nat × Nat :=
  let bytes := fault.readBytes text
  (1 + bytes.count 10, (bytes.reverse.takeWhile (· != 10)).length)

def message (fault : Fault) (text : List Char) : String :=
  let (line, column) := fault.position text
  s!"{fault.cause.message} at line {line} column {column}"

end Fault

end Json

end Marginalia
