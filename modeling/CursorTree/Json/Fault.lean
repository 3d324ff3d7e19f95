/-
CursorTree.Json.Fault — what can be wrong with a JSON text.

A text is read strictly from left to right, and the first thing that is
wrong ends the reading.  Each cause has one wording.
-/

namespace CursorTree.Json

/-- Why a text is not JSON. -/
inductive Fault where
  /-- The text ends where a value should be, or inside a word or a number. -/
  | endInValue
  /-- The text ends inside a string. -/
  | endInString
  /-- The text ends inside a list. -/
  | endInList
  /-- The text ends inside an object. -/
  | endInObject
  /-- No value starts with this character. -/
  | noValue
  /-- A word other than the three that are values. -/
  | wrongWord
  /-- A digit is missing, or follows a leading zero. -/
  | badNumber
  /-- The number is beyond every float. -/
  | hugeNumber
  /-- A control character stands in a string. -/
  | controlCharacter
  /-- A backslash is followed by something that it cannot escape. -/
  | badEscape
  /-- One half of a surrogate pair stands alone. -/
  | loneSurrogate
  /-- The first half of a surrogate pair is not followed by an escape. -/
  | cutSurrogate
  /-- The name of an object's member is not a string. -/
  | badKey
  /-- No colon follows the name of a member. -/
  | noColon
  /-- Neither a comma nor the end follows an element of a list. -/
  | noListEnd
  /-- Neither a comma nor the end follows a member of an object. -/
  | noObjectEnd
  /-- A comma is followed by the end of a list or an object. -/
  | trailingComma
  /-- Something follows the value. -/
  | trailingText
  /-- Lists and objects are nested too deep. -/
  | tooDeep
  deriving DecidableEq, Inhabited

/-- The wording of a fault. -/
def Fault.message : Fault → String
  | endInValue => "EOF while parsing a value"
  | endInString => "EOF while parsing a string"
  | endInList => "EOF while parsing a list"
  | endInObject => "EOF while parsing an object"
  | noValue => "expected value"
  | wrongWord => "expected ident"
  | badNumber => "invalid number"
  | hugeNumber => "number out of range"
  | controlCharacter => "control character (\\u0000-\\u001F) found while parsing a string"
  | badEscape => "invalid escape"
  | loneSurrogate => "lone leading surrogate in hex escape"
  | cutSurrogate => "unexpected end of hex escape"
  | badKey => "key must be a string"
  | noColon => "expected `:`"
  | noListEnd => "expected `,` or `]`"
  | noObjectEnd => "expected `,` or `\x7d`"
  | trailingComma => "trailing comma"
  | trailingText => "trailing characters"
  | tooDeep => "recursion limit exceeded"

/-- A reader takes a text to what it read and the text behind it. -/
abbrev Reader (α : Type) := List Char → Except Fault (α × List Char)

/-- The four characters that may stand between tokens. -/
def isBlank (c : Char) : Bool := c = ' ' || c = '\n' || c = '\t' || c = '\r'

/-- A text without the blanks in front. -/
def skipBlanks (cs : List Char) : List Char := cs.dropWhile isBlank

end CursorTree.Json
