/-!
# Faults in a JSON text

What is wrong with a text that is not JSON, and where. The place of a fault is found by reading
from the left: it is the first byte that no JSON text can have there, or the end of a text that
stops too early.
-/

namespace LibraryContract

namespace Json

/-- A place between two bytes of a text: its line, and the number of bytes before it on that
line. The first line has the number one. -/
structure Position where
  line : Nat
  column : Nat
deriving DecidableEq, Repr

namespace Position

/-- The place before a text. -/
def start : Position := ⟨1, 0⟩

/-- The place after a character. -/
def past (p : Position) (c : Char) : Position :=
  if c = '\n' then ⟨p.line + 1, 0⟩ else ⟨p.line, p.column + c.utf8Size⟩

/-- The place after the first byte of a character. -/
def into (p : Position) (c : Char) : Position :=
  if c = '\n' then ⟨p.line + 1, 0⟩ else ⟨p.line, p.column + 1⟩

end Position

/-- What can be wrong in a JSON text. -/
inductive FaultCause
  | endInValue
  | endInString
  | endInArray
  | endInObject
  | expectedValue
  | expectedWord
  | expectedColon
  | expectedItemSeparator
  | expectedMemberSeparator
  | nameNotString
  | invalidNumber
  | invalidEscape
  | controlCharacter
  | trailingCharacters
deriving DecidableEq, Repr

namespace FaultCause

def describe : FaultCause → String
  | endInValue => "EOF while parsing a value"
  | endInString => "EOF while parsing a string"
  | endInArray => "EOF while parsing a list"
  | endInObject => "EOF while parsing an object"
  | expectedValue => "expected value"
  | expectedWord => "expected ident"
  | expectedColon => "expected `:`"
  | expectedItemSeparator => "expected `,` or `]`"
  | expectedMemberSeparator => "expected `,` or `\x7d`"
  | nameNotString => "key must be a string"
  | invalidNumber => "invalid number"
  | invalidEscape => "invalid escape"
  | controlCharacter => "control character (\\u0000-\\u001F) found while parsing a string"
  | trailingCharacters => "trailing characters"

end FaultCause

/-- Why a text is not JSON. -/
structure Fault where
  cause : FaultCause
  /-- The place after the first byte that cannot stand where it does, or the end of the text. -/
  position : Position
deriving DecidableEq, Repr

namespace Fault

def message (f : Fault) : String :=
  s!"{f.cause.describe} at line {f.position.line} column {f.position.column}"

end Fault

end Json

end LibraryContract
