import LibraryContract.Json.Basic
import LibraryContract.Json.Fault

/-!
# Tokens of a JSON text

The scanner is a machine that takes one character at a time (`Scanner.step`), so scanning a text
is a fold over its characters and needs no bound. Between tokens only the four blanks of JSON may
stand; a number ends at the first character that cannot belong to one.

A piece of text that is no token stands among the tokens, as the last of them, with its fault.
Whether that is what is wrong with the text is decided by what may come in its place.
-/

namespace LibraryContract

namespace Json

/-- A piece of a JSON text. -/
inductive Token
  | openObject
  | closeObject
  | openArray
  | closeArray
  | colon
  | comma
  | null
  | bool (value : Bool)
  | number (value : Number)
  | string (text : Option String)
  /-- A character that no token starts with. -/
  | stray
  /-- The start of a word or of a number, up to a fault. -/
  | brokenScalar (fault : Fault)
  /-- The start of a string, up to a fault. -/
  | brokenString (fault : Fault)
deriving DecidableEq, Repr

/-- A token in its text. -/
structure Lexeme where
  token : Token
  /-- The place after the first byte of the token. -/
  position : Position
deriving DecidableEq, Repr

/-- A string that is being read. -/
structure Quoted where
  /-- The characters so far, last first. -/
  reversed : List Char
  /-- The first half of a surrogate pair that still lacks its second half. -/
  lead : Option Nat
  /-- Whether every half of a pair so far found its other half. -/
  paired : Bool
deriving Repr

namespace Quoted

/-- A string of which nothing has been read. -/
def start : Quoted := ⟨[], none, true⟩

/-- The string with a character more. -/
def push (q : Quoted) (c : Char) : Quoted := ⟨c :: q.reversed, none, q.paired && q.lead.isNone⟩

/-- Whether a code unit is the first half of a surrogate pair. -/
def isLead (unit : Nat) : Bool := decide (0xd800 ≤ unit ∧ unit ≤ 0xdbff)

/-- Whether a code unit is the second half of a surrogate pair. -/
def isTrail (unit : Nat) : Bool := decide (0xdc00 ≤ unit ∧ unit ≤ 0xdfff)

/-- The string with a code unit more. -/
def pushUnit (q : Quoted) (unit : Nat) : Quoted :=
  if isTrail unit then
    match q.lead with
    | some lead =>
      let c := Char.ofNat (0x10000 + (lead - 0xd800) * 0x400 + (unit - 0xdc00))
      ⟨c :: q.reversed, none, q.paired⟩
    | none => { q with paired := false }
  else if isLead unit then { q with lead := some unit, paired := q.paired && q.lead.isNone }
  else q.push (Char.ofNat unit)

/-- The finished string; `none` when half of a pair was left alone. -/
def finish (q : Quoted) : Option String :=
  if q.paired && q.lead.isNone then some (String.ofList q.reversed.reverse) else none

end Quoted

namespace Scanner

/-- Where in a text the scanner stands. -/
inductive Mode
  | between
  /-- Inside a word: the letters that must follow, and its token. -/
  | word (rest : List Char) (token : Token)
  /-- Inside a number: how far it got, and its characters so far, last first. -/
  | number (phase : Numeral.Phase) (reversed : List Char)
  | quoted (q : Quoted)
  /-- After the backslash of an escape. -/
  | escape (q : Quoted)
  /-- Inside an escaped code unit: the digits to come, and the value so far, if all were digits. -/
  | unit (q : Quoted) (digits : Nat) (value : Option Nat)
  /-- After a fault. -/
  | stopped
deriving Repr

end Scanner

/-- A text that is being cut into tokens. -/
structure Scanner where
  /-- The tokens so far, last first. -/
  reversed : List Lexeme
  mode : Scanner.Mode
  /-- The place after the first byte of the token that is being read. -/
  origin : Position
  /-- The place after the last character. -/
  position : Position
deriving Repr

namespace Scanner

/-- A scanner at the start of a text. -/
def start : Scanner := ⟨[], .between, .start, .start⟩

/-- The scanner after one more token, which goes on in the given mode. -/
def push (s : Scanner) (t : Token) (mode : Mode) : Scanner :=
  { s with reversed := ⟨t, s.origin⟩ :: s.reversed, mode := mode }

/-- The scanner after one more token. -/
def emit (s : Scanner) (t : Token) : Scanner := s.push t .between

/-- The scanner after a word or a number with a fault. -/
def breakScalar (s : Scanner) (cause : FaultCause) (position : Position) : Scanner :=
  s.push (.brokenScalar ⟨cause, position⟩) .stopped

/-- The scanner after a string with a fault. -/
def breakString (s : Scanner) (cause : FaultCause) (position : Position) : Scanner :=
  s.push (.brokenString ⟨cause, position⟩) .stopped

def isBlank (c : Char) : Bool := c == ' ' || c == '\n' || c == '\t' || c == '\r'

def hexDigit? (c : Char) : Option Nat :=
  if c.isDigit then some (c.toNat - '0'.toNat)
  else if 'a' ≤ c ∧ c ≤ 'f' then some (c.toNat - 'a'.toNat + 10)
  else if 'A' ≤ c ∧ c ≤ 'F' then some (c.toNat - 'A'.toNat + 10)
  else none

/-- The character of an escape of one letter. -/
def escaped? (c : Char) : Option Char :=
  match c with
  | '"' => some '"'
  | '\\' => some '\\'
  | '/' => some '/'
  | 'b' => some (Char.ofNat 0x08)
  | 'f' => some (Char.ofNat 0x0c)
  | 'n' => some '\n'
  | 'r' => some '\r'
  | 't' => some '\t'
  | _ => none

/-- The first character of a token. -/
def beginToken (s : Scanner) (c : Char) : Scanner :=
  match c with
  | '\x7b' => s.emit .openObject
  | '\x7d' => s.emit .closeObject
  | '[' => s.emit .openArray
  | ']' => s.emit .closeArray
  | ':' => s.emit .colon
  | ',' => s.emit .comma
  | '"' => { s with mode := .quoted .start }
  | 'n' => { s with mode := .word ['u', 'l', 'l'] .null }
  | 't' => { s with mode := .word ['r', 'u', 'e'] (.bool true) }
  | 'f' => { s with mode := .word ['a', 'l', 's', 'e'] (.bool false) }
  | c =>
    match Numeral.Phase.first? c with
    | some phase => { s with mode := .number phase [c] }
    | none => s.push .stray .stopped

/-- One character where a token may start. -/
def stepBetween (s : Scanner) (c : Char) : Scanner :=
  if isBlank c then s else beginToken { s with origin := s.position.into c } c

/-- One character inside a word. -/
def stepWord (s : Scanner) (rest : List Char) (t : Token) (c : Char) : Scanner :=
  match rest with
  | [] => s.breakScalar .expectedWord (s.position.into c)
  | l :: rest =>
    if c == l then if rest.isEmpty then s.emit t else { s with mode := .word rest t }
    else s.breakScalar .expectedWord (s.position.into c)

/-- One character inside a number or right after it; after a whole part no digit can stand. -/
def stepNumber (s : Scanner) (phase : Numeral.Phase) (reversed : List Char) (c : Char) : Scanner :=
  match phase.next? c with
  | some phase => { s with mode := .number phase (c :: reversed) }
  | none =>
    match if c.isDigit then none else Number.ofText? reversed.reverse with
    | some n => (s.emit (.number n)).stepBetween c
    | none => s.breakScalar .invalidNumber (s.position.into c)

/-- One character inside a string. -/
def stepQuoted (s : Scanner) (q : Quoted) (c : Char) : Scanner :=
  if c == '"' then s.emit (.string q.finish)
  else if c == '\\' then { s with mode := .escape q }
  else if c.toNat < 0x20 then s.breakString .controlCharacter (s.position.into c)
  else { s with mode := .quoted (q.push c) }

/-- The character after a backslash. -/
def stepEscape (s : Scanner) (q : Quoted) (c : Char) : Scanner :=
  if c == 'u' then { s with mode := .unit q 4 (some 0) }
  else
    match escaped? c with
    | some e => { s with mode := .quoted (q.push e) }
    | none => s.breakString .invalidEscape (s.position.into c)

/-- One digit of an escaped code unit, which is judged after its last one. -/
def stepUnit (s : Scanner) (q : Quoted) (digits : Nat) (value : Option Nat) (c : Char) : Scanner :=
  let value := value.bind fun v => (hexDigit? c).map fun d => 16 * v + d
  if 1 < digits then { s with mode := .unit q (digits - 1) value }
  else
    match value with
    | some unit => { s with mode := .quoted (q.pushUnit unit) }
    | none => s.breakString .invalidEscape (s.position.into c)

/-- The scanner after one more character, before its place is moved on. -/
def read (s : Scanner) (c : Char) : Scanner :=
  match s.mode with
  | .between => s.stepBetween c
  | .word rest t => s.stepWord rest t c
  | .number phase reversed => s.stepNumber phase reversed c
  | .quoted q => s.stepQuoted q c
  | .escape q => s.stepEscape q c
  | .unit q digits value => s.stepUnit q digits value c
  | .stopped => s

/-- The scanner after one more character. -/
def step (s : Scanner) (c : Char) : Scanner := { s.read c with position := s.position.past c }

/-- The scanner after the end of the text. -/
def finish (s : Scanner) : Scanner :=
  match s.mode with
  | .between | .stopped => s
  | .word _ _ => s.breakScalar .endInValue s.position
  | .number _ reversed =>
    match Number.ofText? reversed.reverse with
    | some n => s.emit (.number n)
    | none => s.breakScalar .invalidNumber s.position
  | .quoted _ | .escape _ | .unit .. => s.breakString .endInString s.position

end Scanner

/-- The scanner after a whole text. -/
def Scanner.ofText (text : String) : Scanner := (text.toList.foldl Scanner.step .start).finish

end Json

end LibraryContract
