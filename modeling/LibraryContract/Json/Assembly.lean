import LibraryContract.Json.Token

/-!
# From a JSON text to a value

Values are put together on a stack of open arrays and objects, one token at a time, so any depth
of nesting is read without recursion on the text (`Json.ofText`). How deep a document may nest
is decided where its values are used.

A token that may not come next is a fault at its place; what is wrong inside a token counts only
where a token of that kind may come.
-/

namespace LibraryContract

namespace Json

namespace Assembly

/-- An array or an object in which a value is being read; what came before it stands last first. -/
inductive Frame
  | array (items : List Json)
  | object (members : List (Option String × Json)) (name : Option String)
deriving Repr

/-- What may come next. -/
inductive Expected
  | value
  /-- The first item of an array, or its end. -/
  | itemOrEnd
  /-- The first member of an object, or its end. -/
  | memberOrEnd
  /-- The name of one more member. -/
  | name (members : List (Option String × Json))
  | colon (members : List (Option String × Json)) (name : Option String)
  /-- A comma, or the end of an array. -/
  | itemSeparator (items : List Json)
  /-- A comma, or the end of an object. -/
  | memberSeparator (members : List (Option String × Json))
  /-- Nothing: the document is complete. -/
  | nothing (document : Json)
deriving Repr

end Assembly

/-- A document that is being put together. -/
structure Assembly where
  /-- The open arrays and objects around what comes next, innermost first. -/
  stack : List Assembly.Frame
  expected : Assembly.Expected
deriving Repr

namespace Assembly

/-- Before the first token. -/
def start : Assembly := ⟨[], .value⟩

/-- The finished value `v` takes its place in what is open. -/
def place (stack : List Frame) (v : Json) : Assembly :=
  match stack with
  | [] => ⟨[], .nothing v⟩
  | .array items :: rest => ⟨rest, .itemSeparator (v :: items)⟩
  | .object members name :: rest => ⟨rest, .memberSeparator ((name, v) :: members)⟩

/-- A token where a value must start. -/
def beginValue (stack : List Frame) (t : Lexeme) : Except Fault Assembly :=
  match t.token with
  | .openObject => .ok ⟨stack, .memberOrEnd⟩
  | .openArray => .ok ⟨stack, .itemOrEnd⟩
  | .null => .ok (place stack .null)
  | .bool b => .ok (place stack (.bool b))
  | .number n => .ok (place stack (.number n))
  | .string s => .ok (place stack (.string s))
  | .brokenScalar fault | .brokenString fault => .error fault
  | _ => .error ⟨.expectedValue, t.position⟩

/-- A token where a member's name must stand. -/
def beginMember (stack : List Frame) (members : List (Option String × Json)) (t : Lexeme) :
    Except Fault Assembly :=
  match t.token with
  | .string s => .ok ⟨stack, .colon members s⟩
  | .brokenString fault => .error fault
  | _ => .error ⟨.nameNotString, t.position⟩

/-- One more token. -/
def step (a : Assembly) (t : Lexeme) : Except Fault Assembly :=
  match a.expected, t.token with
  | .value, _ => beginValue a.stack t
  | .itemOrEnd, .closeArray => .ok (place a.stack (.array []))
  | .itemOrEnd, _ => beginValue (.array [] :: a.stack) t
  | .memberOrEnd, .closeObject => .ok (place a.stack (.object []))
  | .memberOrEnd, _ => beginMember a.stack [] t
  | .name members, _ => beginMember a.stack members t
  | .colon members name, .colon => .ok ⟨.object members name :: a.stack, .value⟩
  | .colon _ _, _ => .error ⟨.expectedColon, t.position⟩
  | .itemSeparator items, .comma => .ok ⟨.array items :: a.stack, .value⟩
  | .itemSeparator items, .closeArray => .ok (place a.stack (.array items.reverse))
  | .itemSeparator _, _ => .error ⟨.expectedItemSeparator, t.position⟩
  | .memberSeparator members, .comma => .ok ⟨a.stack, .name members⟩
  | .memberSeparator members, .closeObject => .ok (place a.stack (.object members.reverse))
  | .memberSeparator _, _ => .error ⟨.expectedMemberSeparator, t.position⟩
  | .nothing _, _ => .error ⟨.trailingCharacters, t.position⟩

/-- The document, when it is complete at the end of the text. -/
def finish (a : Assembly) (position : Position) : Except Fault Json :=
  match a.expected with
  | .nothing document => .ok document
  | .value => .error ⟨.endInValue, position⟩
  | .itemOrEnd | .itemSeparator _ => .error ⟨.endInArray, position⟩
  | .memberOrEnd | .name _ | .colon _ _ | .memberSeparator _ => .error ⟨.endInObject, position⟩

end Assembly

/-- The value of a JSON text, or the first fault of a text that is not strict JSON. -/
def ofText (text : String) : Except Fault Json := do
  let scanner := Scanner.ofText text
  let assembly ← scanner.reversed.reverse.foldlM Assembly.step .start
  assembly.finish scanner.position

end Json

end LibraryContract
