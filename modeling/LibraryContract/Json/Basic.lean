import LibraryContract.Json.Number

/-!
# JSON values

A value keeps all that its text said: the members of an object in their order, with repetitions,
because a repeated member is an error where it is read and no error where it is not. For the
same reason a string may be unreadable: it stood in a place where nobody may ever look.
-/

namespace LibraryContract

/-- A JSON value. A string is `none` when an escape in it spells half of a surrogate pair, which
no text can hold. -/
inductive Json
  | null
  | bool (value : Bool)
  | number (value : Json.Number)
  | string (text : Option String)
  | array (items : List Json)
  | object (members : List (Option String × Json))
deriving Repr

namespace Json

instance : Inhabited Json := ⟨null⟩

/-- The string value that holds `s`. -/
def ofString (s : String) : Json := .string (some s)

/-- The object whose members have readable names. -/
def ofMembers (members : List (String × Json)) : Json :=
  .object (members.map fun m => (some m.1, m.2))

/-- The number that holds an unsigned word. -/
def ofUInt64 (n : UInt64) : Json := .number (.natural n)

/-- The number that holds a signed word. -/
def ofInt64 (n : Int64) : Json :=
  if 0 ≤ n.toInt then .number (.natural n.toInt.toNat.toUInt64) else .number (.negative n)

/-- The value that holds a double; no number holds one that is not finite. -/
def ofBinary64 (x : Binary64) : Json := if x.isFinite then .number (.real x) else .null

end Json

end LibraryContract
