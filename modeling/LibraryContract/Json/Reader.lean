import LibraryContract.Json.Basic

/-!
# Reading typed data out of JSON values

A `Reader` turns a value into typed data or rejects it. Its number is the number of levels of
arrays and objects that it may still enter; a reader of a record, a list or a tagged value uses
one up. Members that nobody asks for are never entered and cost nothing.

* A record is an object, in which known members may come in any order but only once, or the
  array of its members in their fixed order (`Json.fields?`).
* A tagged value is an object with one member named by the tag; a tag without content may also
  stand alone as a string (`Json.tagged`).
-/

namespace LibraryContract

namespace Json

/-- Reads a value within a number of levels. -/
abbrev Reader (α : Type) := Nat → Json → Option α

/-- The members of a record. -/
abbrev Fields := List (String × Json)

/-- The members of a record that has members of these names. -/
def fields? (names : List String) : Json → Option Fields
  | .object members => do
    let named ← members.mapM fun m => m.1.map fun name => (name, m.2)
    let known := named.filter fun m => decide (m.1 ∈ names)
    if (known.map Prod.fst).Nodup then some known else none
  | .array items => if items.length ≤ names.length then some (names.zip items) else none
  | _ => none

namespace Fields

/-- A member that must be there. -/
def required (fields : Fields) (name : String) (read : Json → Option α) : Option α :=
  (fields.lookup name).bind read

/-- A member that may be missing, and then has a value of its own. -/
def defaulted (fields : Fields) (name : String) (missing : α) (read : Json → Option α) : Option α :=
  match fields.lookup name with
  | none => some missing
  | some value => read value

/-- A member that may be missing or null. -/
def optional (fields : Fields) (name : String) (read : Json → Option α) : Option (Option α) :=
  match fields.lookup name with
  | none | some .null => some none
  | some value => (read value).map some

end Fields

def record (names : List String) (build : Nat → Fields → Option α) : Reader α
  | 0, _ => none
  | levels + 1, value => (value.fields? names).bind (build levels)

def list (item : Reader α) : Reader (List α)
  | levels + 1, .array items => items.mapM (item levels)
  | _, _ => none

/-- Reads a tagged value; the content is missing when the tag stands alone. -/
def tagged (build : Nat → String → Option Json → Option α) : Reader α
  | levels, .string (some tag) => build levels tag none
  | levels + 1, .object [(some tag, content)] => build levels tag (some content)
  | _, _ => none

/-- Reads one of several tags without content. -/
def tag (tags : List (String × α)) : Reader α :=
  tagged fun _ name content =>
    match content with
    | none | some .null => tags.lookup name
    | some _ => none

def string? : Json → Option String
  | .string text => text
  | _ => none

def bool? : Json → Option Bool
  | .bool b => some b
  | _ => none

def uint64? : Json → Option UInt64
  | .number (.natural n) => some n
  | _ => none

def int64? : Json → Option Int64
  | .number (.natural n) =>
    if n.toNat < 0x8000000000000000 then some (Int64.ofNat n.toNat) else none
  | .number (.negative n) => some n
  | _ => none

/-- Reads a double; an integer is rounded to one. -/
def binary64? : Json → Option Binary64
  | .number (.natural n) => some (Binary64.ofNat n.toNat)
  | .number (.negative n) => some (Binary64.ofInt n.toInt)
  | .number (.real x) => some x
  | _ => none

end Json

end LibraryContract
