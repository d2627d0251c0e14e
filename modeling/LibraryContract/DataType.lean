import LibraryContract.OrderedMap

/-!
# Data types

A type mentions other types by name only, so types may be declared in any order and may even
mention themselves.
-/

namespace LibraryContract

/-- A type as it is registered. -/
inductive DataType
  | simple (name : String)
  /-- A type of the implementation language, opaque to the library description. -/
  | real (name : String)
  | array (element : String)
  | enum (name : String) (members : OrderedMap String (Option Int64))
  /-- The members of the enum `underlying`, each standing for a value of type `backing`. -/
  | enumLike (name underlying backing : String)
  | structured (name : String) (fields : OrderedMap String String)
  | alias (name target : String)
deriving DecidableEq

namespace DataType

/-- The name of the arrays of a type. -/
def arrayName (element : String) : String := element ++ "[]"

def name : DataType → String
  | .simple name | .real name | .enum name _ | .enumLike name _ _ | .structured name _
  | .alias name _ => name
  | .array element => arrayName element

def describe : DataType → String
  | .simple name => s!"simple type '{name}'"
  | .real name => s!"real type '{name}'"
  | .array element => s!"array of '{element}'"
  | .enum name _ => s!"enum '{name}'"
  | .enumLike name _ _ => s!"enum-like type '{name}'"
  | .structured name _ => s!"structured type '{name}'"
  | .alias name target => s!"alias '{name}' of '{target}'"

def isEnum : DataType → Bool
  | .enum .. => true
  | _ => false

def isAlias : DataType → Bool
  | .alias .. => true
  | _ => false

end DataType

end LibraryContract
