import LibraryContract.Analysis.Step
import LibraryContract.SyntaxTree.Basic

/-!
# Members of types

What a name or an index after a location reaches, by the type of that location. Aliases are
looked through, up to a fixed depth, while messages and opaque types keep the type as it was
written (`surface`).
-/

namespace LibraryContract

open SyntaxTree (Identifier)

/-- How many aliases are looked through before a chain of them counts as cyclic. -/
def maxAliasDepth : Nat := 32

/-- The type of a name, which an access has reached at `span`. -/
def reachedType (name : String) (span : Span) : Check DataType := do
  match ← Check.look fun t => t.resolveType name with
  | .ok type => return type
  | .error e => Check.fail .unresolvedType e.message span

/-- The type of the field `field` of a location whose type, after some aliases, is `type`. A member
of an enum has the type of the enum; what lies behind an opaque type or an array is not described,
and keeps its type. -/
def fieldOf (surface : String) (field : Identifier) : Nat → DataType → Check String
  | _, .structured _ fields =>
    match fields.get? field.name with
    | some type => return type
    | none =>
      Check.fail .unknownField s!"no such field '{field.name}' in type '{surface}'" field.span
  | _, .enum name members =>
    if members.contains field.name then return name
    else Check.fail .unknownField s!"enum '{surface}' has no member '{field.name}'" field.span
  | _, .enumLike _ underlying backing => do
    match ← reachedType underlying field.span with
    | .enum _ members =>
      if members.contains field.name then return backing
      else Check.fail .unknownField s!"type '{surface}' has no member '{field.name}'" field.span
    | _ => Check.fail .unknownField s!"type '{surface}' has no member '{field.name}'" field.span
  | 0, .alias name _ => Check.fail .invalidType s!"type alias '{name}' is cyclic" field.span
  | depth + 1, .alias _ target => do
    let type ← reachedType target field.span
    fieldOf surface field depth type
  | _, .real _ | _, .array _ => return surface
  | _, .simple name =>
    Check.fail .invalidAccess
      s!"simple type '{name}' cannot have fields (accessing '{field.name}')" field.span

/-- The type of a field of a location of type `current`. -/
def fieldType (current : String) (field : Identifier) : Check String := do
  let type ← reachedType current field.span
  fieldOf current field maxAliasDepth type

/-- The type of the elements of a location whose type, after some aliases, is `type`. -/
def elementOf (surface : String) (span : Span) : Nat → DataType → Check String
  | _, .array element => return element
  | _, .real _ => return surface
  | 0, .alias name _ => Check.fail .invalidType s!"type alias '{name}' is cyclic" span
  | depth + 1, .alias _ target => do
    let type ← reachedType target span
    elementOf surface span depth type
  | _, type => Check.fail .invalidAccess s!"{type.describe} cannot be indexed" span

/-- The type of the elements of a location of type `current`. -/
def elementType (current : String) (span : Span) : Check String := do
  let type ← reachedType current span
  elementOf current span maxAliasDepth type

end LibraryContract
