import LibraryContract.Analysis.Step
import LibraryContract.SyntaxTree.Basic

/-!
# Types: expressions and declarations

Types are declared in two rounds. The first round registers every declared type under its name,
mentioning other types by their spelling only, so that declarations may come in any order
(`TypeDecl.declare`). The second round looks at each accepted declaration again, when every
name is known (`TypeDecl.validate`).

Everywhere else a type expression must name a registered type, and gives the name under which the
type is registered (`TypeExpr.resolve`).
-/

namespace LibraryContract

namespace SyntaxTree

namespace TypeExpr

/-- The name of the type that the expression denotes. Arrays of known types become known. -/
def resolve : TypeExpr → Build String
  | .named name => do
    if ← Check.look fun t => t.types.contains name.name then return name.name
    else Check.fail .unresolvedType s!"unresolved type '{name.name}'" name.span
  | .array element => do
    let element ← element.resolve
    Build.modify fun t => t.internArray element
    return DataType.arrayName element

/-- The table in which the arrays of the expression are known, whatever its innermost name. -/
def intern (e : TypeExpr) (t : SymbolTable) : SymbolTable :=
  match e with
  | .named _ => t
  | .array element => (element.intern t).internArray element.canonicalName

end TypeExpr

namespace TypeDecl

/-- The type expressions in a declaration. -/
def mentioned (d : TypeDecl) : List TypeExpr :=
  match d.definition with
  | .simple | .real | .enum _ => []
  | .alias target => [target]
  | .structured fields => fields.map FieldDecl.type
  | .enumLike _ backing => [backing]

/-- The type that a declaration declares. -/
def toDataType (d : TypeDecl) : DataType :=
  let name := d.name.name
  match d.definition with
  | .simple => .simple name
  | .real => .real name
  | .alias target => .alias name target.canonicalName
  | .structured fields =>
    .structured name (.ofList (fields.map fun f => (f.name.name, f.type.canonicalName)))
  | .enum members => .enum name (.ofList (members.map fun m => (m.name.name, m.value)))
  | .enumLike underlying backing => .enumLike name underlying.name backing.canonicalName

/-- First round: registers the declared type and the arrays that it mentions. -/
def declare (d : TypeDecl) : Build Unit := do
  Build.modify fun t => d.mentioned.foldl (fun t e => e.intern t) t
  Build.registerUnit (fun t => t.registerType d.toDataType) d.name.span

/-- Reports every identifier that occurred before in a list; `words` describes one. -/
def noteRepeated (words : String → String) (seen : List String) : List Identifier → Build Unit
  | [] => return ()
  | name :: rest => do
    if name.name ∈ seen then
      Build.note .duplicateDeclaration (words name.name) name.span
    noteRepeated words (name.name :: seen) rest

/-- Looks at the fields of the type `typeName` in order: each needs a name of its own and a known
type. -/
def validateFields (typeName : String) (seen : List String) : List FieldDecl → Build Unit
  | [] => return ()
  | field :: rest => do
    if field.name.name ∈ seen then
      Build.note .duplicateDeclaration
        s!"duplicate field '{field.name.name}' in type '{typeName}'" field.name.span
    let _ ← field.type.resolve.attempt
    validateFields typeName (field.name.name :: seen) rest

/-- Second round: reports what a declaration mentions that does not exist or does not fit. -/
def validate (d : TypeDecl) : Build Unit := do
  let name := d.name.name
  match d.definition with
  | .simple | .real => return ()
  | .alias target =>
    let _ ← target.resolve
    if ← Check.look fun t => t.types.isCyclic name then
      Check.fail .invalidType s!"type alias '{name}' is cyclic" d.name.span
  | .structured fields => validateFields name [] fields
  | .enum members =>
    noteRepeated (fun member => s!"duplicate member '{member}' in enum '{name}'") []
      (members.map MemberDecl.name)
  | .enumLike underlying backing =>
    let isEnum ← Check.look fun t => ((t.type? underlying.name).map DataType.isEnum).getD false
    if !isEnum then
      Build.note .invalidType
        s!"type '{name}' is based on '{underlying.name}', which is not an enum" underlying.span
    let _ ← backing.resolve

end TypeDecl

end SyntaxTree

end LibraryContract
