import LibraryContract.Analysis.Member
import LibraryContract.Analysis.Scope

/-!
# Expressions and accesses

`SyntaxTree.Expr.elaborate` turns an expression into a value, `SyntaxTree.Chain.resolve` a chain
into an access. The first segment of a chain is looked up as a variable or names an automaton; each
further segment is looked up in the type that the chain has reached.

Both operands of a binary operator are looked at, so an error on the left does not hide one on the
right. Nothing here changes the symbol table.
-/

namespace LibraryContract

namespace SyntaxTree

/-- The variable that the first name of a chain stands for, with its type. The returned value can
be read only where it exists. -/
def Identifier.resolveVariable (name : Identifier) (scope : Scope) :
    Check (VariableScope × String) := do
  match ← Check.look fun t => scope.lookup? t name.name with
  | none => Check.fail .unresolvedVariable s!"unresolved variable '{name.name}'" name.span
  | some (home, type) =>
    if home.isResult && !scope.allowsResult then
      Check.fail .invalidAccess
        s!"'{resultName}' can only be read in ensures contracts and bodies" name.span
    else return (home, type)

/-- The automaton of a name. -/
def Identifier.resolveAutomaton (name : Identifier) : Check AutomatonId := do
  match ← Check.look fun t => t.automatonId? name.name with
  | some id => return id
  | none => Check.fail .unresolvedAutomaton s!"unresolved automaton '{name.name}'" name.span

/-- The automaton that a getter names, with its type. The argument must be a variable. -/
def resolveGetter (automaton argument : Identifier) (scope : Scope) :
    Check (AutomatonId × String) := do
  let id ← automaton.resolveAutomaton
  if ← Check.look fun t => (scope.lookup? t argument.name).isNone then
    Check.fail .unresolvedVariable s!"unresolved variable '{argument.name}'" argument.span
  else
    let type ← Check.look fun t => ((t.automaton? id).map Automaton.type).getD ""
    return (id, type)

/-- The variable of an automaton that a name after a getter stands for, with its type. -/
def Identifier.resolveAutomatonVariable (name : Identifier) (id : AutomatonId) :
    Check (VariableScope × String) := do
  match ← Check.look fun t => (t.automaton? id).bind fun a => a.variableNamed? name.name with
  | some v => return (v.scope, v.type)
  | none =>
    let owner ← Check.look fun t => ((t.automaton? id).map Automaton.name).getD ""
    Check.fail .unknownField s!"automaton '{owner}' has no variable '{name.name}'" name.span

mutual

/-- The value that an expression denotes in a scope. -/
def Expr.elaborate (scope : Scope) : Expr → Check Value
  | .literal value _ => return .literal value
  | .access chain _ => do
    let location ← chain.resolve scope
    return .access location
  | .old chain span => do
    if !scope.allowsOldValues then
      Check.fail .invalidOldValue "old values can only be read in ensures contracts" span
    let location ← chain.resolve scope
    return .old location
  | .unary token operand span =>
    match UnaryOperator.ofToken? token with
    | none => Check.reject s!"unknown unary operator '{token}'" span
    | some operator => do
      let operand ← operand.elaborate scope
      return .unary operator operand
  | .binary token left right span =>
    match BinaryOperator.ofToken? token with
    | none => Check.reject s!"unknown binary operator '{token}'" span
    | some operator => do
      let (left, right) ← Check.both (left.elaborate scope) (right.elaborate scope)
      return .binary operator left right
  | .group inner _ => inner.elaborate scope
termination_by structural e => e

/-- The location that a chain denotes in a scope. -/
def Chain.resolve (scope : Scope) : Chain → Check Access
  | ⟨[], span⟩ => Check.reject "empty access chain" span
  | ⟨.name name :: rest, _⟩ => do
    let (home, type) ← name.resolveVariable scope
    let rest ← resolveRest scope type rest
    return ⟨.name name.name type (some home), rest⟩
  | ⟨.getter automaton argument :: .name name :: rest, _⟩ => do
    let (id, type) ← resolveGetter automaton argument scope
    let (home, reached) ← name.resolveAutomatonVariable id
    let rest ← resolveRest scope reached rest
    return ⟨.getter id argument.name type, .name name.name reached (some home) :: rest⟩
  | ⟨.getter automaton argument :: rest, _⟩ => do
    let (id, type) ← resolveGetter automaton argument scope
    let rest ← resolveRest scope type rest
    return ⟨.getter id argument.name type, rest⟩
  | ⟨.index index :: _, _⟩ =>
    Check.reject "an access chain cannot start with an index" index.span
termination_by structural c => c

/-- The links of the segments after a location of type `current`. -/
def resolveRest (scope : Scope) (current : String) : List Segment → Check (List Link)
  | [] => return []
  | .name field :: rest => do
    let type ← fieldType current field
    let rest ← resolveRest scope type rest
    return .name field.name type none :: rest
  | .index index :: rest => do
    let type ← elementType current index.span
    let index ← index.elaborate scope
    let rest ← resolveRest scope type rest
    return .index index type :: rest
  | .getter automaton _ :: _ =>
    Check.reject "an automaton getter can only start an access chain" automaton.span
termination_by structural segments => segments

end

end SyntaxTree

end LibraryContract
