import LibraryContract.Analysis.Expr
import LibraryContract.Analysis.TypeExpr

/-!
# Contracts and bodies of operations

When every signature is known, the contracts of an operation and the statements of its body are
looked at in order. A contract or statement with an error is left out; a malformed one also ends
the operation it stands in.
-/

namespace LibraryContract

namespace SyntaxTree

/-- The keyword of a constructor call that picks the state. -/
def stateKeyword : String := "state"

/-- The state of an automaton that an identifier names. -/
def Identifier.resolveState (name : Identifier) (id : AutomatonId) : Check String := do
  let owner ← Check.look fun t => t.automaton? id
  if (owner.bind fun a => a.state? name.name).isSome then return name.name
  else
    let automaton := (owner.map Automaton.name).getD ""
    Check.fail .unknownState s!"unknown state '{name.name}' in automaton '{automaton}'" name.span

namespace ConstructorCall

/-- The single name that an expression consists of. -/
def bareName? : Expr → Option Identifier
  | .access ⟨[.name name], _⟩ _ => some name
  | _ => none

/-- The state that the value of the keyword names. -/
def resolveState (id : AutomatonId) (value : Expr) : Check String :=
  match bareName? value with
  | some name => name.resolveState id
  | none => Check.fail .invalidConstructorCall s!"'{stateKeyword}' must name a state" value.span

/-- Whether an automaton has a constructor variable of this name. -/
def takes (id : AutomatonId) (name : String) : Check Bool :=
  Check.look fun t =>
    ((t.automaton? id).map fun a => a.constructorVariables.contains name).getD false

/-- The state and the arguments of a call, from what the arguments before have given. -/
def resolveArguments (scope : Scope) (id : AutomatonId) (automaton : String)
    (state : Option String) (bound : List ConstructorArgument) :
    List NamedArgument → Check (Option String × List ConstructorArgument)
  | [] => return (state, bound)
  | argument :: rest => do
    let keyword := argument.name
    if keyword.name = stateKeyword then
      if state.isSome then
        Check.fail .invalidConstructorCall
          s!"constructor call of '{automaton}' sets '{stateKeyword}' twice" keyword.span
      let state ← resolveState id argument.value
      resolveArguments scope id automaton (some state) bound rest
    else
      if !(← takes id keyword.name) then
        Check.fail .invalidConstructorCall
          s!"automaton '{automaton}' has no constructor variable '{keyword.name}'" keyword.span
      if bound.any fun b => decide (b.name = keyword.name) then
        Check.fail .invalidConstructorCall
          s!"constructor variable '{keyword.name}' of '{automaton}' is bound twice" keyword.span
      let value ← argument.value.elaborate scope
      resolveArguments scope id automaton state (bound ++ [⟨keyword.name, value⟩]) rest

/-- The call of a constructor: it sets the state exactly once, and each constructor variable at
most once. -/
def resolve (scope : Scope) (call : ConstructorCall) : Check LibraryContract.ConstructorCall := do
  let id ← call.automaton.resolveAutomaton
  let automaton := call.automaton.name
  let (state, arguments) ← resolveArguments scope id automaton none [] call.arguments
  match state with
  | some state => return ⟨id, state, arguments⟩
  | none =>
    Check.fail .invalidConstructorCall
      s!"constructor call of '{automaton}' must set '{stateKeyword}'" call.span

end ConstructorCall

/-- A contract in the scope of the body of its operation. -/
def ContractDecl.elaborate (scope : Scope) (d : ContractDecl) : Check Contract := do
  let expression ← d.expression.elaborate (scope.inContract d.kind)
  if d.kind = .assigns && !(expression matches .access _) then
    Check.fail .invalidAccess "an assigns contract must name the location it modifies"
      d.expression.span
  return ⟨d.name.map Identifier.name, d.kind, expression, d.span⟩

/-- A variable declared in the body of an operation. It cannot hide an argument. -/
def VariableDecl.declareLocal (scope : Scope) (id : OperationId) (d : VariableDecl) :
    Build LibraryContract.Statement := do
  let name := d.name.name
  let operation ← Check.look fun t => t.operation? id
  if (operation.bind fun o => o.argument? name).isSome then
    let owner := (operation.map fun o => o.displayName).getD ""
    Check.fail .duplicateDeclaration
      s!"local variable '{name}' shadows an argument of '{owner}'" d.name.span
  let type ← d.type.resolve
  let initial ← d.initializer.mapM fun e => e.elaborate scope
  let declared : Variable := ⟨name, type, .body id, initial, d.name.span⟩
  Build.registerUnit (fun t => t.registerVariable declared) d.name.span
  return .declaration declared

/-- A statement of the body of an operation. -/
def Statement.elaborate (scope : Scope) (id : OperationId) :
    Statement → Build LibraryContract.Statement
  | .assignment target (some value) none span => do
    let target ← target.resolve scope
    let value ← value.elaborate scope
    return .assignment target (.value value) span
  | .assignment target none (some call) span => do
    let target ← target.resolve scope
    let call ← call.resolve scope
    return .assignment target (.constructed call) span
  | .assignment _ _ _ span =>
    Check.reject "assignment needs exactly one of a value or a constructor call" span
  | .action name arguments span => do
    let arguments ← arguments.mapM fun e => e.elaborate scope
    return .action name.name arguments span
  | .variable declaration => declaration.declareLocal scope id

namespace FunctionDecl

/-- The scope of the body of a registered operation. -/
def bodyScope (id : OperationId) : Check Scope :=
  Check.look fun t =>
    let operation := t.operation? id
    .inOperation (operation.bind fun o => t.automatonId? o.owner)
      (operation.bind fun o => t.automatonId? o.target) id

/-- Adds the contracts that have no errors. -/
def elaborateContracts (scope : Scope) (id : OperationId) : List ContractDecl → Build Unit
  | [] => return ()
  | d :: rest => do
    if let some contract ← (Build.ofCheck (d.elaborate scope)).attempt then
      Build.modify fun t =>
        t.modifyOperation id fun o => { o with contracts := o.contracts ++ [contract] }
    elaborateContracts scope id rest

/-- Adds the statements that have no errors. -/
def elaborateBody (scope : Scope) (id : OperationId) : List Statement → Build Unit
  | [] => return ()
  | statement :: rest => do
    if let some statement ← (statement.elaborate scope id).attempt then
      Build.modify fun t =>
        t.modifyOperation id fun o => { o with statements := o.statements ++ [statement] }
    elaborateBody scope id rest

/-- Looks at the contracts and the body that a declaration gives a registered operation. -/
def elaborate (id : OperationId) (d : FunctionDecl) : Build Unit := do
  let scope ← bodyScope id
  elaborateContracts scope id d.contracts
  elaborateBody scope id (d.body.getD [])

end FunctionDecl

end SyntaxTree

end LibraryContract
