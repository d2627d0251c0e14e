import LibraryContract.SymbolTable.Basic

/-!
# Looking up names

References are names until they are resolved against a table; resolving one changes nothing and
can be repeated. An operation may be overloaded: its name alone picks it only when it is the one
operation of that name, and otherwise the argument types must be given.
-/

namespace LibraryContract

/-- What a name of an operation leads to. -/
inductive OperationLookup
  | found (id : OperationId)
  | notFound
  | ambiguous (ids : List OperationId)
deriving DecidableEq, Repr

/-- Why a reference leads to nothing. -/
inductive ResolveError
  | unresolved (kind : EntityKind) (name : String)
  | ambiguous (name automaton : String) (candidates : Nat)
deriving DecidableEq, Repr

def ResolveError.message : ResolveError → String
  | .unresolved kind name => s!"unresolved {kind.describe} reference '{name}'"
  | .ambiguous name automaton candidates =>
    s!"ambiguous reference to function '{name}' in automaton '{automaton}': " ++
      s!"{candidates} overloads match"

namespace SymbolTable

/-- Whether an operation has exactly these argument types. -/
def hasArgumentTypes (t : SymbolTable) (types : List String) (id : OperationId) : Bool :=
  match t.operation? id with
  | some o => decide (o.argumentTypes = types)
  | none => false

/-- Looks up an operation by its name and its owner. Argument types, when given, must match
exactly and pick the first operation that does. -/
def lookupOperation (t : SymbolTable) (name automaton : String)
    (argumentTypes : Option (List String)) : OperationLookup :=
  let candidates := (t.operationIds.get? (automaton, name)).getD []
  match argumentTypes with
  | some types =>
    match candidates.find? (t.hasArgumentTypes types) with
    | some id => .found id
    | none => .notFound
  | none =>
    match candidates with
    | [] => .notFound
    | [id] => .found id
    | ids => .ambiguous ids

/-- Every operation of an automaton with a name, in order of registration. -/
def operationsNamed (t : SymbolTable) (automaton name : String) : List Operation :=
  t.operations.filter fun o => decide (o.owner = automaton ∧ o.name = some name)

def resolveType (t : SymbolTable) (name : String) : Except ResolveError DataType :=
  match t.type? name with
  | some type => .ok type
  | none => .error (.unresolved .type name)

def resolveAutomaton (t : SymbolTable) (name : String) : Except ResolveError AutomatonId :=
  match t.automatonId? name with
  | some id => .ok id
  | none => .error (.unresolved .automaton name)

def resolveAnnotationType (t : SymbolTable) (name : String) : Except ResolveError Annotation :=
  match t.annotation? name with
  | some a => .ok a
  | none => .error (.unresolved .annotationType name)

/-- The operation that a name, an owner and perhaps argument types refer to. -/
def resolveOperation (t : SymbolTable) (name automaton : String)
    (argumentTypes : Option (List String)) : Except ResolveError OperationId :=
  match t.lookupOperation name automaton argumentTypes with
  | .found id => .ok id
  | .notFound => .error (.unresolved (.operation .function) s!"{automaton}.{name}")
  | .ambiguous ids => .error (.ambiguous name automaton ids.length)

end SymbolTable

end LibraryContract
