import LibraryContract.SymbolTable.Basic

/-!
# Registering entities

Each entry point takes a table and something to register and gives the new table, or the reason
why the table stays as it is. A name can be taken once; an operation can be declared twice when
the first declaration lacks the body that the second one brings (`registerOperation`).
-/

namespace LibraryContract

/-- Why something cannot be registered. -/
inductive RegistrationError
  | duplicate (kind : EntityKind) (name : String)
  | unknownAutomaton (name : String)
  /-- The scope has no collection of variables. -/
  | invalidScope (name : String) (scope : VariableScope)
  /-- A definition returns another type than its declaration. -/
  | signatureMismatch (name declared defined : String)
deriving DecidableEq, Repr

def RegistrationError.message : RegistrationError → String
  | .duplicate kind name => s!"duplicate declaration of {kind.describe} '{name}'"
  | .unknownAutomaton name => s!"unknown automaton '{name}'"
  | .invalidScope name scope =>
    s!"variable '{name}' cannot be registered in {scope.describe} scope"
  | .signatureMismatch name declared defined =>
    s!"definition of '{name}' returns '{defined}' but its declaration returns '{declared}'"

/-- What became of an accepted signature. -/
inductive Registration
  | new (id : OperationId)
  /-- A declaration without a body got one. -/
  | completed (id : OperationId)
deriving DecidableEq, Repr

def Registration.id : Registration → OperationId
  | .new id | .completed id => id

namespace Operation

/-- Whether a declaration and a definition return different types. -/
def returnConflict? (declared : Operation) (s : Signature) : Option RegistrationError :=
  match declared.returnType, s.returnType with
  | some d, some r =>
    if d = r then none else some (.signatureMismatch declared.displayName d r)
  | _, _ => none

/-- A declaration with the body, the arguments and the place of its definition. The body uses the
definition's names of the arguments, so these replace the declared ones. -/
def complete (declared : Operation) (s : Signature) : Operation :=
  { declared with
    target := if s.isRetargeted then s.target else declared.target
    arguments := s.arguments
    returnType := declared.returnType.or s.returnType
    annotations := declared.annotations ++ s.annotations
    hasBody := true
    span := s.span }

end Operation

namespace SymbolTable

def registerType (t : SymbolTable) (type : DataType) : Except RegistrationError SymbolTable :=
  match t.types.insert? type with
  | some types => .ok { t with types := types }
  | none => .error (.duplicate .type type.name)

/-- Registers an automaton of which only the head of its declaration is known. -/
def registerAutomaton (t : SymbolTable) (name type : String) (span : Span) :
    Except RegistrationError (AutomatonId × SymbolTable) :=
  if t.automatonIds.contains name then .error (.duplicate .automaton name)
  else
    let id : AutomatonId := ⟨t.automata.length⟩
    .ok
      (id,
        { t with
          automata := t.automata ++ [.skeleton id name type span]
          automatonIds := t.automatonIds.insert name id })

/-- Registers a variable in the collection that its scope names. -/
def registerVariable (t : SymbolTable) (v : Variable) : Except RegistrationError SymbolTable :=
  match v.scope with
  | .argument _ => .error (.invalidScope v.name v.scope)
  | scope =>
    if (t.variablesIn scope).contains v.name then .error (.duplicate .variable v.name)
    else .ok (t.modifyVariables scope fun m => m.insert v.name v)

def registerAnnotationType (t : SymbolTable) (a : Annotation) :
    Except RegistrationError SymbolTable :=
  if t.annotations.contains a.name then .error (.duplicate .annotationType a.name)
  else .ok { t with annotations := t.annotations.insert a.name a }

/-- The first operation of an automaton with the kind, the name and the argument types of a
signature. -/
def overload? (t : SymbolTable) (owner : AutomatonId) (s : Signature) :
    Option (OperationId × Operation) :=
  (((t.automaton? owner).map fun a => a.operations s.kind).getD []).findSome? fun id =>
    (t.operation? id).bind fun o =>
      if o.name = s.name ∧ o.argumentTypes = s.argumentTypes then some (id, o) else none

/-- The index of named operations with one more. -/
def indexOperation (ids : OrderedMap (String × String) (List OperationId)) (s : Signature)
    (id : OperationId) : OrderedMap (String × String) (List OperationId) :=
  match s.name with
  | some name => ids.insert (s.owner, name) ((ids.get? (s.owner, name)).getD [] ++ [id])
  | none => ids

/-- The table with a new operation of an automaton. -/
def addOperation (t : SymbolTable) (owner : AutomatonId) (s : Signature) :
    OperationId × SymbolTable :=
  let id : OperationId := ⟨t.operations.length⟩
  (id,
    { t with
      automata := t.automata.modify owner.index fun a => a.addOperation s.kind id
      operations := t.operations ++ [.ofSignature id s]
      operationIds := indexOperation t.operationIds s id })

/-- Registers an operation with its owner. Operations of one owner and kind are told apart by name
and argument types. A second declaration of the same operation is accepted only when it brings
the body that the first one lacks, and when it agrees with it about the returned type; it then
completes the first one. -/
def registerOperation (t : SymbolTable) (s : Signature) :
    Except RegistrationError (Registration × SymbolTable) :=
  match t.automatonId? s.owner with
  | none => .error (.unknownAutomaton s.owner)
  | some owner =>
    match t.overload? owner s with
    | none =>
      let (id, t) := t.addOperation owner s
      .ok (.new id, t)
    | some (id, declared) =>
      if !declared.hasBody && s.hasBody then
        match declared.returnConflict? s with
        | some error => .error error
        | none => .ok (.completed id, t.modifyOperation id fun o => o.complete s)
      else .error (.duplicate (.operation s.kind) declared.displayName)

end SymbolTable

end LibraryContract
