import LibraryContract.Entity
import LibraryContract.TypeRegistry

/-!
# The symbol table

Everything with a name that one analysis has registered. Automata and operations stand in lists
in which their number is their position; two indexes lead from names to numbers. An operation is
indexed under its owner and its name together, and several operations may share an entry.
-/

namespace LibraryContract

open SyntaxTree (OperationKind)

/-- What kind of thing a name was declared as, or was expected to be. -/
inductive EntityKind
  | type
  | automaton
  | variable
  | annotationType
  | operation (kind : OperationKind)
deriving DecidableEq, Repr

def EntityKind.describe : EntityKind → String
  | .type => "type"
  | .automaton => "automaton"
  | .variable => "variable"
  | .annotationType => "annotation"
  | .operation kind => kind.describe

/-- The registered entities of one analysis. -/
structure SymbolTable where
  types : TypeRegistry
  automata : List Automaton
  automatonIds : OrderedMap String AutomatonId
  operations : List Operation
  /-- The named operations, under owner and name. -/
  operationIds : OrderedMap (String × String) (List OperationId)
  globals : OrderedMap String Variable
  annotations : OrderedMap String Annotation

namespace SymbolTable

/-- The annotation that every table knows. -/
def builtinTarget : Annotation := ⟨targetName, []⟩

/-- The table in which nothing has been declared yet. -/
def empty : SymbolTable where
  types := .empty
  automata := []
  automatonIds := .empty
  operations := []
  operationIds := .empty
  globals := .empty
  annotations := OrderedMap.empty.insert targetName builtinTarget

instance : Inhabited SymbolTable := ⟨empty⟩

def automaton? (t : SymbolTable) (id : AutomatonId) : Option Automaton := t.automata[id.index]?

def operation? (t : SymbolTable) (id : OperationId) : Option Operation := t.operations[id.index]?

def automatonId? (t : SymbolTable) (name : String) : Option AutomatonId := t.automatonIds.get? name

def automatonNamed? (t : SymbolTable) (name : String) : Option Automaton :=
  (t.automatonId? name).bind t.automaton?

def type? (t : SymbolTable) (name : String) : Option DataType := t.types.get? name

def global? (t : SymbolTable) (name : String) : Option Variable := t.globals.get? name

def annotation? (t : SymbolTable) (name : String) : Option Annotation := t.annotations.get? name

def modifyAutomaton (t : SymbolTable) (id : AutomatonId) (f : Automaton → Automaton) :
    SymbolTable :=
  { t with automata := t.automata.modify id.index f }

def modifyOperation (t : SymbolTable) (id : OperationId) (f : Operation → Operation) :
    SymbolTable :=
  { t with operations := t.operations.modify id.index f }

/-- The table with the arrays of a type registered. -/
def internArray (t : SymbolTable) (element : String) : SymbolTable :=
  { t with types := t.types.internArray element }

/-- The collection of variables that a scope names. Arguments are part of a signature and have no
collection. -/
def variablesIn (t : SymbolTable) : VariableScope → OrderedMap String Variable
  | .global => t.globals
  | .automaton owner => ((t.automaton? owner).map Automaton.instanceVariables).getD .empty
  | .constructorParameter owner =>
    ((t.automaton? owner).map Automaton.constructorVariables).getD .empty
  | .argument _ => .empty
  | .body owner | .result owner => ((t.operation? owner).map Operation.locals).getD .empty

/-- The table with the collection of variables that a scope names changed. -/
def modifyVariables (t : SymbolTable) (scope : VariableScope)
    (f : OrderedMap String Variable → OrderedMap String Variable) : SymbolTable :=
  match scope with
  | .global => { t with globals := f t.globals }
  | .automaton owner =>
    t.modifyAutomaton owner fun a => { a with instanceVariables := f a.instanceVariables }
  | .constructorParameter owner =>
    t.modifyAutomaton owner fun a => { a with constructorVariables := f a.constructorVariables }
  | .argument _ => t
  | .body owner | .result owner => t.modifyOperation owner fun o => { o with locals := f o.locals }

/-- The table in which a variable starts from a value. -/
def setInitial (t : SymbolTable) (scope : VariableScope) (name : String) (value : Value) :
    SymbolTable :=
  t.modifyVariables scope fun m => m.modify name fun v => { v with initial := some value }

end SymbolTable

end LibraryContract
