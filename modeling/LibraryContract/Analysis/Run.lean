import LibraryContract.Analysis.Shift
import LibraryContract.Analysis.Signature

/-!
# The analysis of a library

An analysis goes through the declarations of a library in phases. The first phases register names:
types, annotations, global variables, automata, operations. Only then can anything that mentions
another declaration be looked at: values that variables start from, shifts, contracts and bodies.
So the order of declarations does not decide which names are known.

Each piece of work is settled on its own (`Run.settle`): an error in one does not keep the others
from being looked at. The first malformed place of a tree is kept, and the analysis fails with it
at the end.
-/

namespace LibraryContract

open SyntaxTree (VariableDecl AutomatonDecl FunctionDecl TypeDecl AnnotationDecl)

/-- An analysis under way. -/
structure Run where
  table : SymbolTable
  diagnostics : Diagnostics
  /-- The first malformed place, if any. -/
  malformed : Option Malformed

/-- A variable whose value is still to be looked at. -/
structure PendingInitializer where
  name : String
  scope : VariableScope
  value : SyntaxTree.Expr

/-- An automaton whose shifts and initial values are still to be looked at. -/
structure PendingAutomaton where
  id : AutomatonId
  declaration : AutomatonDecl
  initializers : List PendingInitializer

/-- An operation whose contracts and body are still to be looked at. -/
structure PendingOperation where
  id : OperationId
  declaration : FunctionDecl

namespace SyntaxTree

/-- Registers a variable without its value. -/
def VariableDecl.declare (scope : VariableScope) (d : VariableDecl) : Build Unit := do
  let type ← d.type.resolve
  Build.registerUnit (fun t => t.registerVariable ⟨d.name.name, type, scope, none, d.name.span⟩)
    d.name.span

/-- The value that a variable starts from, when it has one. -/
def VariableDecl.pending (scope : VariableScope) (d : VariableDecl) : Option PendingInitializer :=
  d.initializer.map fun value => ⟨d.name.name, scope, value⟩

def AnnotationDecl.declare (d : AnnotationDecl) : Build Unit := do
  let parameters ← d.parameters.mapM fun p => do
    let type ← p.type.resolve
    return (⟨p.name.name, type⟩ : AnnotationParameter)
  Build.registerUnit (fun t => t.registerAnnotationType ⟨d.name.name, parameters⟩) d.name.span

namespace AutomatonDecl

/-- Adds the states of an automaton; of states with one name the first stays. -/
def declareStates (id : AutomatonId) (automaton : String) (seen : List String) :
    List StateDecl → Build Unit
  | [] => return ()
  | state :: rest => do
    let name := state.name.name
    if name ∈ seen then
      Build.note .duplicateDeclaration s!"duplicate state '{name}' in automaton '{automaton}'"
        state.name.span
    else
      Build.modify fun t =>
        t.modifyAutomaton id fun a =>
          { a with states := a.states.insert name ⟨name, state.kind, state.name.span⟩ }
    declareStates id automaton (name :: seen) rest

/-- Registers variables of an automaton and gives the values that they start from. -/
def declareVariables (scope : VariableScope) : List VariableDecl → Build (List PendingInitializer)
  | [] => return []
  | d :: rest => do
    let declared ← (d.declare scope).attempt
    let pending ← declareVariables scope rest
    return ((declared.bind fun _ => d.pending scope).toList ++ pending)

/-- Registers an automaton with its states and variables. An automaton of unknown type is
registered all the same, so that other declarations can refer to it. -/
def declare (d : AutomatonDecl) : Build PendingAutomaton := do
  let type ← d.type.resolve.attempt
  let id ← Build.register
    (fun t => t.registerAutomaton d.name.name (type.getD d.type.canonicalName) d.span) d.name.span
  declareStates id d.name.name [] d.states
  let parameters ← declareVariables (.constructorParameter id) d.constructorVariables
  let members ← declareVariables (.automaton id) d.instanceVariables
  return ⟨id, d, parameters ++ members⟩

end AutomatonDecl

end SyntaxTree

/-- Looks at the value that a registered variable starts from. -/
def PendingInitializer.elaborate (scope : Scope) (p : PendingInitializer) : Build Unit := do
  let value ← p.value.elaborate scope
  Build.modify fun t => t.setInitial p.scope p.name value

namespace Run

/-- An analysis that has not begun. -/
def start : Run := ⟨.empty, [], none⟩

/-- Does a piece of work. A malformed tree is reported here, and the first one is kept. -/
def settle (step : Build α) (r : Run) : Option α × Run :=
  let (outcome, table) := step.run r.table
  let diagnostics := r.diagnostics ++ outcome.diagnostics
  match outcome.result with
  | .ok a => (some a, { r with table := table, diagnostics := diagnostics })
  | .error .reported => (none, { r with table := table, diagnostics := diagnostics })
  | .error (.malformed m) =>
    (none,
      { table := table
        diagnostics := diagnostics ++ [.error .malformedTree m.message m.span]
        malformed := r.malformed.or (some m) })

/-- Does a piece of work for its effect. -/
def perform (step : Build α) (r : Run) : Run := (r.settle step).2

/-- Does a piece of work for each item. -/
def performAll (step : α → Build β) (items : List α) (r : Run) : Run :=
  items.foldl (fun r a => r.perform (step a)) r

/-- Does a piece of work for each item and keeps what the successful ones give. -/
def collect (step : α → Build β) : List α → Run → List β × Run
  | [], r => ([], r)
  | a :: rest, r =>
    let (b, r) := r.settle (step a)
    let (bs, r) := collect step rest r
    (b.toList ++ bs, r)

/-- Registers the declared types, then looks at those that were accepted. -/
def registerTypes (declarations : List TypeDecl) (r : Run) : Run :=
  let (accepted, r) := r.collect (fun d => do d.declare; return d) declarations
  r.performAll TypeDecl.validate accepted

def registerAnnotations (declarations : List AnnotationDecl) (r : Run) : Run :=
  r.performAll AnnotationDecl.declare declarations

/-- Registers the global variables and gives the values that they start from. -/
def registerGlobals (declarations : List VariableDecl) (r : Run) : List PendingInitializer × Run :=
  let (accepted, r) := r.collect (fun d => do d.declare .global; return d) declarations
  (accepted.filterMap fun d => d.pending .global, r)

def registerAutomata (declarations : List AutomatonDecl) (r : Run) : List PendingAutomaton × Run :=
  r.collect AutomatonDecl.declare declarations

/-- The list of operations in which a registration takes effect: a new operation comes last, a
definition takes the place of the declaration that it completes. -/
def recordOperation (operations : List PendingOperation) (registration : Registration)
    (d : FunctionDecl) : List PendingOperation :=
  match registration with
  | .new id => operations ++ [⟨id, d⟩]
  | .completed id =>
    if operations.any fun o => decide (o.id = id) then
      operations.map fun o => if o.id = id then ⟨id, d⟩ else o
    else operations ++ [⟨id, d⟩]

def registerSignature (options : Options) (state : List PendingOperation × Run)
    (item : FunctionDecl × Option AutomatonId) : List PendingOperation × Run :=
  let (registration, r) := state.2.settle (item.1.register options item.2)
  match registration with
  | some registration => (recordOperation state.1 registration item.1, r)
  | none => (state.1, r)

/-- The declarations of operations with the automata around them: those inside of automata come
first, then those outside. -/
def operationDeclarations (automata : List PendingAutomaton) (topLevel : List FunctionDecl) :
    List (FunctionDecl × Option AutomatonId) :=
  (automata.flatMap fun a => a.declaration.functions.map fun d => (d, some a.id)) ++
    topLevel.map fun d => (d, none)

def registerSignatures (options : Options) (automata : List PendingAutomaton)
    (topLevel : List FunctionDecl) (r : Run) : List PendingOperation × Run :=
  (operationDeclarations automata topLevel).foldl (registerSignature options) ([], r)

/-- Looks at the values that the variables of an automaton start from, then at its shifts. -/
def elaborateAutomaton (r : Run) (a : PendingAutomaton) : Run :=
  let r := r.performAll (PendingInitializer.elaborate (.inAutomaton a.id)) a.initializers
  r.performAll (fun shift => shift.elaborate a.id) a.declaration.shifts

/-- Goes through all phases. -/
def complete (options : Options) (library : SyntaxTree.Library) (r : Run) : Run :=
  let r := r.registerTypes library.types
  let r := r.registerAnnotations library.annotations
  let (globals, r) := r.registerGlobals library.globals
  let (automata, r) := r.registerAutomata library.automata
  let (operations, r) := r.registerSignatures options automata library.functions
  let r := r.performAll (PendingInitializer.elaborate .global) globals
  let r := automata.foldl elaborateAutomaton r
  r.performAll (fun o => o.declaration.elaborate o.id) operations

/-- The analysis of a library on its own. -/
def analyze (options : Options) (library : SyntaxTree.Library) : Run :=
  start.complete options library

/-- The analysis of a library that adds to the diagnostics of earlier ones. -/
def analyzeAfter (earlier : Diagnostics) (options : Options) (library : SyntaxTree.Library) : Run :=
  { start with diagnostics := earlier }.complete options library

end Run

end LibraryContract
