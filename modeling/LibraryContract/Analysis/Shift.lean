import LibraryContract.Analysis.Body

/-!
# Shifts of automata

One declaration of shifts stands for a shift from each of its sources to its target. A problem with
the target or with the operations that cause the shifts drops the whole declaration; a problem
with a source drops only the shift from it.
-/

namespace LibraryContract

namespace SyntaxTree

/-- The start of a shift. -/
def Identifier.resolveSource (id : AutomatonId) (name : Identifier) : Check Endpoint := do
  if name.name = Endpoint.anyWord then return .any
  else if name.name = Endpoint.stayWord then
    Check.fail .invalidShift "'self' cannot be the source of a shift" name.span
  else
    let state ← name.resolveState id
    return .state state

/-- The end of a shift. -/
def Identifier.resolveTarget (id : AutomatonId) (name : Identifier) : Check Endpoint := do
  if name.name = Endpoint.stayWord then return .stay
  else if name.name = Endpoint.anyWord then
    Check.fail .invalidShift "'any' cannot be the target of a shift" name.span
  else
    let state ← name.resolveState id
    return .state state

/-- Argument types in a message, when they are written. -/
def Trigger.typesText : Option (List String) → String
  | some types => "(" ++ ", ".intercalate types ++ ")"
  | none => ""

/-- The operation of an automaton that a trigger names. -/
def Trigger.resolve (automaton : String) (trigger : Trigger) : Build OperationId := do
  let argumentTypes ← trigger.argumentTypes.mapM fun types => types.mapM fun e => e.resolve
  let name := trigger.name
  match ← Check.look fun t => t.resolveOperation name.name automaton argumentTypes with
  | .ok id => return id
  | .error (.ambiguous _ _ candidates) =>
    Check.fail .ambiguousOverload
      (s!"function '{name.name}' of automaton '{automaton}' has {candidates} overloads; " ++
        "list the argument types to pick one")
      name.span
  | .error (.unresolved _ _) =>
    let types := Trigger.typesText argumentTypes
    Check.fail .unresolvedFunction
      s!"unresolved function '{name.name}{types}' in automaton '{automaton}'" name.span

namespace ShiftDecl

/-- The operations that cause the shifts; there must be one. -/
def resolveTriggers (automaton : String) (d : ShiftDecl) : Build (List OperationId) :=
  if d.functions.isEmpty then
    Check.fail .invalidShift s!"shift in automaton '{automaton}' names no functions" d.span
  else d.functions.mapM fun trigger => trigger.resolve automaton

/-- Adds a shift from each source that has no error. -/
def addShifts (id : AutomatonId) (target : Endpoint) (functions : List OperationId) (span : Span) :
    List Identifier → Build Unit
  | [] => return ()
  | name :: rest => do
    if let some source ← (Build.ofCheck (name.resolveSource id)).attempt then
      Build.modify fun t =>
        t.modifyAutomaton id fun a =>
          { a with shifts := a.shifts ++ [⟨source, target, functions, span⟩] }
    addShifts id target functions span rest

/-- Adds the shifts of a declaration to an automaton. -/
def elaborate (id : AutomatonId) (d : ShiftDecl) : Build Unit := do
  match d.target with
  | none => Check.reject "shift declaration has no target state" d.span
  | some target =>
    if d.sources.isEmpty then
      Check.reject "shift declaration has no source state" d.span
    else
      let automaton ← Check.look fun t => ((t.automaton? id).map Automaton.name).getD ""
      let target ← target.resolveTarget id
      let functions ← d.resolveTriggers automaton
      addShifts id target functions d.span d.sources

end ShiftDecl

end SyntaxTree

end LibraryContract
