import LibraryContract.Analysis.Expr
import LibraryContract.Analysis.TypeExpr

/-!
# Signatures of operations

A signature is everything about an operation but its contracts and its body: the automaton that
owns it, its annotations, its arguments and the type that it returns. An argument annotated with
`target` names an automaton instead of a type; the operation then works on that automaton.

`FunctionDecl.register` gives up at the first problem, and then registers nothing.
-/

namespace LibraryContract

/-- What the user may choose. -/
structure Options where
  /-- Whether an operation inside an automaton must not name that automaton as its owner again. -/
  strictOwnership : Bool
deriving DecidableEq, Repr

namespace Options

/-- The choice when the user makes none. -/
def standard : Options := ⟨true⟩

instance : Inhabited Options := ⟨standard⟩

end Options

namespace SyntaxTree

/-- A use of an annotation, with its arguments looked up. -/
def AnnotationUse.resolve (scope : Scope) (use : AnnotationUse) :
    Check LibraryContract.AnnotationUse := do
  let name := use.name.name
  match ← Check.look fun t => (t.annotation? name).map fun a => a.parameters.length with
  | none => Check.fail .unresolvedAnnotationUse s!"unresolved annotation '{name}'" use.name.span
  | some expected =>
    if expected ≠ use.arguments.length then
      Check.fail .invalidAnnotationUse
        s!"annotation '{name}' expects {expected} argument(s), found {use.arguments.length}"
        use.name.span
    else
      let arguments ← use.arguments.mapM fun e => e.elaborate scope
      return ⟨name, arguments⟩

/-- Uses of annotations, up to the first that does not resolve. -/
def resolveAnnotations (scope : Scope) (uses : List AnnotationUse) :
    Check (List LibraryContract.AnnotationUse) :=
  uses.mapM fun use => use.resolve scope

namespace FunctionDecl

/-- The operation in messages about its declaration. -/
def words (d : FunctionDecl) : String :=
  match d.name with
  | some name => s!"{d.kind.describe} '{name.name}'"
  | none => d.kind.describe

/-- The automaton that owns an operation: the one around it, or else the one that qualifies it.
When both are there they conflict; under lenient ownership a qualifier that repeats the automaton
around it is only warned about. -/
def resolveOwner (options : Options) (d : FunctionDecl) (enclosing : Option AutomatonId) :
    Check AutomatonId := do
  match d.automaton, enclosing with
  | some qualifier, some enclosing => do
    let name ← Check.look fun t => ((t.automaton? enclosing).map Automaton.name).getD ""
    if !options.strictOwnership && decide (qualifier.name = name) then
      Check.warn .conflictingOwner
        s!"{d.words} is nested in automaton '{name}' and needs no qualifier" qualifier.span
      return enclosing
    else
      Check.fail .conflictingOwner
        s!"{d.words} is nested in automaton '{name}' and also qualified with '{qualifier.name}'"
        qualifier.span
  | some qualifier, none => qualifier.resolveAutomaton
  | none, some enclosing => return enclosing
  | none, none =>
    Check.fail .missingOwner
      s!"{d.words} must be declared inside an automaton or qualified with one" d.span

end FunctionDecl

namespace Parameter

/-- The automaton that an argument annotated with `target` names. -/
def resolveTarget (p : Parameter) : Check AutomatonId :=
  match p.type with
  | .named name => name.resolveAutomaton
  | .array _ =>
    Check.fail .invalidAnnotationUse
      s!"argument '{p.name.name}' is marked '{targetName}' but its type is not an automaton"
      p.type.span

/-- The argument that a parameter declares, and the automaton that it names as the target. -/
def resolve (scope : Scope) (index : Nat) (p : Parameter) :
    Build (Argument × Option AutomatonId) := do
  let annotations ← resolveAnnotations scope p.annotations
  if annotations.any fun use => decide (use.name = targetName) then
    let target ← p.resolveTarget
    let type ← Check.look fun t => ((t.automaton? target).map Automaton.type).getD ""
    return (⟨p.name.name, type, index, annotations, p.name.span⟩, some target)
  else
    let type ← p.type.resolve
    return (⟨p.name.name, type, index, annotations, p.name.span⟩, none)

/-- The arguments that the parameters of an operation declare; each needs a name of its own. -/
def resolveAll (scope : Scope) (words : String) (seen : List String) (index : Nat) :
    List Parameter → Build (List (Argument × Option AutomatonId))
  | [] => return []
  | p :: rest => do
    if p.name.name ∈ seen then
      Check.fail .duplicateDeclaration s!"duplicate argument '{p.name.name}' in {words}"
        p.name.span
    let argument ← p.resolve scope index
    let arguments ← resolveAll scope words (p.name.name :: seen) (index + 1) rest
    return argument :: arguments

end Parameter

namespace FunctionDecl

/-- The signature that a declaration gives an operation of the automaton `owner`. -/
def signature (d : FunctionDecl) (owner : AutomatonId) : Build Signature := do
  let ownerName ← Check.look fun t => ((t.automaton? owner).map Automaton.name).getD ""
  let scope := Scope.inAutomaton owner
  let annotations ← resolveAnnotations scope d.annotations
  let arguments ← Parameter.resolveAll scope d.words [] 0 d.parameters
  let returnType ← d.returnType.mapM fun type => type.resolve
  let target ← Check.look fun t =>
    ((arguments.findSome? Prod.snd).bind t.automaton?).map Automaton.name
  return {
    kind := d.kind
    name := d.name.map Identifier.name
    owner := ownerName
    target := target.getD ownerName
    arguments := arguments.map Prod.fst
    returnType := returnType
    annotations := annotations
    hasBody := d.body.isSome
    span := d.span }

/-- Declares the variable that holds the returned value, for an operation that returns one and
does not have the variable yet. -/
def declareResult (id : OperationId) (span : Span) : Build Unit := do
  match ← Check.look fun t => t.operation? id with
  | none => return ()
  | some o =>
    match o.returnType with
    | none => return ()
    | some type =>
      if o.locals.contains resultName then return ()
      else
        Build.registerUnit
          (fun t => t.registerVariable ⟨resultName, type, .result id, none, span⟩) span

/-- Registers the signature of an operation, in the automaton around it if there is one. -/
def register (options : Options) (d : FunctionDecl) (enclosing : Option AutomatonId) :
    Build Registration := do
  let owner ← d.resolveOwner options enclosing
  let signature ← d.signature owner
  let registration ← Build.register (fun t => t.registerOperation signature) d.span
  declareResult registration.id d.span
  return registration

end FunctionDecl

end SyntaxTree

end LibraryContract
