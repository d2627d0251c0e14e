import LibraryContract.Operator
import LibraryContract.OrderedMap
import LibraryContract.SyntaxTree.Basic

/-!
# Resolved entities

What a library contract declares, after names have been looked up. Automata and operations are
numbered in the order of their registration and point at each other by number, so an automaton
that is still being filled in can already be pointed at; types, owners and annotations are
pointed at by name.

A resolved access (`Access`) is never empty: a first link and the links that follow it. Each link
carries the type that the access has reached there.
-/

namespace LibraryContract

open SyntaxTree (Literal StateKind OperationKind ContractKind)

structure AutomatonId where
  index : Nat
deriving DecidableEq, Repr

structure OperationId where
  index : Nat
deriving DecidableEq, Repr

/-- The variable that holds the value an operation returns. -/
def resultName : String := "result"

/-- The annotation of an argument that stands for the automaton an operation works on. -/
def targetName : String := "target"

/-- Where a variable belongs: to the library, to an automaton as an instance variable or as a
parameter of its constructors, or to an operation as an argument, as a variable of its body or as
the value that it returns. -/
inductive VariableScope
  | global
  | automaton (owner : AutomatonId)
  | constructorParameter (owner : AutomatonId)
  | argument (owner : OperationId)
  | body (owner : OperationId)
  | result (owner : OperationId)
deriving DecidableEq, Repr

namespace VariableScope

def describe : VariableScope → String
  | .global => "global"
  | .automaton _ => "automaton"
  | .constructorParameter _ => "constructor parameter"
  | .argument _ => "function argument"
  | .body _ => "function local"
  | .result _ => "result"

/-- Whether a variable holds the value an operation returns. -/
def isResult : VariableScope → Bool
  | .result _ => true
  | _ => false

end VariableScope

mutual

/-- A resolved expression. Parentheses have done their work and are gone. -/
inductive Value
  | literal (value : Literal)
  | access (location : Access)
  /-- The value that the location had when the operation was entered. -/
  | old (location : Access)
  | unary (operator : UnaryOperator) (operand : Value)
  | binary (operator : BinaryOperator) (left right : Value)

structure Access where
  head : Link
  rest : List Link

/-- One step of an access, with the type that it reaches. -/
inductive Link
  /-- A variable, when it has a scope, or a field. -/
  | name (name type : String) (scope : Option VariableScope)
  | index (index : Value) (element : String)
  /-- The automaton that an argument stands for. -/
  | getter (automaton : AutomatonId) (argument type : String)

end

def Link.type : Link → String
  | .name _ type _ => type
  | .index _ element => element
  | .getter _ _ type => type

namespace Access

def links (a : Access) : List Link := a.head :: a.rest

/-- The type of the location: the type that the last link reaches. -/
def type (a : Access) : String := (a.rest.getLastD a.head).type

def depth (a : Access) : Nat := a.links.length

/-- A path with one link more. Names are set off by dots, an index shows as brackets without its
expression, a getter as its argument in parentheses. -/
def extendPath (path : String) : Link → String
  | .name name _ _ => if path.isEmpty then name else path ++ "." ++ name
  | .index _ _ => path ++ "[]"
  | .getter _ argument _ => path ++ s!"({argument})"

/-- The location on one line, such as `p.items[].x`. -/
def path (a : Access) : String := a.links.foldl extendPath ""

end Access

structure Variable where
  name : String
  type : String
  scope : VariableScope
  initial : Option Value
  span : Span

/-- An annotation that is used, with the values of its arguments. -/
structure AnnotationUse where
  name : String
  arguments : List Value

structure AnnotationParameter where
  name : String
  type : String
deriving DecidableEq, Repr

structure Annotation where
  name : String
  parameters : List AnnotationParameter
deriving DecidableEq, Repr

structure State where
  name : String
  kind : StateKind
  span : Span
deriving DecidableEq, Repr

/-- Where a shift starts or ends. -/
inductive Endpoint
  /-- Every state, as a source. -/
  | any
  /-- The state that the automaton is in, as a target. -/
  | stay
  | state (name : String)
deriving DecidableEq, Repr

namespace Endpoint

/-- The word for every state. -/
def anyWord : String := "any"

/-- The word for the state that the automaton is in. -/
def stayWord : String := "self"

def describe : Endpoint → String
  | .any => anyWord
  | .stay => stayWord
  | .state name => name

end Endpoint

/-- A shift between states that calls of some operations cause. -/
structure Shift where
  source : Endpoint
  target : Endpoint
  functions : List OperationId
  span : Span
deriving DecidableEq, Repr

structure Automaton where
  id : AutomatonId
  name : String
  type : String
  span : Span
  states : OrderedMap String State
  shifts : List Shift
  functions : List OperationId
  constructors : List OperationId
  destructors : List OperationId
  procedures : List OperationId
  instanceVariables : OrderedMap String Variable
  constructorVariables : OrderedMap String Variable

namespace Automaton

/-- An automaton of which only the head of its declaration is known. -/
def skeleton (id : AutomatonId) (name type : String) (span : Span) : Automaton where
  id := id
  name := name
  type := type
  span := span
  states := .empty
  shifts := []
  functions := []
  constructors := []
  destructors := []
  procedures := []
  instanceVariables := .empty
  constructorVariables := .empty

def state? (a : Automaton) (name : String) : Option State := a.states.get? name

/-- The variable of a name: an instance variable hides a constructor variable. -/
def variableNamed? (a : Automaton) (name : String) : Option Variable :=
  (a.instanceVariables.get? name).or (a.constructorVariables.get? name)

/-- The operations of a kind, in order of registration. -/
def operations (a : Automaton) : OperationKind → List OperationId
  | .function => a.functions
  | .constructor => a.constructors
  | .destructor => a.destructors
  | .procedure => a.procedures

/-- The automaton with an operation more. -/
def addOperation (a : Automaton) (kind : OperationKind) (id : OperationId) : Automaton :=
  match kind with
  | .function => { a with functions := a.functions ++ [id] }
  | .constructor => { a with constructors := a.constructors ++ [id] }
  | .destructor => { a with destructors := a.destructors ++ [id] }
  | .procedure => { a with procedures := a.procedures ++ [id] }

end Automaton

structure Argument where
  name : String
  type : String
  index : Nat
  annotations : List AnnotationUse
  span : Span

structure Contract where
  name : Option String
  kind : ContractKind
  expression : Value
  span : Span

structure ConstructorArgument where
  name : String
  value : Value

/-- The creation of an automaton in a state. -/
structure ConstructorCall where
  automaton : AutomatonId
  state : String
  arguments : List ConstructorArgument

/-- What an assignment assigns. -/
inductive AssignedValue
  | value (value : Value)
  | constructed (call : ConstructorCall)

inductive Statement
  | assignment (target : Access) (value : AssignedValue) (span : Span)
  | action (name : String) (arguments : List Value) (span : Span)
  | declaration (declared : Variable)

/-- What the declaration of an operation says before contracts and body are looked at. -/
structure Signature where
  kind : OperationKind
  name : Option String
  /-- The automaton that the operation belongs to. -/
  owner : String
  /-- The automaton that the operation works on. -/
  target : String
  arguments : List Argument
  returnType : Option String
  annotations : List AnnotationUse
  hasBody : Bool
  span : Span

namespace Signature

/-- The operation in messages: its name, or its kind in angle brackets, after its owner. -/
def displayName (s : Signature) : String :=
  match s.name with
  | some name => s!"{s.owner}.{name}"
  | none => s!"{s.owner}.<{s.kind.describe}>"

def argumentTypes (s : Signature) : List String := s.arguments.map Argument.type

def argument? (s : Signature) (name : String) : Option Argument :=
  s.arguments.find? fun a => decide (a.name = name)

/-- Whether the operation works on another automaton than its owner. -/
def isRetargeted (s : Signature) : Bool := decide (s.owner ≠ s.target)

end Signature

structure Operation extends Signature where
  id : OperationId
  contracts : List Contract
  statements : List Statement
  locals : OrderedMap String Variable

namespace Operation

/-- An operation of which only the signature is known. -/
def ofSignature (id : OperationId) (s : Signature) : Operation where
  toSignature := s
  id := id
  contracts := []
  statements := []
  locals := .empty

/-- The variable that holds the returned value. -/
def result? (o : Operation) : Option Variable :=
  (o.locals.get? resultName).filter fun v => v.scope.isResult

end Operation

end LibraryContract
