import LibraryContract.Binary64.Basic
import LibraryContract.Span

/-!
# The syntax tree of a library contract

A library contract names types, annotations, global variables, automata and functions. This
module holds the tree in which a parser hands such a contract over, before any name in it has
been looked up. A tree is plain data: names and type expressions are as they were written, and
nothing says that they mean anything.

The namespace `SyntaxTree` keeps these types apart from the resolved entities of the same names.
-/

namespace LibraryContract

namespace SyntaxTree

/-- A name and where it stands. -/
structure Identifier where
  name : String
  span : Span
deriving DecidableEq, Repr, Inhabited

/-- A type as it is written: a name, or an array of something. -/
inductive TypeExpr
  | named (name : Identifier)
  | array (element : TypeExpr)
deriving DecidableEq, Repr, Inhabited

namespace TypeExpr

/-- The identifier that stands innermost. -/
def innermost : TypeExpr → Identifier
  | .named name => name
  | .array element => element.innermost

/-- The place of a type expression is the place of its innermost name. -/
def span (e : TypeExpr) : Span := e.innermost.span

/-- The name under which the type is, or will be, registered. -/
def canonicalName : TypeExpr → String
  | .named name => name.name
  | .array element => element.canonicalName ++ "[]"

end TypeExpr

inductive Literal
  | integer (value : Int64)
  | float (value : Binary64)
  | string (value : String)
  | boolean (value : Bool)
deriving DecidableEq, Repr

mutual

/-- An expression. Operators are kept as they are written. -/
inductive Expr
  | literal (value : Literal) (span : Span)
  | access (chain : Chain) (span : Span)
  /-- The value that the location had when the operation was entered. -/
  | old (chain : Chain) (span : Span)
  | unary (operator : String) (operand : Expr) (span : Span)
  | binary (operator : String) (left right : Expr) (span : Span)
  /-- An expression in parentheses. -/
  | group (inner : Expr) (span : Span)

/-- A location, written as a chain of segments such as `p.items[i].x`. -/
structure Chain where
  segments : List Segment
  span : Span

inductive Segment
  | name (name : Identifier)
  | index (index : Expr)
  /-- The automaton that an argument stands for, written `Automaton(argument)`. -/
  | getter (automaton argument : Identifier)

end

deriving instance Repr for Expr, Chain, Segment

def Expr.span : Expr → Span
  | .literal _ s | .access _ s | .old _ s | .unary _ _ s | .binary _ _ _ s | .group _ s => s

/-- A variable with its declared type and the expression that it starts from. -/
structure VariableDecl where
  name : Identifier
  type : TypeExpr
  initializer : Option Expr
deriving Repr

/-- An annotation at the place where it is used. -/
structure AnnotationUse where
  name : Identifier
  arguments : List Expr
deriving Repr

/-- A parameter of a function or of an annotation. -/
structure Parameter where
  name : Identifier
  type : TypeExpr
  annotations : List AnnotationUse
deriving Repr

structure AnnotationDecl where
  name : Identifier
  parameters : List Parameter
deriving Repr

structure FieldDecl where
  name : Identifier
  type : TypeExpr
deriving Repr

/-- A member of an enum, with its discriminant when one is written. -/
structure MemberDecl where
  name : Identifier
  value : Option Int64
deriving Repr

/-- What a type declaration says about its type. -/
inductive TypeDefinition
  | simple
  /-- A type of the implementation language. -/
  | real
  | alias (target : TypeExpr)
  | structured (fields : List FieldDecl)
  | enum (members : List MemberDecl)
  /-- The members of an enum, each standing for a value of the backing type. -/
  | enumLike (underlying : Identifier) (backing : TypeExpr)
deriving Repr

structure TypeDecl where
  name : Identifier
  definition : TypeDefinition
deriving Repr

/-- The role of a state of an automaton. -/
inductive StateKind
  | initial
  | simple
  | finish
deriving DecidableEq, Repr

def StateKind.tag : StateKind → String
  | .initial => "Initial"
  | .simple => "Simple"
  | .finish => "Finish"

structure StateDecl where
  name : Identifier
  kind : StateKind
deriving Repr

/-- A function that triggers a shift; the argument types pick one of several overloads. -/
structure Trigger where
  name : Identifier
  argumentTypes : Option (List TypeExpr)
deriving Repr

/-- Shifts from several states to one. A parser may hand over a shift without a target. -/
structure ShiftDecl where
  sources : List Identifier
  target : Option Identifier
  functions : List Trigger
  span : Span
deriving Repr

inductive OperationKind
  | function
  | constructor
  | destructor
  | procedure
deriving DecidableEq, Repr

def OperationKind.tag : OperationKind → String
  | .function => "Function"
  | .constructor => "Constructor"
  | .destructor => "Destructor"
  | .procedure => "Procedure"

def OperationKind.describe : OperationKind → String
  | .function => "function"
  | .constructor => "constructor"
  | .destructor => "destructor"
  | .procedure => "procedure"

/-- What a contract says about its expression. -/
inductive ContractKind
  | requires
  | ensures
  | assigns
deriving DecidableEq, Repr

def ContractKind.tag : ContractKind → String
  | .requires => "Requires"
  | .ensures => "Ensures"
  | .assigns => "Assigns"

def ContractKind.describe : ContractKind → String
  | .requires => "requires"
  | .ensures => "ensures"
  | .assigns => "assigns"

structure ContractDecl where
  name : Option Identifier
  kind : ContractKind
  expression : Expr
  span : Span
deriving Repr

/-- An argument of a constructor call, bound by name. -/
structure NamedArgument where
  name : Identifier
  value : Expr
deriving Repr

structure ConstructorCall where
  automaton : Identifier
  arguments : List NamedArgument
  span : Span
deriving Repr

/-- A statement of a body. An assignment is meant to have a value or a constructor call, but
not both. -/
inductive Statement
  | assignment (target : Chain) (value : Option Expr) (constructor : Option ConstructorCall)
      (span : Span)
  | action (name : Identifier) (arguments : List Expr) (span : Span)
  | variable (declaration : VariableDecl)
deriving Repr

/-- The declaration of an operation; without a body it announces one. -/
structure FunctionDecl where
  kind : OperationKind
  /-- The automaton that qualifies the name. -/
  automaton : Option Identifier
  name : Option Identifier
  parameters : List Parameter
  returnType : Option TypeExpr
  annotations : List AnnotationUse
  contracts : List ContractDecl
  body : Option (List Statement)
  span : Span
deriving Repr

structure AutomatonDecl where
  name : Identifier
  type : TypeExpr
  constructorVariables : List VariableDecl
  states : List StateDecl
  instanceVariables : List VariableDecl
  shifts : List ShiftDecl
  functions : List FunctionDecl
  span : Span
deriving Repr

inductive Declaration
  | typeDecl (declaration : TypeDecl)
  | annotationDecl (declaration : AnnotationDecl)
  | variableDecl (declaration : VariableDecl)
  | automatonDecl (declaration : AutomatonDecl)
  | functionDecl (declaration : FunctionDecl)
deriving Repr

/-- A library: what it says about itself, and its declarations. -/
structure Library where
  name : Identifier
  lslVersion : Option String
  libraryVersion : Option String
  language : Option String
  url : Option String
  imports : List String
  includes : List String
  declarations : List Declaration
deriving Repr

namespace Library

def types (l : Library) : List TypeDecl :=
  l.declarations.filterMap fun | .typeDecl d => some d | _ => none

def annotations (l : Library) : List AnnotationDecl :=
  l.declarations.filterMap fun | .annotationDecl d => some d | _ => none

def globals (l : Library) : List VariableDecl :=
  l.declarations.filterMap fun | .variableDecl d => some d | _ => none

def automata (l : Library) : List AutomatonDecl :=
  l.declarations.filterMap fun | .automatonDecl d => some d | _ => none

/-- The operations declared outside every automaton, in order. -/
def functions (l : Library) : List FunctionDecl :=
  l.declarations.filterMap fun | .functionDecl d => some d | _ => none

end Library

end SyntaxTree

end LibraryContract
