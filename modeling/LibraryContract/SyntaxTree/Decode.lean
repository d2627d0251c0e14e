import LibraryContract.Json.Reader
import LibraryContract.Json.Assembly
import LibraryContract.SyntaxTree.Basic

/-!
# Reading a syntax tree

The readers of this module give the shape in which a parser hands over a tree as a JSON document.
`SyntaxTree.Library.ofJson?` is the reader of a whole document; it accepts a document that nests up
to `SyntaxTree.maxLevels` arrays and objects deep.
-/

namespace LibraryContract

open Json (Reader Fields record list tagged tag string? bool? uint64? int64? binary64?)

namespace SyntaxTree

/-- How deep the part of a document that is read into a tree may nest. -/
def maxLevels : Nat := 127

/-- Reads a place; all four numbers must be given. -/
def readSpan : Reader Span :=
  record ["line", "column", "end_line", "end_column"] fun _ fields => do
    let line ← fields.required "line" uint64?
    let column ← fields.required "column" uint64?
    let endLine ← fields.required "end_line" uint64?
    let endColumn ← fields.required "end_column" uint64?
    some ⟨line, column, endLine, endColumn⟩

/-- Reads the member `span`, which may be missing. -/
def spanField (levels : Nat) (fields : Fields) : Option Span :=
  fields.defaulted "span" Span.unknown (readSpan levels)

def listField (levels : Nat) (fields : Fields) (name : String) (item : Reader α) :
    Option (List α) :=
  fields.defaulted name [] (list item levels)

def readIdentifier : Reader Identifier :=
  record ["name", "span"] fun levels fields => do
    let name ← fields.required "name" string?
    let span ← spanField levels fields
    some ⟨name, span⟩

def readTypeExpr : Reader TypeExpr
  | levels + 1, .object [(some name, content)] =>
    match name with
    | "Named" => (readIdentifier levels content).map .named
    | "Array" => (readTypeExpr levels content).map .array
    | _ => none
  | _, _ => none

def readLiteral : Reader Literal :=
  tagged fun _ name content => do
    let content ← content
    match name with
    | "Integer" => (int64? content).map .integer
    | "Float" => (binary64? content).map .float
    | "String" => (string? content).map .string
    | "Boolean" => (bool? content).map .boolean
    | _ => none

/-- Reads the content of a getter. -/
def readGetter : Reader Segment :=
  record ["automaton", "argument"] fun levels fields => do
    let automaton ← fields.required "automaton" (readIdentifier levels)
    let argument ← fields.required "argument" (readIdentifier levels)
    some (.getter automaton argument)

mutual

/-- Reads an expression: a record whose member `kind` is a tagged value. -/
def readExpr : Nat → Json → Option Expr
  | levels + 1, value => do
    let fields ← value.fields? ["span", "kind"]
    let span ← spanField levels fields
    (fields.lookup "kind").bind fun v => readExprKind levels span v
  | 0, _ => none

/-- Reads what an expression is apart from its place. -/
def readExprKind : Nat → Span → Json → Option Expr
  | levels + 1, span, .object [(some name, content)] =>
    match name with
    | "Literal" => (readLiteral levels content).map fun v => .literal v span
    | "Access" => (readChain levels content).map fun c => .access c span
    | "OldValue" => (readChain levels content).map fun c => .old c span
    | "Unary" => readUnary levels span content
    | "Binary" => readBinary levels span content
    | "Grouping" => (readExpr levels content).map fun e => .group e span
    | _ => none
  | _, _, _ => none

/-- Reads the content of a unary expression. -/
def readUnary : Nat → Span → Json → Option Expr
  | levels + 1, span, value => do
    let fields ← value.fields? ["operator", "operand"]
    let operator ← fields.required "operator" string?
    let operand ← (fields.lookup "operand").bind fun v => readExpr levels v
    some (.unary operator operand span)
  | 0, _, _ => none

/-- Reads the content of a binary expression. -/
def readBinary : Nat → Span → Json → Option Expr
  | levels + 1, span, value => do
    let fields ← value.fields? ["operator", "left", "right"]
    let operator ← fields.required "operator" string?
    let left ← (fields.lookup "left").bind fun v => readExpr levels v
    let right ← (fields.lookup "right").bind fun v => readExpr levels v
    some (.binary operator left right span)
  | 0, _, _ => none

def readChain : Nat → Json → Option Chain
  | levels + 1, value => do
    let fields ← value.fields? ["segments", "span"]
    let segments ← (fields.lookup "segments").bind fun v => readSegments levels v
    let span ← spanField levels fields
    some ⟨segments, span⟩
  | 0, _ => none

def readSegments : Nat → Json → Option (List Segment)
  | levels + 1, .array items => items.mapM fun item => readSegment levels item
  | _, _ => none

def readSegment : Nat → Json → Option Segment
  | levels + 1, .object [(some name, content)] =>
    match name with
    | "Name" => (readIdentifier levels content).map .name
    | "Index" => (readExpr levels content).map .index
    | "AutomatonGetter" => readGetter levels content
    | _ => none
  | _, _ => none

end

def readAnnotationUse : Reader AnnotationUse :=
  record ["name", "arguments"] fun levels fields => do
    let name ← fields.required "name" (readIdentifier levels)
    let arguments ← listField levels fields "arguments" readExpr
    some ⟨name, arguments⟩

def readParameter : Reader Parameter :=
  record ["name", "ty", "annotations"] fun levels fields => do
    let name ← fields.required "name" (readIdentifier levels)
    let type ← fields.required "ty" (readTypeExpr levels)
    let annotations ← listField levels fields "annotations" readAnnotationUse
    some ⟨name, type, annotations⟩

def readVariableDecl : Reader VariableDecl :=
  record ["name", "ty", "initializer"] fun levels fields => do
    let name ← fields.required "name" (readIdentifier levels)
    let type ← fields.required "ty" (readTypeExpr levels)
    let initial ← fields.optional "initializer" (readExpr levels)
    some ⟨name, type, initial⟩

def readAnnotationDecl : Reader AnnotationDecl :=
  record ["name", "parameters"] fun levels fields => do
    let name ← fields.required "name" (readIdentifier levels)
    let parameters ← listField levels fields "parameters" readParameter
    some ⟨name, parameters⟩

def readFieldDecl : Reader FieldDecl :=
  record ["name", "ty"] fun levels fields => do
    let name ← fields.required "name" (readIdentifier levels)
    let type ← fields.required "ty" (readTypeExpr levels)
    some ⟨name, type⟩

def readMemberDecl : Reader MemberDecl :=
  record ["name", "value"] fun levels fields => do
    let name ← fields.required "name" (readIdentifier levels)
    let value ← fields.optional "value" int64?
    some ⟨name, value⟩

/-- Reads the content of a type definition. -/
def readTypeContent (levels : Nat) (name : String) (content : Json) : Option TypeDefinition :=
  match name with
  | "Simple" => if content matches .null then some .simple else none
  | "Real" => if content matches .null then some .real else none
  | "Alias" =>
    record ["original"] (fun levels fields =>
      (fields.required "original" (readTypeExpr levels)).map .alias) levels content
  | "Structured" =>
    record ["fields"] (fun levels fields =>
      (fields.required "fields" (list readFieldDecl levels)).map .structured) levels content
  | "Enum" =>
    record ["values"] (fun levels fields =>
      (fields.required "values" (list readMemberDecl levels)).map .enum) levels content
  | "EnumLikeSemantic" =>
    record ["underlying", "backing"] (fun levels fields => do
      let underlying ← fields.required "underlying" (readIdentifier levels)
      let backing ← fields.required "backing" (readTypeExpr levels)
      some (.enumLike underlying backing)) levels content
  | _ => none

/-- Reads the definition of a type; a missing content counts as null. -/
def readTypeDefinition : Reader TypeDefinition :=
  tagged fun levels name content => readTypeContent levels name (content.getD .null)

def readTypeDecl : Reader TypeDecl :=
  record ["name", "kind"] fun levels fields => do
    let name ← fields.required "name" (readIdentifier levels)
    let definition ← fields.required "kind" (readTypeDefinition levels)
    some ⟨name, definition⟩

def stateKinds : List (String × StateKind) :=
  [.initial, .simple, .finish].map fun kind => (kind.tag, kind)

def operationKinds : List (String × OperationKind) :=
  [.function, .constructor, .destructor, .procedure].map fun kind => (kind.tag, kind)

def contractKinds : List (String × ContractKind) :=
  [.requires, .ensures, .assigns].map fun kind => (kind.tag, kind)

def readStateDecl : Reader StateDecl :=
  record ["name", "kind"] fun levels fields => do
    let name ← fields.required "name" (readIdentifier levels)
    let kind ← fields.required "kind" (tag stateKinds levels)
    some ⟨name, kind⟩

def readTrigger : Reader Trigger :=
  record ["name", "argument_types"] fun levels fields => do
    let name ← fields.required "name" (readIdentifier levels)
    let argumentTypes ← fields.optional "argument_types" (list readTypeExpr levels)
    some ⟨name, argumentTypes⟩

def readShiftDecl : Reader ShiftDecl :=
  record ["sources", "target", "functions", "span"] fun levels fields => do
    let sources ← fields.required "sources" (list readIdentifier levels)
    let target ← fields.optional "target" (readIdentifier levels)
    let functions ← listField levels fields "functions" readTrigger
    let span ← spanField levels fields
    some ⟨sources, target, functions, span⟩

def readContractDecl : Reader ContractDecl :=
  record ["name", "kind", "expression", "span"] fun levels fields => do
    let name ← fields.optional "name" (readIdentifier levels)
    let kind ← fields.required "kind" (tag contractKinds levels)
    let expression ← fields.required "expression" (readExpr levels)
    let span ← spanField levels fields
    some ⟨name, kind, expression, span⟩

def readNamedArgument : Reader NamedArgument :=
  record ["name", "value"] fun levels fields => do
    let name ← fields.required "name" (readIdentifier levels)
    let value ← fields.required "value" (readExpr levels)
    some ⟨name, value⟩

def readConstructorCall : Reader ConstructorCall :=
  record ["automaton", "arguments", "span"] fun levels fields => do
    let automaton ← fields.required "automaton" (readIdentifier levels)
    let arguments ← listField levels fields "arguments" readNamedArgument
    let span ← spanField levels fields
    some ⟨automaton, arguments, span⟩

/-- Reads the content of an assignment. -/
def readAssignment : Reader Statement :=
  record ["target", "value", "constructor", "span"] fun levels fields => do
    let target ← fields.required "target" (readChain levels)
    let value ← fields.optional "value" (readExpr levels)
    let constructor ← fields.optional "constructor" (readConstructorCall levels)
    let span ← spanField levels fields
    some (.assignment target value constructor span)

/-- Reads the content of an action. -/
def readAction : Reader Statement :=
  record ["name", "arguments", "span"] fun levels fields => do
    let name ← fields.required "name" (readIdentifier levels)
    let arguments ← listField levels fields "arguments" readExpr
    let span ← spanField levels fields
    some (.action name arguments span)

def readStatement : Reader Statement :=
  tagged fun levels name content => do
    let content ← content
    match name with
    | "Assignment" => readAssignment levels content
    | "Action" => readAction levels content
    | "Variable" => (readVariableDecl levels content).map .variable
    | _ => none

def readFunctionDecl : Reader FunctionDecl :=
  record ["kind", "automaton", "name", "parameters", "return_type", "annotations", "contracts",
      "body", "span"] fun levels fields => do
    let kind ← fields.required "kind" (tag operationKinds levels)
    let automaton ← fields.optional "automaton" (readIdentifier levels)
    let name ← fields.optional "name" (readIdentifier levels)
    let parameters ← listField levels fields "parameters" readParameter
    let returnType ← fields.optional "return_type" (readTypeExpr levels)
    let annotations ← listField levels fields "annotations" readAnnotationUse
    let contracts ← listField levels fields "contracts" readContractDecl
    let body ← fields.optional "body" (list readStatement levels)
    let span ← spanField levels fields
    some ⟨kind, automaton, name, parameters, returnType, annotations, contracts, body, span⟩

def readAutomatonDecl : Reader AutomatonDecl :=
  record ["name", "ty", "constructor_variables", "states", "variables", "shifts", "functions",
      "span"] fun levels fields => do
    let name ← fields.required "name" (readIdentifier levels)
    let type ← fields.required "ty" (readTypeExpr levels)
    let constructorVariables ← listField levels fields "constructor_variables" readVariableDecl
    let states ← listField levels fields "states" readStateDecl
    let instanceVariables ← listField levels fields "variables" readVariableDecl
    let shifts ← listField levels fields "shifts" readShiftDecl
    let functions ← listField levels fields "functions" readFunctionDecl
    let span ← spanField levels fields
    some ⟨name, type, constructorVariables, states, instanceVariables, shifts, functions, span⟩

def readDeclaration : Reader Declaration :=
  tagged fun levels name content => do
    let content ← content
    match name with
    | "Type" => (readTypeDecl levels content).map .typeDecl
    | "Annotation" => (readAnnotationDecl levels content).map .annotationDecl
    | "Variable" => (readVariableDecl levels content).map .variableDecl
    | "Automaton" => (readAutomatonDecl levels content).map .automatonDecl
    | "Function" => (readFunctionDecl levels content).map .functionDecl
    | _ => none

def readLibrary : Reader Library :=
  record ["name", "lsl_version", "library_version", "language", "url", "imports", "includes",
      "declarations"] fun levels fields => do
    let name ← fields.required "name" (readIdentifier levels)
    let lslVersion ← fields.optional "lsl_version" string?
    let libraryVersion ← fields.optional "library_version" string?
    let language ← fields.optional "language" string?
    let url ← fields.optional "url" string?
    let imports ← listField levels fields "imports" fun _ => string?
    let includes ← listField levels fields "includes" fun _ => string?
    let declarations ← listField levels fields "declarations" readDeclaration
    some ⟨name, lslVersion, libraryVersion, language, url, imports, includes, declarations⟩

def TypeExpr.ofJson? (document : Json) : Option TypeExpr := readTypeExpr maxLevels document

def Library.ofJson? (document : Json) : Option Library := readLibrary maxLevels document

/-- Why a text holds no library. -/
inductive ReadError
  | notJson (fault : Json.Fault)
  /-- A JSON document of another shape. -/
  | notLibrary
deriving DecidableEq, Repr

def ReadError.message : ReadError → String
  | .notJson fault => fault.message
  | .notLibrary => "the document is not a library"

def Library.ofText (text : String) : Except ReadError Library :=
  match Json.ofText text with
  | .error fault => .error (.notJson fault)
  | .ok document =>
    match Library.ofJson? document with
    | some library => .ok library
    | none => .error .notLibrary

end SyntaxTree

end LibraryContract
