import LibraryContract.SyntaxTree.Basic
import LibraryContract.Json.Basic

/-!
# Writing a syntax tree

The JSON value of a tree in its full form: every member is written, an absent one as null, and a
tag without content as a string.
-/

namespace LibraryContract

namespace SyntaxTree

/-- The value of a tag with content. -/
def taggedJson (tag : String) (content : Json) : Json := .ofMembers [(tag, content)]

/-- The value of something that may be absent. -/
def optionJson (encode : α → Json) : Option α → Json
  | none => .null
  | some a => encode a

def listJson (encode : α → Json) (items : List α) : Json := .array (items.map encode)

def spanJson (s : Span) : Json :=
  .ofMembers
    [("line", .ofUInt64 s.line), ("column", .ofUInt64 s.column),
      ("end_line", .ofUInt64 s.endLine), ("end_column", .ofUInt64 s.endColumn)]

def Identifier.toJson (i : Identifier) : Json :=
  .ofMembers [("name", .ofString i.name), ("span", spanJson i.span)]

def TypeExpr.toJson : TypeExpr → Json
  | .named name => taggedJson "Named" name.toJson
  | .array element => taggedJson "Array" element.toJson

def Literal.toJson : Literal → Json
  | .integer n => taggedJson "Integer" (.ofInt64 n)
  | .float x => taggedJson "Float" (.ofBinary64 x)
  | .string s => taggedJson "String" (.ofString s)
  | .boolean b => taggedJson "Boolean" (.bool b)

def exprJson (span : Span) (tag : String) (content : Json) : Json :=
  .ofMembers [("span", spanJson span), ("kind", taggedJson tag content)]

mutual

def Expr.toJson : Expr → Json
  | .literal value span => exprJson span "Literal" value.toJson
  | .access chain span => exprJson span "Access" chain.toJson
  | .old chain span => exprJson span "OldValue" chain.toJson
  | .unary operator operand span =>
    exprJson span "Unary"
      (.ofMembers [("operator", .ofString operator), ("operand", operand.toJson)])
  | .binary operator left right span =>
    exprJson span "Binary"
      (.ofMembers
        [("operator", .ofString operator), ("left", left.toJson), ("right", right.toJson)])
  | .group inner span => exprJson span "Grouping" inner.toJson

def Chain.toJson : Chain → Json
  | ⟨segments, span⟩ =>
    .ofMembers [("segments", .array (segmentsJson segments)), ("span", spanJson span)]

def segmentsJson : List Segment → List Json
  | [] => []
  | segment :: rest => segment.toJson :: segmentsJson rest

def Segment.toJson : Segment → Json
  | .name name => taggedJson "Name" name.toJson
  | .index index => taggedJson "Index" index.toJson
  | .getter automaton argument =>
    taggedJson "AutomatonGetter"
      (.ofMembers [("automaton", automaton.toJson), ("argument", argument.toJson)])

end

def AnnotationUse.toJson (u : AnnotationUse) : Json :=
  .ofMembers [("name", u.name.toJson), ("arguments", listJson Expr.toJson u.arguments)]

def Parameter.toJson (p : Parameter) : Json :=
  .ofMembers
    [("name", p.name.toJson), ("ty", p.type.toJson),
      ("annotations", listJson AnnotationUse.toJson p.annotations)]

def VariableDecl.toJson (d : VariableDecl) : Json :=
  .ofMembers
    [("name", d.name.toJson), ("ty", d.type.toJson),
      ("initializer", optionJson Expr.toJson d.initializer)]

def AnnotationDecl.toJson (d : AnnotationDecl) : Json :=
  .ofMembers [("name", d.name.toJson), ("parameters", listJson Parameter.toJson d.parameters)]

def FieldDecl.toJson (d : FieldDecl) : Json :=
  .ofMembers [("name", d.name.toJson), ("ty", d.type.toJson)]

def MemberDecl.toJson (d : MemberDecl) : Json :=
  .ofMembers [("name", d.name.toJson), ("value", optionJson Json.ofInt64 d.value)]

def TypeDefinition.toJson : TypeDefinition → Json
  | .simple => .ofString "Simple"
  | .real => .ofString "Real"
  | .alias target => taggedJson "Alias" (.ofMembers [("original", target.toJson)])
  | .structured fields =>
    taggedJson "Structured" (.ofMembers [("fields", listJson FieldDecl.toJson fields)])
  | .enum members => taggedJson "Enum" (.ofMembers [("values", listJson MemberDecl.toJson members)])
  | .enumLike underlying backing =>
    taggedJson "EnumLikeSemantic"
      (.ofMembers [("underlying", underlying.toJson), ("backing", backing.toJson)])

def TypeDecl.toJson (d : TypeDecl) : Json :=
  .ofMembers [("name", d.name.toJson), ("kind", d.definition.toJson)]

def StateDecl.toJson (d : StateDecl) : Json :=
  .ofMembers [("name", d.name.toJson), ("kind", .ofString d.kind.tag)]

def Trigger.toJson (t : Trigger) : Json :=
  .ofMembers
    [("name", t.name.toJson),
      ("argument_types", optionJson (listJson TypeExpr.toJson) t.argumentTypes)]

def ShiftDecl.toJson (d : ShiftDecl) : Json :=
  .ofMembers
    [("sources", listJson Identifier.toJson d.sources),
      ("target", optionJson Identifier.toJson d.target),
      ("functions", listJson Trigger.toJson d.functions), ("span", spanJson d.span)]

def ContractDecl.toJson (d : ContractDecl) : Json :=
  .ofMembers
    [("name", optionJson Identifier.toJson d.name), ("kind", .ofString d.kind.tag),
      ("expression", d.expression.toJson), ("span", spanJson d.span)]

def NamedArgument.toJson (a : NamedArgument) : Json :=
  .ofMembers [("name", a.name.toJson), ("value", a.value.toJson)]

def ConstructorCall.toJson (c : ConstructorCall) : Json :=
  .ofMembers
    [("automaton", c.automaton.toJson), ("arguments", listJson NamedArgument.toJson c.arguments),
      ("span", spanJson c.span)]

def Statement.toJson : Statement → Json
  | .assignment target value constructor span =>
    taggedJson "Assignment"
      (.ofMembers
        [("target", target.toJson), ("value", optionJson Expr.toJson value),
          ("constructor", optionJson ConstructorCall.toJson constructor), ("span", spanJson span)])
  | .action name arguments span =>
    taggedJson "Action"
      (.ofMembers
        [("name", name.toJson), ("arguments", listJson Expr.toJson arguments),
          ("span", spanJson span)])
  | .variable declaration => taggedJson "Variable" declaration.toJson

def FunctionDecl.toJson (d : FunctionDecl) : Json :=
  .ofMembers
    [("kind", .ofString d.kind.tag), ("automaton", optionJson Identifier.toJson d.automaton),
      ("name", optionJson Identifier.toJson d.name),
      ("parameters", listJson Parameter.toJson d.parameters),
      ("return_type", optionJson TypeExpr.toJson d.returnType),
      ("annotations", listJson AnnotationUse.toJson d.annotations),
      ("contracts", listJson ContractDecl.toJson d.contracts),
      ("body", optionJson (listJson Statement.toJson) d.body), ("span", spanJson d.span)]

def AutomatonDecl.toJson (d : AutomatonDecl) : Json :=
  .ofMembers
    [("name", d.name.toJson), ("ty", d.type.toJson),
      ("constructor_variables", listJson VariableDecl.toJson d.constructorVariables),
      ("states", listJson StateDecl.toJson d.states),
      ("variables", listJson VariableDecl.toJson d.instanceVariables),
      ("shifts", listJson ShiftDecl.toJson d.shifts),
      ("functions", listJson FunctionDecl.toJson d.functions), ("span", spanJson d.span)]

def Declaration.toJson : Declaration → Json
  | .typeDecl d => taggedJson "Type" d.toJson
  | .annotationDecl d => taggedJson "Annotation" d.toJson
  | .variableDecl d => taggedJson "Variable" d.toJson
  | .automatonDecl d => taggedJson "Automaton" d.toJson
  | .functionDecl d => taggedJson "Function" d.toJson

def Library.toJson (l : Library) : Json :=
  .ofMembers
    [("name", l.name.toJson), ("lsl_version", optionJson Json.ofString l.lslVersion),
      ("library_version", optionJson Json.ofString l.libraryVersion),
      ("language", optionJson Json.ofString l.language), ("url", optionJson Json.ofString l.url),
      ("imports", listJson Json.ofString l.imports),
      ("includes", listJson Json.ofString l.includes),
      ("declarations", listJson Declaration.toJson l.declarations)]

end SyntaxTree

end LibraryContract
