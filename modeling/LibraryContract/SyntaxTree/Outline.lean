import LibraryContract.Binary64.Shortest
import LibraryContract.Outline
import LibraryContract.Text.Quoted
import LibraryContract.SyntaxTree.Basic

/-!
# Showing a syntax tree

The outline in which a user can look at the tree that was read, with the names that trees have in
the documentation of the format.
-/

namespace LibraryContract

namespace SyntaxTree

open Outline (record variant list option)

def quotedOutline (s : String) : Outline := .atom (Text.quoted s)

def numberOutline (n : UInt64) : Outline := .atom (toString n.toNat)

def spanOutline (s : Span) : Outline :=
  record "SourceSpan"
    [("line", numberOutline s.line), ("column", numberOutline s.column),
      ("end_line", numberOutline s.endLine), ("end_column", numberOutline s.endColumn)]

def Identifier.outline (i : Identifier) : Outline :=
  record "Identifier" [("name", quotedOutline i.name), ("span", spanOutline i.span)]

def TypeExpr.outline : TypeExpr → Outline
  | .named name => variant "Named" name.outline
  | .array element => variant "Array" element.outline

def Literal.outline : Literal → Outline
  | .integer n => variant "Integer" (.atom (toString n.toInt))
  | .float x => variant "Float" (.atom x.text)
  | .string s => variant "String" (quotedOutline s)
  | .boolean b => variant "Boolean" (.atom (if b then "true" else "false"))

def exprOutline (span : Span) (kind : String) (content : Outline) : Outline :=
  record "Expression" [("span", spanOutline span), ("kind", variant kind content)]

mutual

def Expr.outline : Expr → Outline
  | .literal value span => exprOutline span "Literal" value.outline
  | .access chain span => exprOutline span "Access" chain.outline
  | .old chain span => exprOutline span "OldValue" chain.outline
  | .unary operator operand span =>
    exprOutline span "Unary"
      (record "UnaryExpression"
        [("operator", quotedOutline operator), ("operand", operand.outline)])
  | .binary operator left right span =>
    exprOutline span "Binary"
      (record "BinaryExpression"
        [("operator", quotedOutline operator), ("left", left.outline), ("right", right.outline)])
  | .group inner span => exprOutline span "Grouping" inner.outline

def Chain.outline : Chain → Outline
  | ⟨segments, span⟩ =>
    record "AccessChain"
      [("segments", list (segmentOutlines segments)), ("span", spanOutline span)]

def segmentOutlines : List Segment → List Outline
  | [] => []
  | segment :: rest => segment.outline :: segmentOutlines rest

def Segment.outline : Segment → Outline
  | .name name => variant "Name" name.outline
  | .index index => variant "Index" index.outline
  | .getter automaton argument =>
    record "AutomatonGetter" [("automaton", automaton.outline), ("argument", argument.outline)]

end

def AnnotationUse.outline (u : AnnotationUse) : Outline :=
  record "AnnotationUsage"
    [("name", u.name.outline), ("arguments", list (u.arguments.map Expr.outline))]

def Parameter.outline (p : Parameter) : Outline :=
  record "ParameterDeclaration"
    [("name", p.name.outline), ("ty", p.type.outline),
      ("annotations", list (p.annotations.map AnnotationUse.outline))]

def VariableDecl.outline (d : VariableDecl) : Outline :=
  record "VariableDeclaration"
    [("name", d.name.outline), ("ty", d.type.outline),
      ("initializer", option Expr.outline d.initializer)]

def AnnotationDecl.outline (d : AnnotationDecl) : Outline :=
  record "AnnotationDeclaration"
    [("name", d.name.outline), ("parameters", list (d.parameters.map Parameter.outline))]

def FieldDecl.outline (d : FieldDecl) : Outline :=
  record "FieldDeclaration" [("name", d.name.outline), ("ty", d.type.outline)]

def MemberDecl.outline (d : MemberDecl) : Outline :=
  record "EnumValueDeclaration"
    [("name", d.name.outline), ("value", option (fun n => .atom (toString n.toInt)) d.value)]

def TypeDefinition.outline : TypeDefinition → Outline
  | .simple => .atom "Simple"
  | .real => .atom "Real"
  | .alias target => record "Alias" [("original", target.outline)]
  | .structured fields => record "Structured" [("fields", list (fields.map FieldDecl.outline))]
  | .enum members => record "Enum" [("values", list (members.map MemberDecl.outline))]
  | .enumLike underlying backing =>
    record "EnumLikeSemantic" [("underlying", underlying.outline), ("backing", backing.outline)]

def TypeDecl.outline (d : TypeDecl) : Outline :=
  record "TypeDeclaration" [("name", d.name.outline), ("kind", d.definition.outline)]

def StateDecl.outline (d : StateDecl) : Outline :=
  record "StateDeclaration" [("name", d.name.outline), ("kind", .atom d.kind.tag)]

def Trigger.outline (t : Trigger) : Outline :=
  record "ShiftFunction"
    [("name", t.name.outline),
      ("argument_types", option (fun types => list (types.map TypeExpr.outline)) t.argumentTypes)]

def ShiftDecl.outline (d : ShiftDecl) : Outline :=
  record "ShiftDeclaration"
    [("sources", list (d.sources.map Identifier.outline)),
      ("target", option Identifier.outline d.target),
      ("functions", list (d.functions.map Trigger.outline)), ("span", spanOutline d.span)]

def ContractDecl.outline (d : ContractDecl) : Outline :=
  record "ContractDeclaration"
    [("name", option Identifier.outline d.name), ("kind", .atom d.kind.tag),
      ("expression", d.expression.outline), ("span", spanOutline d.span)]

def NamedArgument.outline (a : NamedArgument) : Outline :=
  record "NamedArgument" [("name", a.name.outline), ("value", a.value.outline)]

def ConstructorCall.outline (c : ConstructorCall) : Outline :=
  record "ConstructorCall"
    [("automaton", c.automaton.outline),
      ("arguments", list (c.arguments.map NamedArgument.outline)), ("span", spanOutline c.span)]

def Statement.outline : Statement → Outline
  | .assignment target value constructor span =>
    variant "Assignment"
      (record "AssignmentStatement"
        [("target", target.outline), ("value", option Expr.outline value),
          ("constructor", option ConstructorCall.outline constructor),
          ("span", spanOutline span)])
  | .action name arguments span =>
    variant "Action"
      (record "ActionStatement"
        [("name", name.outline), ("arguments", list (arguments.map Expr.outline)),
          ("span", spanOutline span)])
  | .variable declaration => variant "Variable" declaration.outline

def FunctionDecl.outline (d : FunctionDecl) : Outline :=
  record "FunctionDeclaration"
    [("kind", .atom d.kind.tag), ("automaton", option Identifier.outline d.automaton),
      ("name", option Identifier.outline d.name),
      ("parameters", list (d.parameters.map Parameter.outline)),
      ("return_type", option TypeExpr.outline d.returnType),
      ("annotations", list (d.annotations.map AnnotationUse.outline)),
      ("contracts", list (d.contracts.map ContractDecl.outline)),
      ("body", option (fun body => list (body.map Statement.outline)) d.body),
      ("span", spanOutline d.span)]

def AutomatonDecl.outline (d : AutomatonDecl) : Outline :=
  record "AutomatonDeclaration"
    [("name", d.name.outline), ("ty", d.type.outline),
      ("constructor_variables", list (d.constructorVariables.map VariableDecl.outline)),
      ("states", list (d.states.map StateDecl.outline)),
      ("variables", list (d.instanceVariables.map VariableDecl.outline)),
      ("shifts", list (d.shifts.map ShiftDecl.outline)),
      ("functions", list (d.functions.map FunctionDecl.outline)), ("span", spanOutline d.span)]

def Declaration.outline : Declaration → Outline
  | .typeDecl d => variant "Type" d.outline
  | .annotationDecl d => variant "Annotation" d.outline
  | .variableDecl d => variant "Variable" d.outline
  | .automatonDecl d => variant "Automaton" d.outline
  | .functionDecl d => variant "Function" d.outline

def Library.outline (l : Library) : Outline :=
  record "LibraryDeclaration"
    [("name", l.name.outline), ("lsl_version", option quotedOutline l.lslVersion),
      ("library_version", option quotedOutline l.libraryVersion),
      ("language", option quotedOutline l.language), ("url", option quotedOutline l.url),
      ("imports", list (l.imports.map quotedOutline)),
      ("includes", list (l.includes.map quotedOutline)),
      ("declarations", list (l.declarations.map Declaration.outline))]

end SyntaxTree

end LibraryContract
