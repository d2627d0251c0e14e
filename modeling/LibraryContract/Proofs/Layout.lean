import Mathlib.Data.List.Forall2
import Mathlib.Data.List.Nodup
import LibraryContract.SyntaxTree.Decode
import LibraryContract.SyntaxTree.Encode

/-!
# The layout of a written tree

A tree is written with nodes of some forty kinds. `NodeKind.layout` says what the nodes of each kind
are made of: the members of a record, with what is written for those whose value is the default, or
the tags of a choice, with what follows each of them. Statements about documents refer to this table
and to none of the readers and writers.

* `Shape.Fits`: a value is written in full in some shape;
* `Library.fits`: trees are written as the table says.
-/

namespace LibraryContract

/-! ## Nesting -/

/-- How deep a value nests: the number of arrays and objects around its innermost part. -/
def Json.depth : Json → Nat
  | .array items => itemsDepth items + 1
  | .object members => membersDepth members + 1
  | .null | .bool _ | .number _ | .string _ => 0
where
  itemsDepth : List Json → Nat
    | [] => 0
    | item :: rest => max item.depth (itemsDepth rest)
  memberDepth : Option String × Json → Nat
    | (_, value) => value.depth
  membersDepth : List (Option String × Json) → Nat
    | [] => 0
    | m :: rest => max (memberDepth m) (membersDepth rest)

namespace Json

theorem depth_lt_array {items : List Json} {item : Json} (h : item ∈ items) :
    item.depth < (array items).depth := by
  rw [depth, Nat.lt_succ_iff]
  induction items with
  | nil => cases h
  | cons first rest ih =>
    rw [depth.itemsDepth]
    rcases List.mem_cons.mp h with rfl | h
    · exact Nat.le_max_left _ _
    · exact Nat.le_trans (ih h) (Nat.le_max_right _ _)

theorem depth_lt_object {members : List (Option String × Json)} {m : Option String × Json}
    (h : m ∈ members) : m.2.depth < (object members).depth := by
  rw [depth, Nat.lt_succ_iff]
  induction members with
  | nil => cases h
  | cons first rest ih =>
    rw [depth.membersDepth]
    rcases List.mem_cons.mp h with rfl | h
    · obtain ⟨name, value⟩ := m
      exact Nat.le_max_left _ _
    · exact Nat.le_trans (ih h) (Nat.le_max_right _ _)

theorem depth_lt_ofMembers {members : List (String × Json)} {m : String × Json} (h : m ∈ members) :
    m.2.depth < (ofMembers members).depth :=
  depth_lt_object (List.mem_map_of_mem (f := fun m : String × Json => (some m.1, m.2)) h)

end Json

namespace SyntaxTree

/-! ## The table -/

/-- The kinds of nodes in a document. -/
inductive NodeKind
  | span
  | identifier
  | typeExpr
  | literal
  | expr
  /-- What an expression is, apart from its place. -/
  | exprKind
  | unary
  | binary
  | chain
  | segment
  | getter
  | annotationUse
  | parameter
  | variableDecl
  | annotationDecl
  | fieldDecl
  | memberDecl
  | aliasType
  | structuredType
  | enumType
  | enumLikeType
  | typeDefinition
  | typeDecl
  | stateKind
  | stateDecl
  | trigger
  | shiftDecl
  | operationKind
  | functionDecl
  | contractKind
  | contractDecl
  | namedArgument
  | constructorCall
  | assignment
  | action
  | statement
  | automatonDecl
  | declaration
  | library
deriving DecidableEq, Repr

/-- What stands at some place of a document. -/
inductive Shape
  /-- A string, a number or a truth value. -/
  | scalar
  /-- Null, or something else. -/
  | option (content : Shape)
  | list (item : Shape)
  | node (kind : NodeKind)
deriving DecidableEq, Repr

/-- A member that the records of some kind have. -/
structure Slot where
  name : String
  shape : Shape
  /-- What is written for the value that counts when the member is missing; `none` when the member
  must be given. -/
  missing : Option Json

namespace Slot

def required (name : String) (shape : Shape) : Slot := ⟨name, shape, none⟩

def optional (name : String) (content : Shape) : Slot := ⟨name, .option content, some .null⟩

def items (name : String) (item : Shape) : Slot := ⟨name, .list item, some (.array [])⟩

def place : Slot := ⟨"span", .node .span, some (spanJson Span.unknown)⟩

end Slot

/-- What the nodes of a kind are made of. -/
inductive Layout
  /-- Members, in the order in which they are declared. -/
  | record (slots : List Slot)
  /-- Tags, each with the shape of its content if it has one. -/
  | choice (tags : List (String × Option Shape))

open Slot (required optional items place) in
def NodeKind.layout : NodeKind → Layout
  | .span =>
    .record [required "line" .scalar, required "column" .scalar, required "end_line" .scalar,
      required "end_column" .scalar]
  | .identifier => .record [required "name" .scalar, place]
  | .typeExpr =>
    .choice [("Named", some (.node .identifier)), ("Array", some (.node .typeExpr))]
  | .literal =>
    .choice [("Integer", some .scalar), ("Float", some .scalar), ("String", some .scalar),
      ("Boolean", some .scalar)]
  | .expr => .record [place, required "kind" (.node .exprKind)]
  | .exprKind =>
    .choice [("Literal", some (.node .literal)), ("Access", some (.node .chain)),
      ("OldValue", some (.node .chain)), ("Unary", some (.node .unary)),
      ("Binary", some (.node .binary)), ("Grouping", some (.node .expr))]
  | .unary => .record [required "operator" .scalar, required "operand" (.node .expr)]
  | .binary =>
    .record [required "operator" .scalar, required "left" (.node .expr),
      required "right" (.node .expr)]
  | .chain => .record [required "segments" (.list (.node .segment)), place]
  | .segment =>
    .choice [("Name", some (.node .identifier)), ("Index", some (.node .expr)),
      ("AutomatonGetter", some (.node .getter))]
  | .getter =>
    .record [required "automaton" (.node .identifier), required "argument" (.node .identifier)]
  | .annotationUse => .record [required "name" (.node .identifier), items "arguments" (.node .expr)]
  | .parameter =>
    .record [required "name" (.node .identifier), required "ty" (.node .typeExpr),
      items "annotations" (.node .annotationUse)]
  | .variableDecl =>
    .record [required "name" (.node .identifier), required "ty" (.node .typeExpr),
      optional "initializer" (.node .expr)]
  | .annotationDecl =>
    .record [required "name" (.node .identifier), items "parameters" (.node .parameter)]
  | .fieldDecl => .record [required "name" (.node .identifier), required "ty" (.node .typeExpr)]
  | .memberDecl => .record [required "name" (.node .identifier), optional "value" .scalar]
  | .aliasType => .record [required "original" (.node .typeExpr)]
  | .structuredType => .record [required "fields" (.list (.node .fieldDecl))]
  | .enumType => .record [required "values" (.list (.node .memberDecl))]
  | .enumLikeType =>
    .record [required "underlying" (.node .identifier), required "backing" (.node .typeExpr)]
  | .typeDefinition =>
    .choice [("Simple", none), ("Real", none), ("Alias", some (.node .aliasType)),
      ("Structured", some (.node .structuredType)), ("Enum", some (.node .enumType)),
      ("EnumLikeSemantic", some (.node .enumLikeType))]
  | .typeDecl =>
    .record [required "name" (.node .identifier), required "kind" (.node .typeDefinition)]
  | .stateKind => .choice [("Initial", none), ("Simple", none), ("Finish", none)]
  | .stateDecl => .record [required "name" (.node .identifier), required "kind" (.node .stateKind)]
  | .trigger =>
    .record [required "name" (.node .identifier),
      optional "argument_types" (.list (.node .typeExpr))]
  | .shiftDecl =>
    .record [required "sources" (.list (.node .identifier)), optional "target" (.node .identifier),
      items "functions" (.node .trigger), place]
  | .operationKind =>
    .choice [("Function", none), ("Constructor", none), ("Destructor", none), ("Procedure", none)]
  | .functionDecl =>
    .record [required "kind" (.node .operationKind), optional "automaton" (.node .identifier),
      optional "name" (.node .identifier), items "parameters" (.node .parameter),
      optional "return_type" (.node .typeExpr), items "annotations" (.node .annotationUse),
      items "contracts" (.node .contractDecl), optional "body" (.list (.node .statement)), place]
  | .contractKind => .choice [("Requires", none), ("Ensures", none), ("Assigns", none)]
  | .contractDecl =>
    .record [optional "name" (.node .identifier), required "kind" (.node .contractKind),
      required "expression" (.node .expr), place]
  | .namedArgument => .record [required "name" (.node .identifier), required "value" (.node .expr)]
  | .constructorCall =>
    .record [required "automaton" (.node .identifier), items "arguments" (.node .namedArgument),
      place]
  | .assignment =>
    .record [required "target" (.node .chain), optional "value" (.node .expr),
      optional "constructor" (.node .constructorCall), place]
  | .action =>
    .record [required "name" (.node .identifier), items "arguments" (.node .expr), place]
  | .statement =>
    .choice [("Assignment", some (.node .assignment)), ("Action", some (.node .action)),
      ("Variable", some (.node .variableDecl))]
  | .automatonDecl =>
    .record [required "name" (.node .identifier), required "ty" (.node .typeExpr),
      items "constructor_variables" (.node .variableDecl), items "states" (.node .stateDecl),
      items "variables" (.node .variableDecl), items "shifts" (.node .shiftDecl),
      items "functions" (.node .functionDecl), place]
  | .declaration =>
    .choice [("Type", some (.node .typeDecl)), ("Annotation", some (.node .annotationDecl)),
      ("Variable", some (.node .variableDecl)), ("Automaton", some (.node .automatonDecl)),
      ("Function", some (.node .functionDecl))]
  | .library =>
    .record [required "name" (.node .identifier), optional "lsl_version" .scalar,
      optional "library_version" .scalar, optional "language" .scalar, optional "url" .scalar,
      items "imports" .scalar, items "includes" .scalar, items "declarations" (.node .declaration)]

/-- The members of a record have different names. -/
theorem NodeKind.slots_nodup {kind : NodeKind} {slots : List Slot} (h : kind.layout = .record slots) :
    (slots.map Slot.name).Nodup := by
  cases kind <;> first | (cases h; decide) | cases h

/-- A tag has one kind of content. -/
theorem NodeKind.tags_unique {kind : NodeKind} {tags : List (String × Option Shape)} {tag : String}
    {a b : Option Shape} (h : kind.layout = .choice tags) (ha : (tag, a) ∈ tags)
    (hb : (tag, b) ∈ tags) : a = b := by
  have hnodup : (tags.map Prod.fst).Nodup := by
    cases kind <;> first | (cases h; decide) | cases h
  exact congrArg Prod.snd (List.inj_on_of_nodup_map hnodup ha hb rfl)

/-! ## Written nodes -/

/-- A value is written in full in some shape. -/
inductive Shape.Fits : Shape → Json → Prop
  | scalar {value : Json} (h : value.depth = 0) : Fits .scalar value
  | null {content : Shape} : Fits (.option content) .null
  | present {content : Shape} {value : Json} (h : Fits content value) : Fits (.option content) value
  | list {item : Shape} {items : List Json} (h : ∀ value ∈ items, Fits item value) :
      Fits (.list item) (.array items)
  | record {kind : NodeKind} {rows : List (Slot × Json)}
      (hkind : kind.layout = .record (rows.map Prod.fst))
      (h : ∀ row ∈ rows, Fits row.1.shape row.2) :
      Fits (.node kind) (.ofMembers (rows.map fun row => (row.1.name, row.2)))
  | content {kind : NodeKind} {tags : List (String × Option Shape)} {tag : String} {content : Shape}
      {value : Json} (hkind : kind.layout = .choice tags) (htag : (tag, some content) ∈ tags)
      (h : Fits content value) : Fits (.node kind) (taggedJson tag value)
  | tag {kind : NodeKind} {tags : List (String × Option Shape)} {tag : String}
      (hkind : kind.layout = .choice tags) (htag : (tag, none) ∈ tags) :
      Fits (.node kind) (.ofString tag)

/-- Members that are written as a kind of records says. -/
theorem Shape.Fits.members {k : NodeKind} {slots : List Slot} {written : List (String × Json)}
    (hkind : k.layout = .record slots)
    (h : List.Forall₂ (fun slot m => m.1 = slot.name ∧ slot.shape.Fits m.2) slots written) :
    (Shape.node k).Fits (.ofMembers written) := by
  obtain ⟨rows, hslots, hwritten, hrows⟩ : ∃ rows : List (Slot × Json), rows.map Prod.fst = slots ∧
      rows.map (fun row => (row.1.name, row.2)) = written ∧ ∀ row ∈ rows, row.1.shape.Fits row.2 := by
    clear hkind
    induction h with
    | nil => exact ⟨[], rfl, rfl, nofun⟩
    | @cons slot m slots written hm _ ih =>
      obtain ⟨rows, hslots, hwritten, hrows⟩ := ih
      obtain ⟨name, value⟩ := m
      refine ⟨(slot, value) :: rows, congrArg _ hslots, ?_, List.forall_mem_cons.mpr ⟨hm.2, hrows⟩⟩
      exact congrArg₂ List.cons (congrArg (·, value) hm.1.symm) hwritten
  subst hslots hwritten
  exact .record hkind hrows

theorem Shape.Fits.optionJson {α : Type} {s : Shape} {encode : α → Json} (h : ∀ a, s.Fits (encode a))
    (a : Option α) : (Shape.option s).Fits (SyntaxTree.optionJson encode a) := by
  cases a with
  | none => exact .null
  | some a => exact .present (h a)

theorem Shape.Fits.listJson {α : Type} {s : Shape} {encode : α → Json} (h : ∀ a, s.Fits (encode a))
    (items : List α) : (Shape.list s).Fits (SyntaxTree.listJson encode items) := by
  refine .list fun value hvalue => ?_
  obtain ⟨a, -, rfl⟩ := List.mem_map.mp hvalue
  exact h a

theorem fits_ofString (s : String) : Shape.scalar.Fits (.ofString s) := .scalar rfl

theorem fits_ofInt64 (n : Int64) : Shape.scalar.Fits (.ofInt64 n) := by
  refine .scalar ?_
  rw [Json.ofInt64]
  split <;> rfl

theorem fits_spanJson (s : Span) : (Shape.node .span).Fits (spanJson s) :=
  .members rfl (.cons ⟨rfl, .scalar rfl⟩ (.cons ⟨rfl, .scalar rfl⟩
    (.cons ⟨rfl, .scalar rfl⟩ (.cons ⟨rfl, .scalar rfl⟩ .nil))))

theorem Identifier.fits (i : Identifier) : (Shape.node .identifier).Fits i.toJson :=
  .members rfl (.cons ⟨rfl, fits_ofString i.name⟩ (.cons ⟨rfl, fits_spanJson i.span⟩ .nil))

theorem TypeExpr.fits (e : TypeExpr) : (Shape.node .typeExpr).Fits e.toJson := by
  induction e with
  | named name => exact .content rfl (by decide) name.fits
  | array element ih => exact .content rfl (by decide) ih

theorem Literal.fits (v : Literal) : (Shape.node .literal).Fits v.toJson := by
  cases v with
  | integer n => exact .content rfl (by decide) (fits_ofInt64 n)
  | float x =>
    refine .content rfl (by decide) (.scalar ?_)
    rw [Json.ofBinary64]
    split <;> rfl
  | string s => exact .content rfl (by decide) (fits_ofString s)
  | boolean b => exact .content rfl (by decide) (.scalar rfl)

theorem fits_exprJson {tag : String} {content : Json} (span : Span)
    (h : (Shape.node .exprKind).Fits (taggedJson tag content)) :
    (Shape.node .expr).Fits (exprJson span tag content) :=
  .members rfl (.cons ⟨rfl, fits_spanJson span⟩ (.cons ⟨rfl, h⟩ .nil))

mutual

theorem Expr.fits : ∀ e : Expr, (Shape.node .expr).Fits e.toJson
  | .literal value span => fits_exprJson span (.content rfl (by decide) value.fits)
  | .access chain span => fits_exprJson span (.content rfl (by decide) chain.fits)
  | .old chain span => fits_exprJson span (.content rfl (by decide) chain.fits)
  | .unary operator operand span =>
    fits_exprJson span (.content rfl (by decide)
      (.members (k := .unary) rfl (.cons ⟨rfl, fits_ofString operator⟩ (.cons ⟨rfl, operand.fits⟩ .nil))))
  | .binary operator left right span =>
    fits_exprJson span (.content rfl (by decide)
      (.members (k := .binary) rfl (.cons ⟨rfl, fits_ofString operator⟩
        (.cons ⟨rfl, left.fits⟩ (.cons ⟨rfl, right.fits⟩ .nil)))))
  | .group inner span => fits_exprJson span (.content rfl (by decide) inner.fits)
termination_by structural e => e

theorem Chain.fits : ∀ c : Chain, (Shape.node .chain).Fits c.toJson
  | ⟨segments, span⟩ =>
    .members rfl (.cons ⟨rfl, .list (segments_fit segments)⟩ (.cons ⟨rfl, fits_spanJson span⟩ .nil))
termination_by structural c => c

theorem segments_fit : ∀ segments : List Segment,
    ∀ value ∈ segmentsJson segments, (Shape.node .segment).Fits value
  | [] => nofun
  | segment :: rest => List.forall_mem_cons.mpr ⟨segment.fits, segments_fit rest⟩
termination_by structural segments => segments

theorem Segment.fits : ∀ s : Segment, (Shape.node .segment).Fits s.toJson
  | .name name => .content rfl (by decide) name.fits
  | .index index => .content rfl (by decide) index.fits
  | .getter automaton argument =>
    .content rfl (by decide)
      (.members (k := .getter) rfl (.cons ⟨rfl, automaton.fits⟩ (.cons ⟨rfl, argument.fits⟩ .nil)))
termination_by structural s => s

end

theorem AnnotationUse.fits (u : AnnotationUse) : (Shape.node .annotationUse).Fits u.toJson :=
  .members rfl (.cons ⟨rfl, u.name.fits⟩ (.cons ⟨rfl, .listJson Expr.fits u.arguments⟩ .nil))

theorem Parameter.fits (p : Parameter) : (Shape.node .parameter).Fits p.toJson :=
  .members rfl (.cons ⟨rfl, p.name.fits⟩ (.cons ⟨rfl, p.type.fits⟩
    (.cons ⟨rfl, .listJson AnnotationUse.fits p.annotations⟩ .nil)))

theorem VariableDecl.fits (d : VariableDecl) : (Shape.node .variableDecl).Fits d.toJson :=
  .members rfl (.cons ⟨rfl, d.name.fits⟩ (.cons ⟨rfl, d.type.fits⟩
    (.cons ⟨rfl, .optionJson Expr.fits d.initializer⟩ .nil)))

theorem AnnotationDecl.fits (d : AnnotationDecl) : (Shape.node .annotationDecl).Fits d.toJson :=
  .members rfl (.cons ⟨rfl, d.name.fits⟩ (.cons ⟨rfl, .listJson Parameter.fits d.parameters⟩ .nil))

theorem FieldDecl.fits (d : FieldDecl) : (Shape.node .fieldDecl).Fits d.toJson :=
  .members rfl (.cons ⟨rfl, d.name.fits⟩ (.cons ⟨rfl, d.type.fits⟩ .nil))

theorem MemberDecl.fits (d : MemberDecl) : (Shape.node .memberDecl).Fits d.toJson :=
  .members rfl (.cons ⟨rfl, d.name.fits⟩ (.cons ⟨rfl, .optionJson fits_ofInt64 d.value⟩ .nil))

theorem TypeDefinition.fits (d : TypeDefinition) : (Shape.node .typeDefinition).Fits d.toJson := by
  cases d with
  | simple => exact .tag rfl (by decide)
  | real => exact .tag rfl (by decide)
  | «alias» target =>
    exact .content rfl (by decide) (.members (k := .aliasType) rfl (.cons ⟨rfl, target.fits⟩ .nil))
  | structured fields =>
    exact .content rfl (by decide)
      (.members (k := .structuredType) rfl (.cons ⟨rfl, .listJson FieldDecl.fits fields⟩ .nil))
  | enum members =>
    exact .content rfl (by decide)
      (.members (k := .enumType) rfl (.cons ⟨rfl, .listJson MemberDecl.fits members⟩ .nil))
  | enumLike underlying backing =>
    exact .content rfl (by decide)
      (.members (k := .enumLikeType) rfl (.cons ⟨rfl, underlying.fits⟩ (.cons ⟨rfl, backing.fits⟩ .nil)))

theorem TypeDecl.fits (d : TypeDecl) : (Shape.node .typeDecl).Fits d.toJson :=
  .members rfl (.cons ⟨rfl, d.name.fits⟩ (.cons ⟨rfl, d.definition.fits⟩ .nil))

theorem StateKind.fits (k : StateKind) : (Shape.node .stateKind).Fits (.ofString k.tag) := by
  cases k <;> exact .tag rfl (by decide)

theorem OperationKind.fits (k : OperationKind) :
    (Shape.node .operationKind).Fits (.ofString k.tag) := by
  cases k <;> exact .tag rfl (by decide)

theorem ContractKind.fits (k : ContractKind) : (Shape.node .contractKind).Fits (.ofString k.tag) := by
  cases k <;> exact .tag rfl (by decide)

theorem StateDecl.fits (d : StateDecl) : (Shape.node .stateDecl).Fits d.toJson :=
  .members rfl (.cons ⟨rfl, d.name.fits⟩ (.cons ⟨rfl, d.kind.fits⟩ .nil))

theorem Trigger.fits (t : Trigger) : (Shape.node .trigger).Fits t.toJson :=
  .members rfl (.cons ⟨rfl, t.name.fits⟩
    (.cons ⟨rfl, .optionJson (.listJson TypeExpr.fits) t.argumentTypes⟩ .nil))

theorem ShiftDecl.fits (d : ShiftDecl) : (Shape.node .shiftDecl).Fits d.toJson :=
  .members rfl (.cons ⟨rfl, .listJson Identifier.fits d.sources⟩
    (.cons ⟨rfl, .optionJson Identifier.fits d.target⟩
      (.cons ⟨rfl, .listJson Trigger.fits d.functions⟩ (.cons ⟨rfl, fits_spanJson d.span⟩ .nil))))

theorem ContractDecl.fits (d : ContractDecl) : (Shape.node .contractDecl).Fits d.toJson :=
  .members rfl (.cons ⟨rfl, .optionJson Identifier.fits d.name⟩ (.cons ⟨rfl, d.kind.fits⟩
    (.cons ⟨rfl, d.expression.fits⟩ (.cons ⟨rfl, fits_spanJson d.span⟩ .nil))))

theorem NamedArgument.fits (a : NamedArgument) : (Shape.node .namedArgument).Fits a.toJson :=
  .members rfl (.cons ⟨rfl, a.name.fits⟩ (.cons ⟨rfl, a.value.fits⟩ .nil))

theorem ConstructorCall.fits (c : ConstructorCall) : (Shape.node .constructorCall).Fits c.toJson :=
  .members rfl (.cons ⟨rfl, c.automaton.fits⟩
    (.cons ⟨rfl, .listJson NamedArgument.fits c.arguments⟩ (.cons ⟨rfl, fits_spanJson c.span⟩ .nil)))

theorem Statement.fits (s : Statement) : (Shape.node .statement).Fits s.toJson := by
  cases s with
  | assignment target value constructor span =>
    exact .content rfl (by decide) (.members (k := .assignment) rfl (.cons ⟨rfl, target.fits⟩
      (.cons ⟨rfl, .optionJson Expr.fits value⟩
        (.cons ⟨rfl, .optionJson ConstructorCall.fits constructor⟩
          (.cons ⟨rfl, fits_spanJson span⟩ .nil)))))
  | action name arguments span =>
    exact .content rfl (by decide) (.members (k := .action) rfl (.cons ⟨rfl, name.fits⟩
      (.cons ⟨rfl, .listJson Expr.fits arguments⟩ (.cons ⟨rfl, fits_spanJson span⟩ .nil))))
  | «variable» declaration => exact .content rfl (by decide) declaration.fits

theorem FunctionDecl.fits (d : FunctionDecl) : (Shape.node .functionDecl).Fits d.toJson :=
  .members rfl (.cons ⟨rfl, d.kind.fits⟩ (.cons ⟨rfl, .optionJson Identifier.fits d.automaton⟩
    (.cons ⟨rfl, .optionJson Identifier.fits d.name⟩
      (.cons ⟨rfl, .listJson Parameter.fits d.parameters⟩
        (.cons ⟨rfl, .optionJson TypeExpr.fits d.returnType⟩
          (.cons ⟨rfl, .listJson AnnotationUse.fits d.annotations⟩
            (.cons ⟨rfl, .listJson ContractDecl.fits d.contracts⟩
              (.cons ⟨rfl, .optionJson (.listJson Statement.fits) d.body⟩
                (.cons ⟨rfl, fits_spanJson d.span⟩ .nil)))))))))

theorem AutomatonDecl.fits (d : AutomatonDecl) : (Shape.node .automatonDecl).Fits d.toJson :=
  .members rfl (.cons ⟨rfl, d.name.fits⟩ (.cons ⟨rfl, d.type.fits⟩
    (.cons ⟨rfl, .listJson VariableDecl.fits d.constructorVariables⟩
      (.cons ⟨rfl, .listJson StateDecl.fits d.states⟩
        (.cons ⟨rfl, .listJson VariableDecl.fits d.instanceVariables⟩
          (.cons ⟨rfl, .listJson ShiftDecl.fits d.shifts⟩
            (.cons ⟨rfl, .listJson FunctionDecl.fits d.functions⟩
              (.cons ⟨rfl, fits_spanJson d.span⟩ .nil))))))))

theorem Declaration.fits (d : Declaration) : (Shape.node .declaration).Fits d.toJson := by
  cases d with
  | typeDecl d => exact .content rfl (by decide) d.fits
  | annotationDecl d => exact .content rfl (by decide) d.fits
  | variableDecl d => exact .content rfl (by decide) d.fits
  | automatonDecl d => exact .content rfl (by decide) d.fits
  | functionDecl d => exact .content rfl (by decide) d.fits

/-- Trees are written as the table says. -/
theorem Library.fits (l : Library) : (Shape.node .library).Fits l.toJson :=
  .members rfl (.cons ⟨rfl, l.name.fits⟩ (.cons ⟨rfl, .optionJson fits_ofString l.lslVersion⟩
    (.cons ⟨rfl, .optionJson fits_ofString l.libraryVersion⟩
      (.cons ⟨rfl, .optionJson fits_ofString l.language⟩
        (.cons ⟨rfl, .optionJson fits_ofString l.url⟩
          (.cons ⟨rfl, .listJson fits_ofString l.imports⟩
            (.cons ⟨rfl, .listJson fits_ofString l.includes⟩
              (.cons ⟨rfl, .listJson Declaration.fits l.declarations⟩ .nil))))))))

end SyntaxTree

end LibraryContract
