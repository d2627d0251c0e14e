import Mathlib.Data.List.Count
import LibraryContract.Proofs.Layout
import LibraryContract.Proofs.Reading

/-!
# Members that are given twice

A record whose object has a known member twice is not read, and neither is anything around it:
`Shape.Repeats` finds such an object at any depth of a document, wherever a record of the tree is
expected, and `Shape.Reads` says of each part of a document that its reader accepts it.

* `NodeKind.Reads.record`: a record that is read has each known member at most once, and its members
  are read as well;
* `Shape.Repeats.not_reads`: a document with a repetition is not read.
-/

namespace LibraryContract

open Json (Fields Reader list)

namespace SyntaxTree

/-- Somewhere in a value of some shape, the object of a record has a known member twice. -/
inductive Shape.Repeats : Shape → Json → Prop
  | here {kind : NodeKind} {slots : List Slot} {slot : Slot} {members : List (Option String × Json)}
      (hkind : kind.layout = .record slots) (hslot : slot ∈ slots)
      (htwice : 2 ≤ (members.map Prod.fst).count (some slot.name)) :
      Repeats (.node kind) (.object members)
  | member {kind : NodeKind} {slots : List Slot} {slot : Slot}
      {members : List (Option String × Json)} {value : Json} (hkind : kind.layout = .record slots)
      (hslot : slot ∈ slots) (hmember : (some slot.name, value) ∈ members)
      (h : Repeats slot.shape value) : Repeats (.node kind) (.object members)
  | element {kind : NodeKind} {slots : List Slot} {slot : Slot} {values : List Json} {value : Json}
      {i : Nat} (hkind : kind.layout = .record slots) (hslot : slots[i]? = some slot)
      (hvalue : values[i]? = some value) (h : Repeats slot.shape value) :
      Repeats (.node kind) (.array values)
  | content {kind : NodeKind} {tags : List (String × Option Shape)} {tag : String} {content : Shape}
      {members : List (Option String × Json)} {value : Json} (hkind : kind.layout = .choice tags)
      (htag : (tag, some content) ∈ tags) (hmember : (some tag, value) ∈ members)
      (h : Repeats content value) : Repeats (.node kind) (.object members)
  | item {item : Shape} {values : List Json} {value : Json} (hvalue : value ∈ values)
      (h : Repeats item value) : Repeats (.list item) (.array values)
  | present {content : Shape} {value : Json} (h : Repeats content value) :
      Repeats (.option content) value

/-! ## What is read -/

/-- The value is read as a node of the kind. -/
def NodeKind.Reads : NodeKind → Nat → Json → Prop
  | .span, n, v => ∃ a, readSpan n v = some a
  | .identifier, n, v => ∃ a, readIdentifier n v = some a
  | .typeExpr, n, v => ∃ a, readTypeExpr n v = some a
  | .literal, n, v => ∃ a, readLiteral n v = some a
  | .expr, n, v => ∃ a, readExpr n v = some a
  | .exprKind, n, v => ∃ span a, readExprKind n span v = some a
  | .unary, n, v => ∃ span a, readUnary n span v = some a
  | .binary, n, v => ∃ span a, readBinary n span v = some a
  | .chain, n, v => ∃ a, readChain n v = some a
  | .segment, n, v => ∃ a, readSegment n v = some a
  | .getter, n, v => ∃ a, readGetter n v = some a
  | .annotationUse, n, v => ∃ a, readAnnotationUse n v = some a
  | .parameter, n, v => ∃ a, readParameter n v = some a
  | .variableDecl, n, v => ∃ a, readVariableDecl n v = some a
  | .annotationDecl, n, v => ∃ a, readAnnotationDecl n v = some a
  | .fieldDecl, n, v => ∃ a, readFieldDecl n v = some a
  | .memberDecl, n, v => ∃ a, readMemberDecl n v = some a
  | .aliasType, n, v => ∃ a, readTypeContent n "Alias" v = some a
  | .structuredType, n, v => ∃ a, readTypeContent n "Structured" v = some a
  | .enumType, n, v => ∃ a, readTypeContent n "Enum" v = some a
  | .enumLikeType, n, v => ∃ a, readTypeContent n "EnumLikeSemantic" v = some a
  | .typeDefinition, n, v => ∃ a, readTypeDefinition n v = some a
  | .typeDecl, n, v => ∃ a, readTypeDecl n v = some a
  | .stateKind, n, v => ∃ a, Json.tag stateKinds n v = some a
  | .stateDecl, n, v => ∃ a, readStateDecl n v = some a
  | .trigger, n, v => ∃ a, readTrigger n v = some a
  | .shiftDecl, n, v => ∃ a, readShiftDecl n v = some a
  | .operationKind, n, v => ∃ a, Json.tag operationKinds n v = some a
  | .functionDecl, n, v => ∃ a, readFunctionDecl n v = some a
  | .contractKind, n, v => ∃ a, Json.tag contractKinds n v = some a
  | .contractDecl, n, v => ∃ a, readContractDecl n v = some a
  | .namedArgument, n, v => ∃ a, readNamedArgument n v = some a
  | .constructorCall, n, v => ∃ a, readConstructorCall n v = some a
  | .assignment, n, v => ∃ a, readAssignment n v = some a
  | .action, n, v => ∃ a, readAction n v = some a
  | .statement, n, v => ∃ a, readStatement n v = some a
  | .automatonDecl, n, v => ∃ a, readAutomatonDecl n v = some a
  | .declaration, n, v => ∃ a, readDeclaration n v = some a
  | .library, n, v => ∃ a, readLibrary n v = some a

/-- The value is read where something of the shape is expected. Scalars are not looked into. -/
def Shape.Reads : Shape → Nat → Json → Prop
  | .scalar, _, _ => True
  | .option content, n, v => v = .null ∨ content.Reads n v
  | .list item, n, v =>
    ∃ m values, n = m + 1 ∧ v = .array values ∧ ∀ value ∈ values, item.Reads m value
  | .node kind, n, v => kind.Reads n v

/-- A member is read when it is there. -/
def Slot.Reads (slot : Slot) (n : Nat) (fields : Fields) : Prop :=
  ∀ value, fields.lookup slot.name = some value → slot.shape.Reads n value

/-- The members of a record are found and read. -/
def RecordReads (slots : List Slot) (n : Nat) (value : Json) : Prop :=
  ∃ m fields, n = m + 1 ∧ value.fields? (slots.map Slot.name) = some fields ∧
    ∀ slot ∈ slots, slot.Reads m fields

/-- An object is read as a tag with content. -/
def ChoiceReads (tags : List (String × Option Shape)) (n : Nat)
    (members : List (Option String × Json)) : Prop :=
  ∃ m tag value, n = m + 1 ∧ members = [(some tag, value)] ∧
    ∀ content, (tag, some content) ∈ tags → content.Reads m value

/-! ## Members -/

section Members

variable {α : Type} {s : Shape} {n : Nat} {value : Json} {fields : Fields} {name : String}

theorem forall_of_mapM {β : Type} {read : β → Option α} {P : β → Prop} {values : List β}
    {items : List α} (h : values.mapM read = some items) (hread : ∀ v a, read v = some a → P v) :
    ∀ v ∈ values, P v := by
  induction values generalizing items with
  | nil => exact nofun
  | cons v rest ih =>
    rw [List.mapM_cons] at h
    obtain ⟨a, ha, hrest⟩ := Option.bind_eq_some_iff.mp h
    obtain ⟨others, hothers, -⟩ := Option.bind_eq_some_iff.mp hrest
    exact List.forall_mem_cons.mpr ⟨hread v a ha, ih hothers⟩

theorem list_reads {item : Reader α} {items : List α} (h : list item n value = some items)
    (hreads : ∀ m v a, item m v = some a → s.Reads m v) : (Shape.list s).Reads n value := by
  obtain ⟨m, values, rfl, rfl, hvalues⟩ := Json.list_eq_some.mp h
  exact ⟨m, values, rfl, rfl, forall_of_mapM hvalues (hreads m)⟩

theorem required_reads {read : Json → Option α} {a : α} (h : fields.required name read = some a)
    (hreads : ∀ v a, read v = some a → s.Reads n v) : (Slot.required name s).Reads n fields := by
  intro v hv
  rw [Fields.required, show fields.lookup name = some v from hv] at h
  exact hreads v a h

theorem optional_reads {read : Json → Option α} {a : Option α}
    (h : fields.optional name read = some a) (hreads : ∀ v a, read v = some a → s.Reads n v) :
    (Slot.optional name s).Reads n fields := by
  intro v hv
  rw [Fields.optional, show fields.lookup name = some v from hv] at h
  cases v with
  | null => exact .inl rfl
  | _ =>
    obtain ⟨a, ha, -⟩ := Option.map_eq_some_iff.mp h
    exact .inr (hreads _ a ha)

theorem items_reads {item : Reader α} {items : List α}
    (h : listField n fields name item = some items)
    (hreads : ∀ m v a, item m v = some a → s.Reads m v) : (Slot.items name s).Reads n fields := by
  intro v hv
  rw [listField, Fields.defaulted, show fields.lookup name = some v from hv] at h
  exact list_reads h hreads

theorem place_reads {span : Span} (h : spanField n fields = some span) :
    Slot.place.Reads n fields := by
  intro v hv
  rw [spanField, Fields.defaulted, show fields.lookup "span" = some v from hv] at h
  exact ⟨span, h⟩

end Members

/-! ## Records -/

section Records

variable {n : Nat} {value : Json} {slots : List Slot}

theorem readSpan_reads {a : Span} (h : readSpan n value = some a)
    (hkind : NodeKind.layout .span = .record slots) : RecordReads slots n value := by
  cases hkind
  obtain ⟨m, fields, rfl, hfields, hline, hcolumn, hendLine, hendColumn⟩ := readSpan_eq_some.mp h
  refine ⟨m, fields, rfl, hfields, ?_⟩
  simp only [List.forall_mem_cons]
  exact ⟨required_reads hline fun _ _ _ => trivial, required_reads hcolumn fun _ _ _ => trivial,
    required_reads hendLine fun _ _ _ => trivial, required_reads hendColumn fun _ _ _ => trivial,
    nofun⟩

theorem readIdentifier_reads {a : Identifier} (h : readIdentifier n value = some a)
    (hkind : NodeKind.layout .identifier = .record slots) : RecordReads slots n value := by
  cases hkind
  obtain ⟨m, fields, rfl, hfields, hname, hspan⟩ := readIdentifier_eq_some.mp h
  refine ⟨m, fields, rfl, hfields, ?_⟩
  simp only [List.forall_mem_cons]
  exact ⟨required_reads hname fun _ _ _ => trivial, place_reads hspan, nofun⟩

theorem readExpr_reads {a : Expr} (h : readExpr n value = some a)
    (hkind : NodeKind.layout .expr = .record slots) : RecordReads slots n value := by
  cases hkind
  obtain ⟨m, fields, _, rfl, hfields, hspan, hkind⟩ := readExpr_eq_some.mp h
  refine ⟨m, fields, rfl, hfields, ?_⟩
  simp only [List.forall_mem_cons]
  exact ⟨place_reads hspan, required_reads hkind fun _ a ha => ⟨_, a, ha⟩, nofun⟩

theorem readUnary_reads {a : Expr} {span : Span} (h : readUnary n span value = some a)
    (hkind : NodeKind.layout .unary = .record slots) : RecordReads slots n value := by
  cases hkind
  obtain ⟨m, fields, _, _, rfl, hfields, hoperator, hoperand, -⟩ := readUnary_eq_some.mp h
  refine ⟨m, fields, rfl, hfields, ?_⟩
  simp only [List.forall_mem_cons]
  exact ⟨required_reads hoperator fun _ _ _ => trivial,
    required_reads hoperand fun _ a ha => ⟨a, ha⟩, nofun⟩

theorem readBinary_reads {a : Expr} {span : Span} (h : readBinary n span value = some a)
    (hkind : NodeKind.layout .binary = .record slots) : RecordReads slots n value := by
  cases hkind
  obtain ⟨m, fields, _, _, _, rfl, hfields, hoperator, hleft, hright, -⟩ := readBinary_eq_some.mp h
  refine ⟨m, fields, rfl, hfields, ?_⟩
  simp only [List.forall_mem_cons]
  exact ⟨required_reads hoperator fun _ _ _ => trivial, required_reads hleft fun _ a ha => ⟨a, ha⟩,
    required_reads hright fun _ a ha => ⟨a, ha⟩, nofun⟩

theorem readChain_reads {a : Chain} (h : readChain n value = some a)
    (hkind : NodeKind.layout .chain = .record slots) : RecordReads slots n value := by
  cases hkind
  obtain ⟨m, fields, rfl, hfields, hsegments, hspan⟩ := readChain_eq_some.mp h
  refine ⟨m, fields, rfl, hfields, ?_⟩
  simp only [List.forall_mem_cons]
  exact ⟨required_reads hsegments fun _ _ hlist => list_reads hlist fun _ _ a ha => ⟨a, ha⟩,
    place_reads hspan, nofun⟩

theorem readGetter_reads {a : Segment} (h : readGetter n value = some a)
    (hkind : NodeKind.layout .getter = .record slots) : RecordReads slots n value := by
  cases hkind
  obtain ⟨m, fields, _, _, rfl, hfields, hautomaton, hargument, -⟩ := readGetter_eq_some.mp h
  refine ⟨m, fields, rfl, hfields, ?_⟩
  simp only [List.forall_mem_cons]
  exact ⟨required_reads hautomaton fun _ a ha => ⟨a, ha⟩,
    required_reads hargument fun _ a ha => ⟨a, ha⟩, nofun⟩

theorem readAnnotationUse_reads {a : AnnotationUse} (h : readAnnotationUse n value = some a)
    (hkind : NodeKind.layout .annotationUse = .record slots) : RecordReads slots n value := by
  cases hkind
  obtain ⟨m, fields, rfl, hfields, hname, harguments⟩ := readAnnotationUse_eq_some.mp h
  refine ⟨m, fields, rfl, hfields, ?_⟩
  simp only [List.forall_mem_cons]
  exact ⟨required_reads hname fun _ a ha => ⟨a, ha⟩, items_reads harguments fun _ _ a ha => ⟨a, ha⟩,
    nofun⟩

theorem readParameter_reads {a : Parameter} (h : readParameter n value = some a)
    (hkind : NodeKind.layout .parameter = .record slots) : RecordReads slots n value := by
  cases hkind
  obtain ⟨m, fields, rfl, hfields, hname, htype, hannotations⟩ := readParameter_eq_some.mp h
  refine ⟨m, fields, rfl, hfields, ?_⟩
  simp only [List.forall_mem_cons]
  exact ⟨required_reads hname fun _ a ha => ⟨a, ha⟩, required_reads htype fun _ a ha => ⟨a, ha⟩,
    items_reads hannotations fun _ _ a ha => ⟨a, ha⟩, nofun⟩

theorem readVariableDecl_reads {a : VariableDecl} (h : readVariableDecl n value = some a)
    (hkind : NodeKind.layout .variableDecl = .record slots) : RecordReads slots n value := by
  cases hkind
  obtain ⟨m, fields, rfl, hfields, hname, htype, hinitializer⟩ := readVariableDecl_eq_some.mp h
  refine ⟨m, fields, rfl, hfields, ?_⟩
  simp only [List.forall_mem_cons]
  exact ⟨required_reads hname fun _ a ha => ⟨a, ha⟩, required_reads htype fun _ a ha => ⟨a, ha⟩,
    optional_reads hinitializer fun _ a ha => ⟨a, ha⟩, nofun⟩

theorem readAnnotationDecl_reads {a : AnnotationDecl} (h : readAnnotationDecl n value = some a)
    (hkind : NodeKind.layout .annotationDecl = .record slots) : RecordReads slots n value := by
  cases hkind
  obtain ⟨m, fields, rfl, hfields, hname, hparameters⟩ := readAnnotationDecl_eq_some.mp h
  refine ⟨m, fields, rfl, hfields, ?_⟩
  simp only [List.forall_mem_cons]
  exact ⟨required_reads hname fun _ a ha => ⟨a, ha⟩,
    items_reads hparameters fun _ _ a ha => ⟨a, ha⟩, nofun⟩

theorem readFieldDecl_reads {a : FieldDecl} (h : readFieldDecl n value = some a)
    (hkind : NodeKind.layout .fieldDecl = .record slots) : RecordReads slots n value := by
  cases hkind
  obtain ⟨m, fields, rfl, hfields, hname, htype⟩ := readFieldDecl_eq_some.mp h
  refine ⟨m, fields, rfl, hfields, ?_⟩
  simp only [List.forall_mem_cons]
  exact ⟨required_reads hname fun _ a ha => ⟨a, ha⟩, required_reads htype fun _ a ha => ⟨a, ha⟩,
    nofun⟩

theorem readMemberDecl_reads {a : MemberDecl} (h : readMemberDecl n value = some a)
    (hkind : NodeKind.layout .memberDecl = .record slots) : RecordReads slots n value := by
  cases hkind
  obtain ⟨m, fields, rfl, hfields, hname, hvalue⟩ := readMemberDecl_eq_some.mp h
  refine ⟨m, fields, rfl, hfields, ?_⟩
  simp only [List.forall_mem_cons]
  exact ⟨required_reads hname fun _ a ha => ⟨a, ha⟩, optional_reads hvalue fun _ _ _ => trivial,
    nofun⟩

theorem readAlias_reads {a : TypeDefinition} (h : readTypeContent n "Alias" value = some a)
    (hkind : NodeKind.layout .aliasType = .record slots) : RecordReads slots n value := by
  cases hkind
  obtain ⟨m, fields, _, rfl, hfields, htarget, -⟩ := readAlias_eq_some.mp h
  refine ⟨m, fields, rfl, hfields, ?_⟩
  simp only [List.forall_mem_cons]
  exact ⟨required_reads htarget fun _ a ha => ⟨a, ha⟩, nofun⟩

theorem readStructured_reads {a : TypeDefinition}
    (h : readTypeContent n "Structured" value = some a)
    (hkind : NodeKind.layout .structuredType = .record slots) : RecordReads slots n value := by
  cases hkind
  obtain ⟨m, fields, _, rfl, hfields, hdeclarations, -⟩ := readStructured_eq_some.mp h
  refine ⟨m, fields, rfl, hfields, ?_⟩
  simp only [List.forall_mem_cons]
  exact ⟨required_reads hdeclarations fun _ _ hlist => list_reads hlist fun _ _ a ha => ⟨a, ha⟩,
    nofun⟩

theorem readEnum_reads {a : TypeDefinition} (h : readTypeContent n "Enum" value = some a)
    (hkind : NodeKind.layout .enumType = .record slots) : RecordReads slots n value := by
  cases hkind
  obtain ⟨m, fields, _, rfl, hfields, hmembers, -⟩ := readEnum_eq_some.mp h
  refine ⟨m, fields, rfl, hfields, ?_⟩
  simp only [List.forall_mem_cons]
  exact ⟨required_reads hmembers fun _ _ hlist => list_reads hlist fun _ _ a ha => ⟨a, ha⟩, nofun⟩

theorem readEnumLike_reads {a : TypeDefinition}
    (h : readTypeContent n "EnumLikeSemantic" value = some a)
    (hkind : NodeKind.layout .enumLikeType = .record slots) : RecordReads slots n value := by
  cases hkind
  obtain ⟨m, fields, _, _, rfl, hfields, hunderlying, hbacking, -⟩ := readEnumLike_eq_some.mp h
  refine ⟨m, fields, rfl, hfields, ?_⟩
  simp only [List.forall_mem_cons]
  exact ⟨required_reads hunderlying fun _ a ha => ⟨a, ha⟩,
    required_reads hbacking fun _ a ha => ⟨a, ha⟩, nofun⟩

theorem readTypeDecl_reads {a : TypeDecl} (h : readTypeDecl n value = some a)
    (hkind : NodeKind.layout .typeDecl = .record slots) : RecordReads slots n value := by
  cases hkind
  obtain ⟨m, fields, rfl, hfields, hname, hdefinition⟩ := readTypeDecl_eq_some.mp h
  refine ⟨m, fields, rfl, hfields, ?_⟩
  simp only [List.forall_mem_cons]
  exact ⟨required_reads hname fun _ a ha => ⟨a, ha⟩,
    required_reads hdefinition fun _ a ha => ⟨a, ha⟩, nofun⟩

theorem readStateDecl_reads {a : StateDecl} (h : readStateDecl n value = some a)
    (hkind : NodeKind.layout .stateDecl = .record slots) : RecordReads slots n value := by
  cases hkind
  obtain ⟨m, fields, rfl, hfields, hname, hkind⟩ := readStateDecl_eq_some.mp h
  refine ⟨m, fields, rfl, hfields, ?_⟩
  simp only [List.forall_mem_cons]
  exact ⟨required_reads hname fun _ a ha => ⟨a, ha⟩, required_reads hkind fun _ a ha => ⟨a, ha⟩,
    nofun⟩

theorem readTrigger_reads {a : Trigger} (h : readTrigger n value = some a)
    (hkind : NodeKind.layout .trigger = .record slots) : RecordReads slots n value := by
  cases hkind
  obtain ⟨m, fields, rfl, hfields, hname, htypes⟩ := readTrigger_eq_some.mp h
  refine ⟨m, fields, rfl, hfields, ?_⟩
  simp only [List.forall_mem_cons]
  exact ⟨required_reads hname fun _ a ha => ⟨a, ha⟩,
    optional_reads htypes fun _ _ hlist => list_reads hlist fun _ _ a ha => ⟨a, ha⟩, nofun⟩

theorem readShiftDecl_reads {a : ShiftDecl} (h : readShiftDecl n value = some a)
    (hkind : NodeKind.layout .shiftDecl = .record slots) : RecordReads slots n value := by
  cases hkind
  obtain ⟨m, fields, rfl, hfields, hsources, htarget, hfunctions,
    hspan⟩ := readShiftDecl_eq_some.mp h
  refine ⟨m, fields, rfl, hfields, ?_⟩
  simp only [List.forall_mem_cons]
  exact ⟨required_reads hsources fun _ _ hlist => list_reads hlist fun _ _ a ha => ⟨a, ha⟩,
    optional_reads htarget fun _ a ha => ⟨a, ha⟩, items_reads hfunctions fun _ _ a ha => ⟨a, ha⟩,
    place_reads hspan, nofun⟩

theorem readContractDecl_reads {a : ContractDecl} (h : readContractDecl n value = some a)
    (hkind : NodeKind.layout .contractDecl = .record slots) : RecordReads slots n value := by
  cases hkind
  obtain ⟨m, fields, rfl, hfields, hname, hkind, hexpression,
    hspan⟩ := readContractDecl_eq_some.mp h
  refine ⟨m, fields, rfl, hfields, ?_⟩
  simp only [List.forall_mem_cons]
  exact ⟨optional_reads hname fun _ a ha => ⟨a, ha⟩, required_reads hkind fun _ a ha => ⟨a, ha⟩,
    required_reads hexpression fun _ a ha => ⟨a, ha⟩, place_reads hspan, nofun⟩

theorem readNamedArgument_reads {a : NamedArgument} (h : readNamedArgument n value = some a)
    (hkind : NodeKind.layout .namedArgument = .record slots) : RecordReads slots n value := by
  cases hkind
  obtain ⟨m, fields, rfl, hfields, hname, hvalue⟩ := readNamedArgument_eq_some.mp h
  refine ⟨m, fields, rfl, hfields, ?_⟩
  simp only [List.forall_mem_cons]
  exact ⟨required_reads hname fun _ a ha => ⟨a, ha⟩, required_reads hvalue fun _ a ha => ⟨a, ha⟩,
    nofun⟩

theorem readConstructorCall_reads {a : ConstructorCall} (h : readConstructorCall n value = some a)
    (hkind : NodeKind.layout .constructorCall = .record slots) : RecordReads slots n value := by
  cases hkind
  obtain ⟨m, fields, rfl, hfields, hautomaton, harguments,
    hspan⟩ := readConstructorCall_eq_some.mp h
  refine ⟨m, fields, rfl, hfields, ?_⟩
  simp only [List.forall_mem_cons]
  exact ⟨required_reads hautomaton fun _ a ha => ⟨a, ha⟩,
    items_reads harguments fun _ _ a ha => ⟨a, ha⟩, place_reads hspan, nofun⟩

theorem readAssignment_reads {a : Statement} (h : readAssignment n value = some a)
    (hkind : NodeKind.layout .assignment = .record slots) : RecordReads slots n value := by
  cases hkind
  obtain ⟨m, fields, _, _, _, _, rfl, hfields, htarget, hvalue, hconstructor, hspan,
    -⟩ := readAssignment_eq_some.mp h
  refine ⟨m, fields, rfl, hfields, ?_⟩
  simp only [List.forall_mem_cons]
  exact ⟨required_reads htarget fun _ a ha => ⟨a, ha⟩, optional_reads hvalue fun _ a ha => ⟨a, ha⟩,
    optional_reads hconstructor fun _ a ha => ⟨a, ha⟩, place_reads hspan, nofun⟩

theorem readAction_reads {a : Statement} (h : readAction n value = some a)
    (hkind : NodeKind.layout .action = .record slots) : RecordReads slots n value := by
  cases hkind
  obtain ⟨m, fields, _, _, _, rfl, hfields, hname, harguments, hspan, -⟩ := readAction_eq_some.mp h
  refine ⟨m, fields, rfl, hfields, ?_⟩
  simp only [List.forall_mem_cons]
  exact ⟨required_reads hname fun _ a ha => ⟨a, ha⟩, items_reads harguments fun _ _ a ha => ⟨a, ha⟩,
    place_reads hspan, nofun⟩

theorem readFunctionDecl_reads {a : FunctionDecl} (h : readFunctionDecl n value = some a)
    (hkind : NodeKind.layout .functionDecl = .record slots) : RecordReads slots n value := by
  cases hkind
  obtain ⟨m, fields, rfl, hfields, hkind, hautomaton, hname, hparameters, hreturn, hannotations,
    hcontracts, hbody, hspan⟩ := readFunctionDecl_eq_some.mp h
  refine ⟨m, fields, rfl, hfields, ?_⟩
  simp only [List.forall_mem_cons]
  exact ⟨required_reads hkind fun _ a ha => ⟨a, ha⟩,
    optional_reads hautomaton fun _ a ha => ⟨a, ha⟩, optional_reads hname fun _ a ha => ⟨a, ha⟩,
    items_reads hparameters fun _ _ a ha => ⟨a, ha⟩, optional_reads hreturn fun _ a ha => ⟨a, ha⟩,
    items_reads hannotations fun _ _ a ha => ⟨a, ha⟩,
    items_reads hcontracts fun _ _ a ha => ⟨a, ha⟩,
    optional_reads hbody fun _ _ hlist => list_reads hlist fun _ _ a ha => ⟨a, ha⟩,
    place_reads hspan, nofun⟩

theorem readAutomatonDecl_reads {a : AutomatonDecl} (h : readAutomatonDecl n value = some a)
    (hkind : NodeKind.layout .automatonDecl = .record slots) : RecordReads slots n value := by
  cases hkind
  obtain ⟨m, fields, rfl, hfields, hname, htype, hconstructor, hstates, hinstance, hshifts,
    hfunctions, hspan⟩ := readAutomatonDecl_eq_some.mp h
  refine ⟨m, fields, rfl, hfields, ?_⟩
  simp only [List.forall_mem_cons]
  exact ⟨required_reads hname fun _ a ha => ⟨a, ha⟩, required_reads htype fun _ a ha => ⟨a, ha⟩,
    items_reads hconstructor fun _ _ a ha => ⟨a, ha⟩, items_reads hstates fun _ _ a ha => ⟨a, ha⟩,
    items_reads hinstance fun _ _ a ha => ⟨a, ha⟩, items_reads hshifts fun _ _ a ha => ⟨a, ha⟩,
    items_reads hfunctions fun _ _ a ha => ⟨a, ha⟩, place_reads hspan, nofun⟩

theorem readLibrary_reads {a : Library} (h : readLibrary n value = some a)
    (hkind : NodeKind.layout .library = .record slots) : RecordReads slots n value := by
  cases hkind
  obtain ⟨m, fields, rfl, hfields, hname, hlslVersion, hlibraryVersion, hlanguage, hurl, himports,
    hincludes, hdeclarations⟩ := readLibrary_eq_some.mp h
  refine ⟨m, fields, rfl, hfields, ?_⟩
  simp only [List.forall_mem_cons]
  exact ⟨required_reads hname fun _ a ha => ⟨a, ha⟩,
    optional_reads hlslVersion fun _ _ _ => trivial,
    optional_reads hlibraryVersion fun _ _ _ => trivial,
    optional_reads hlanguage fun _ _ _ => trivial, optional_reads hurl fun _ _ _ => trivial,
    items_reads himports fun _ _ _ _ => trivial, items_reads hincludes fun _ _ _ _ => trivial,
    items_reads hdeclarations fun _ _ a ha => ⟨a, ha⟩, nofun⟩

end Records

/-- A record that is read has each known member at most once, and its members are read as well. -/
theorem NodeKind.Reads.record {kind : NodeKind} {slots : List Slot} {n : Nat} {value : Json}
    (h : kind.Reads n value) (hkind : kind.layout = .record slots) : RecordReads slots n value := by
  cases kind
  case span => obtain ⟨_, h⟩ := h; exact readSpan_reads h hkind
  case identifier => obtain ⟨_, h⟩ := h; exact readIdentifier_reads h hkind
  case expr => obtain ⟨_, h⟩ := h; exact readExpr_reads h hkind
  case unary => obtain ⟨_, _, h⟩ := h; exact readUnary_reads h hkind
  case binary => obtain ⟨_, _, h⟩ := h; exact readBinary_reads h hkind
  case chain => obtain ⟨_, h⟩ := h; exact readChain_reads h hkind
  case getter => obtain ⟨_, h⟩ := h; exact readGetter_reads h hkind
  case annotationUse => obtain ⟨_, h⟩ := h; exact readAnnotationUse_reads h hkind
  case parameter => obtain ⟨_, h⟩ := h; exact readParameter_reads h hkind
  case variableDecl => obtain ⟨_, h⟩ := h; exact readVariableDecl_reads h hkind
  case annotationDecl => obtain ⟨_, h⟩ := h; exact readAnnotationDecl_reads h hkind
  case fieldDecl => obtain ⟨_, h⟩ := h; exact readFieldDecl_reads h hkind
  case memberDecl => obtain ⟨_, h⟩ := h; exact readMemberDecl_reads h hkind
  case aliasType => obtain ⟨_, h⟩ := h; exact readAlias_reads h hkind
  case structuredType => obtain ⟨_, h⟩ := h; exact readStructured_reads h hkind
  case enumType => obtain ⟨_, h⟩ := h; exact readEnum_reads h hkind
  case enumLikeType => obtain ⟨_, h⟩ := h; exact readEnumLike_reads h hkind
  case typeDecl => obtain ⟨_, h⟩ := h; exact readTypeDecl_reads h hkind
  case stateDecl => obtain ⟨_, h⟩ := h; exact readStateDecl_reads h hkind
  case trigger => obtain ⟨_, h⟩ := h; exact readTrigger_reads h hkind
  case shiftDecl => obtain ⟨_, h⟩ := h; exact readShiftDecl_reads h hkind
  case contractDecl => obtain ⟨_, h⟩ := h; exact readContractDecl_reads h hkind
  case namedArgument => obtain ⟨_, h⟩ := h; exact readNamedArgument_reads h hkind
  case constructorCall => obtain ⟨_, h⟩ := h; exact readConstructorCall_reads h hkind
  case assignment => obtain ⟨_, h⟩ := h; exact readAssignment_reads h hkind
  case action => obtain ⟨_, h⟩ := h; exact readAction_reads h hkind
  case functionDecl => obtain ⟨_, h⟩ := h; exact readFunctionDecl_reads h hkind
  case automatonDecl => obtain ⟨_, h⟩ := h; exact readAutomatonDecl_reads h hkind
  case library => obtain ⟨_, h⟩ := h; exact readLibrary_reads h hkind
  all_goals cases hkind

/-! ## Tags -/

section Choices

variable {n : Nat} {members : List (Option String × Json)} {tags : List (String × Option Shape)}

/-- A choice is read when what its tag is followed by is read. -/
theorem tagged_reads {α : Type} {build : Nat → String → Option Json → Option α} {a : α}
    (h : Json.tagged build n (.object members) = some a)
    (hbuild : ∀ m tag value content, build m tag (some value) = some a →
      (tag, some content) ∈ tags → content.Reads m value) : ChoiceReads tags n members := by
  obtain ⟨m, tag, value, rfl, rfl, h⟩ := Json.tagged_object_eq_some.mp h
  exact ⟨m, tag, value, rfl, rfl, fun content htag => hbuild m tag value content h htag⟩

theorem readTypeExpr_reads {e : TypeExpr} (h : readTypeExpr n (.object members) = some e)
    (hkind : NodeKind.layout .typeExpr = .choice tags) : ChoiceReads tags n members := by
  cases hkind
  match n, members, h with
  | m + 1, [(some tag, value)], h =>
    refine ⟨m, tag, value, rfl, rfl, fun content htag => ?_⟩
    simp only [List.mem_cons, Prod.mk.injEq, Option.some.injEq,
      List.not_mem_nil, or_false] at htag
    rcases htag with ⟨rfl, rfl⟩ | ⟨rfl, rfl⟩
    · obtain ⟨a, ha, -⟩ := Option.map_eq_some_iff.mp h
      exact ⟨a, ha⟩
    · obtain ⟨a, ha, -⟩ := Option.map_eq_some_iff.mp h
      exact ⟨a, ha⟩

theorem readLiteral_reads {v : Literal} (h : readLiteral n (.object members) = some v)
    (hkind : NodeKind.layout .literal = .choice tags) : ChoiceReads tags n members := by
  cases hkind
  refine tagged_reads h fun m tag value content _ htag => ?_
  simp only [List.mem_cons, Prod.mk.injEq, Option.some.injEq,
    List.not_mem_nil, or_false] at htag
  rcases htag with ⟨-, rfl⟩ | ⟨-, rfl⟩ | ⟨-, rfl⟩ | ⟨-, rfl⟩ <;> trivial

theorem readExprKind_reads {e : Expr} {span : Span}
    (h : readExprKind n span (.object members) = some e)
    (hkind : NodeKind.layout .exprKind = .choice tags) : ChoiceReads tags n members := by
  cases hkind
  match n, members, h with
  | m + 1, [(some tag, value)], h =>
    refine ⟨m, tag, value, rfl, rfl, fun content htag => ?_⟩
    simp only [List.mem_cons, Prod.mk.injEq, Option.some.injEq,
      List.not_mem_nil, or_false] at htag
    rcases htag with ⟨rfl, rfl⟩ | ⟨rfl, rfl⟩ | ⟨rfl, rfl⟩ | ⟨rfl, rfl⟩ | ⟨rfl, rfl⟩ | ⟨rfl, rfl⟩
    case inr.inr.inr.inl => exact ⟨span, e, h⟩
    case inr.inr.inr.inr.inl => exact ⟨span, e, h⟩
    all_goals
      obtain ⟨a, ha, -⟩ := Option.map_eq_some_iff.mp h
      exact ⟨a, ha⟩

theorem readSegment_reads {s : Segment} (h : readSegment n (.object members) = some s)
    (hkind : NodeKind.layout .segment = .choice tags) : ChoiceReads tags n members := by
  cases hkind
  match n, members, h with
  | m + 1, [(some tag, value)], h =>
    refine ⟨m, tag, value, rfl, rfl, fun content htag => ?_⟩
    simp only [List.mem_cons, Prod.mk.injEq, Option.some.injEq,
      List.not_mem_nil, or_false] at htag
    rcases htag with ⟨rfl, rfl⟩ | ⟨rfl, rfl⟩ | ⟨rfl, rfl⟩
    case inr.inr => exact ⟨s, h⟩
    all_goals
      obtain ⟨a, ha, -⟩ := Option.map_eq_some_iff.mp h
      exact ⟨a, ha⟩

theorem readTypeDefinition_reads {d : TypeDefinition}
    (h : readTypeDefinition n (.object members) = some d)
    (hkind : NodeKind.layout .typeDefinition = .choice tags) : ChoiceReads tags n members := by
  cases hkind
  refine tagged_reads h fun m tag value content h htag => ?_
  simp only [List.mem_cons, Prod.mk.injEq, Option.some.injEq,
    List.not_mem_nil, or_false, reduceCtorEq, and_false, false_or] at htag
  rcases htag with ⟨rfl, rfl⟩ | ⟨rfl, rfl⟩ | ⟨rfl, rfl⟩ | ⟨rfl, rfl⟩ <;> exact ⟨d, h⟩

/-- Tags without content are followed by nothing that is read. -/
theorem tag_reads {α : Type} {known : List (String × α)} {a : α}
    (h : Json.tag known n (.object members) = some a) (hnone : ∀ tag ∈ tags, tag.2 = none) :
    ChoiceReads tags n members := by
  refine tagged_reads h fun m tag value content _ htag => ?_
  cases hnone _ htag

theorem readStatement_reads {s : Statement} (h : readStatement n (.object members) = some s)
    (hkind : NodeKind.layout .statement = .choice tags) : ChoiceReads tags n members := by
  cases hkind
  refine tagged_reads h fun m tag value content h htag => ?_
  simp only [List.mem_cons, Prod.mk.injEq, Option.some.injEq,
    List.not_mem_nil, or_false] at htag
  rcases htag with ⟨rfl, rfl⟩ | ⟨rfl, rfl⟩ | ⟨rfl, rfl⟩
  · exact ⟨s, h⟩
  · exact ⟨s, h⟩
  · obtain ⟨a, ha, -⟩ := Option.map_eq_some_iff.mp h
    exact ⟨a, ha⟩

theorem readDeclaration_reads {d : Declaration} (h : readDeclaration n (.object members) = some d)
    (hkind : NodeKind.layout .declaration = .choice tags) : ChoiceReads tags n members := by
  cases hkind
  refine tagged_reads h fun m tag value content h htag => ?_
  simp only [List.mem_cons, Prod.mk.injEq, Option.some.injEq,
    List.not_mem_nil, or_false] at htag
  rcases htag with ⟨rfl, rfl⟩ | ⟨rfl, rfl⟩ | ⟨rfl, rfl⟩ | ⟨rfl, rfl⟩ | ⟨rfl, rfl⟩ <;>
    · obtain ⟨a, ha, -⟩ := Option.map_eq_some_iff.mp h
      exact ⟨a, ha⟩

end Choices

/-- An object that is read as a choice has one member, and what its tag is followed by is read. -/
theorem NodeKind.Reads.choice {kind : NodeKind} {tags : List (String × Option Shape)} {n : Nat}
    {members : List (Option String × Json)} (h : kind.Reads n (.object members))
    (hkind : kind.layout = .choice tags) : ChoiceReads tags n members := by
  cases kind
  case typeExpr => obtain ⟨_, h⟩ := h; exact readTypeExpr_reads h hkind
  case literal => obtain ⟨_, h⟩ := h; exact readLiteral_reads h hkind
  case exprKind => obtain ⟨_, _, h⟩ := h; exact readExprKind_reads h hkind
  case segment => obtain ⟨_, h⟩ := h; exact readSegment_reads h hkind
  case typeDefinition => obtain ⟨_, h⟩ := h; exact readTypeDefinition_reads h hkind
  case stateKind =>
    obtain ⟨_, h⟩ := h
    exact tag_reads h (by cases hkind; decide)
  case operationKind =>
    obtain ⟨_, h⟩ := h
    exact tag_reads h (by cases hkind; decide)
  case contractKind =>
    obtain ⟨_, h⟩ := h
    exact tag_reads h (by cases hkind; decide)
  case statement => obtain ⟨_, h⟩ := h; exact readStatement_reads h hkind
  case declaration => obtain ⟨_, h⟩ := h; exact readDeclaration_reads h hkind
  all_goals cases hkind

/-! ## Repetitions -/

namespace Shape.Repeats

theorem ne_null {s : Shape} {value : Json} (h : s.Repeats value) : value ≠ .null := by
  induction h with
  | present _ ih => exact ih
  | _ => exact Json.noConfusion

/-- A name that a record knows is not given twice. -/
theorem count_le_one {names : List String} {members : List (Option String × Json)}
    {fields : Fields} {name : String} (h : (Json.object members).fields? names = some fields)
    (hname : name ∈ names) : (members.map Prod.fst).count (some name) ≤ 1 := by
  obtain ⟨named, hnamed, rfl, hnodup⟩ := Json.fields?_object_eq_some.mp h
  obtain rfl := Json.object.inj hnamed
  have hcount := List.nodup_iff_count_le_one.mp hnodup name
  have hfilter : (named.filter fun m => decide (m.1 ∈ names)).map Prod.fst =
      (named.map Prod.fst).filter fun other => decide (other ∈ names) := by
    rw [List.filter_map]
    rfl
  rw [hfilter, List.count_filter (by simpa using hname)] at hcount
  rwa [List.map_map, show Prod.fst ∘ (fun m : String × Json => (some m.1, m.2)) = some ∘ Prod.fst
    from rfl, ← List.map_map, List.count_map_of_injective _ _ fun _ _ => Option.some.inj]

/-- A known member of an object is found. -/
theorem lookup_object {names : List String} {members : List (Option String × Json)}
    {fields : Fields} {name : String} {value : Json}
    (h : (Json.object members).fields? names = some fields) (hname : name ∈ names)
    (hmember : (some name, value) ∈ members) : fields.lookup name = some value := by
  obtain ⟨named, hnamed, rfl, hnodup⟩ := Json.fields?_object_eq_some.mp h
  obtain rfl := Json.object.inj hnamed
  obtain ⟨m, hm, hvalue⟩ := List.mem_map.mp hmember
  obtain ⟨rfl, rfl⟩ : m.1 = name ∧ m.2 = value := by simpa using hvalue
  exact (Json.lookup_eq_some_iff hnodup).mpr (List.mem_filter.mpr ⟨hm, by simpa using hname⟩)

theorem sublist_zip (names : List String) (values : List Json) :
    ((names.zip values).map Prod.fst).Sublist names := by
  induction names generalizing values with
  | nil => simp
  | cons name rest ih =>
    cases values with
    | nil => simp
    | cons value values => exact (ih values).cons_cons name

/-- An item of an array is found under the name of its place. -/
theorem lookup_array {names : List String} {values : List Json} {fields : Fields} {name : String}
    {value : Json} {i : Nat} (h : (Json.array values).fields? names = some fields)
    (hnames : names.Nodup) (hname : names[i]? = some name) (hvalue : values[i]? = some value) :
    fields.lookup name = some value := by
  obtain rfl := Json.fields?_array_eq_some h
  have hnodup : ((names.zip values).map Prod.fst).Nodup :=
    hnames.sublist (sublist_zip names values)
  refine (Json.lookup_eq_some_iff hnodup).mpr (List.mem_of_getElem? (i := i) ?_)
  exact List.getElem?_zip_eq_some.mpr ⟨hname, hvalue⟩

/-- A document with a repetition is not read, within any number of levels. -/
theorem not_reads {s : Shape} {value : Json} (h : s.Repeats value) (n : Nat) :
    ¬s.Reads n value := by
  induction h generalizing n with
  | here hkind hslot htwice =>
    intro hread
    obtain ⟨m, fields, rfl, hfields, -⟩ := NodeKind.Reads.record hread hkind
    have hcount := count_le_one hfields (List.mem_map_of_mem hslot)
    omega
  | member hkind hslot hmember _ ih =>
    intro hread
    obtain ⟨m, fields, rfl, hfields, hslots⟩ := NodeKind.Reads.record hread hkind
    exact ih m (hslots _ hslot _ (lookup_object hfields (List.mem_map_of_mem hslot) hmember))
  | @element kind slots slot values value i hkind hslot hvalue _ ih =>
    intro hread
    obtain ⟨m, fields, rfl, hfields, hslots⟩ := NodeKind.Reads.record hread hkind
    have hname : (slots.map Slot.name)[i]? = some slot.name := by rw [List.getElem?_map, hslot]; rfl
    have hfound := lookup_array hfields (NodeKind.slots_nodup hkind) hname hvalue
    exact ih m (hslots slot (List.mem_of_getElem? hslot) _ hfound)
  | content hkind htag hmember _ ih =>
    intro hread
    obtain ⟨m, tag, value, rfl, rfl, hcontent⟩ := NodeKind.Reads.choice hread hkind
    obtain ⟨rfl, rfl⟩ : _ ∧ _ := by simpa using hmember
    exact ih m (hcontent _ htag)
  | item hvalue _ ih =>
    rintro ⟨m, values, rfl, hvalues, hread⟩
    obtain rfl := Json.array.inj hvalues
    exact ih m (hread _ hvalue)
  | present h ih =>
    rintro (hnull | hread)
    · exact h.ne_null hnull
    · exact ih n hread

end Shape.Repeats

end SyntaxTree

end LibraryContract
