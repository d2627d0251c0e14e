import Mathlib.Tactic.Simproc.ExistsAndEq
import LibraryContract.SyntaxTree.Decode

/-!
# What the readers of a tree accept

Each lemma `read…_eq_some` says when a reader gives a certain tree: what the value must be, and what
the readers of its members must give. Other modules know the readers of records through these lemmas
alone.
-/

namespace LibraryContract

open Json (Reader Fields record list tagged string? uint64? int64?)

namespace Json

variable {α : Type} {levels : Nat} {value : Json}

theorem record_eq_some {names : List String} {build : Nat → Fields → Option α} {a : α} :
    record names build levels value = some a ↔
      ∃ m fields, levels = m + 1 ∧ value.fields? names = some fields ∧ build m fields = some a := by
  cases levels with
  | zero => simp [record]
  | succ m => simp [record, Option.bind_eq_some_iff]

theorem list_eq_some {item : Reader α} {items : List α} :
    list item levels value = some items ↔
      ∃ m values, levels = m + 1 ∧ value = .array values ∧ values.mapM (item m) = some items := by
  cases levels with
  | zero => simp [list]
  | succ m => cases value <;> simp [list]

theorem lookup_eq_some_iff {α : Type} {entries : List (String × α)} {name : String} {a : α}
    (h : (entries.map Prod.fst).Nodup) : entries.lookup name = some a ↔ (name, a) ∈ entries := by
  induction entries with
  | nil => simp
  | cons entry rest ih =>
    obtain ⟨other, b⟩ := entry
    rw [List.map_cons, List.nodup_cons] at h
    rw [List.mem_cons, Prod.mk.injEq]
    by_cases hname : name = other
    · subst hname
      have hrest : (name, a) ∉ rest := fun hmem => h.1 (List.mem_map.mpr ⟨_, hmem, rfl⟩)
      simp [hrest, eq_comm]
    · simp [List.lookup_cons, beq_eq_false_iff_ne.mpr hname, hname, ih h.2]

/-- The names of all members are readable when they are texts. -/
theorem mapM_name_eq_some {members : List (Option String × Json)} {named : Fields} :
    members.mapM (fun m => m.1.map fun name => (name, m.2)) = some named ↔
      members = named.map fun m => (some m.1, m.2) := by
  induction members generalizing named with
  | nil => cases named <;> simp
  | cons m rest ih =>
    obtain ⟨name, value⟩ := m
    cases name <;> cases named <;>
      simp [List.mapM_cons, Option.bind_eq_some_iff, ih, Prod.ext_iff, and_comm, and_assoc]

/-- The known members of an object have different names. -/
theorem fields?_object_eq_some {names : List String} {members : List (Option String × Json)}
    {fields : Fields} :
    (object members).fields? names = some fields ↔
      ∃ named : List (String × Json), object members = ofMembers named ∧
        fields = named.filter (fun m => decide (m.1 ∈ names)) ∧ (fields.map Prod.fst).Nodup := by
  simp only [fields?, ofMembers, Option.bind_eq_bind, Option.bind_eq_some_iff, mapM_name_eq_some,
    Option.ite_none_right_eq_some, Option.some.injEq, object.injEq]
  constructor
  · rintro ⟨named, hnamed, hnodup, rfl⟩
    exact ⟨named, hnamed, rfl, hnodup⟩
  · rintro ⟨named, hnamed, rfl, hnodup⟩
    exact ⟨named, hnamed, hnodup, rfl⟩

/-- The members of an array are known in their order. -/
theorem fields?_array_eq_some {names : List String} {values : List Json} {fields : Fields}
    (h : (array values).fields? names = some fields) : fields = names.zip values := by
  rw [fields?, Option.ite_none_right_eq_some] at h
  exact (Option.some.inj h.2).symm

/-- An object is read as a tagged value when it has one member. -/
theorem tagged_object_eq_some {build : Nat → String → Option Json → Option α} {a : α}
    {members : List (Option String × Json)} :
    tagged build levels (.object members) = some a ↔
      ∃ m tag content, levels = m + 1 ∧ members = [(some tag, content)] ∧
        build m tag (some content) = some a := by
  cases levels with
  | zero => simp [tagged]
  | succ m =>
    constructor
    · intro h
      match members, h with
      | [(some tag, content)], h => exact ⟨m, tag, content, rfl, rfl, h⟩
    · rintro ⟨_, tag, content, hm, rfl, h⟩
      cases hm
      exact h

end Json

namespace SyntaxTree

variable {levels : Nat} {value : Json}

theorem readSpan_eq_some {s : Span} :
    readSpan levels value = some s ↔
      ∃ m fields, levels = m + 1 ∧
        value.fields? ["line", "column", "end_line", "end_column"] = some fields ∧
        fields.required "line" uint64? = some s.line ∧
        fields.required "column" uint64? = some s.column ∧
        fields.required "end_line" uint64? = some s.endLine ∧
        fields.required "end_column" uint64? = some s.endColumn := by
  obtain ⟨line, column, endLine, endColumn⟩ := s
  simp [readSpan, Json.record_eq_some, Option.bind_eq_some_iff]

theorem readIdentifier_eq_some {i : Identifier} :
    readIdentifier levels value = some i ↔
      ∃ m fields, levels = m + 1 ∧ value.fields? ["name", "span"] = some fields ∧
        fields.required "name" string? = some i.name ∧ spanField m fields = some i.span := by
  obtain ⟨name, span⟩ := i
  simp [readIdentifier, Json.record_eq_some, Option.bind_eq_some_iff]

/-! ## Expressions -/

theorem readExpr_eq_some {e : Expr} :
    readExpr levels value = some e ↔
      ∃ m fields span, levels = m + 1 ∧ value.fields? ["span", "kind"] = some fields ∧
        spanField m fields = some span ∧
        fields.required "kind" (fun v => readExprKind m span v) = some e := by
  cases levels with
  | zero => simp [readExpr]
  | succ m => simp [readExpr, Option.bind_eq_some_iff, Fields.required]

theorem readUnary_eq_some {e : Expr} {span : Span} :
    readUnary levels span value = some e ↔
      ∃ m fields operator operand, levels = m + 1 ∧
        value.fields? ["operator", "operand"] = some fields ∧
        fields.required "operator" string? = some operator ∧
        fields.required "operand" (readExpr m) = some operand ∧
        .unary operator operand span = e := by
  cases levels with
  | zero => simp [readUnary]
  | succ m => simp [readUnary, Option.bind_eq_some_iff, Fields.required]

theorem readBinary_eq_some {e : Expr} {span : Span} :
    readBinary levels span value = some e ↔
      ∃ m fields operator left right, levels = m + 1 ∧
        value.fields? ["operator", "left", "right"] = some fields ∧
        fields.required "operator" string? = some operator ∧
        fields.required "left" (readExpr m) = some left ∧
        fields.required "right" (readExpr m) = some right ∧
        .binary operator left right span = e := by
  cases levels with
  | zero => simp [readBinary]
  | succ m => simp [readBinary, Option.bind_eq_some_iff, Fields.required]

theorem readSegments_eq_list : readSegments = list readSegment := by
  funext levels value
  cases levels with
  | zero => rfl
  | succ m => cases value <;> rfl

theorem readChain_eq_some {c : Chain} :
    readChain levels value = some c ↔
      ∃ m fields, levels = m + 1 ∧ value.fields? ["segments", "span"] = some fields ∧
        fields.required "segments" (list readSegment m) = some c.segments ∧
        spanField m fields = some c.span := by
  obtain ⟨segments, span⟩ := c
  cases levels with
  | zero => simp [readChain]
  | succ m => simp [readChain, readSegments_eq_list, Option.bind_eq_some_iff, Fields.required]

theorem readGetter_eq_some {s : Segment} :
    readGetter levels value = some s ↔
      ∃ m fields automaton argument, levels = m + 1 ∧
        value.fields? ["automaton", "argument"] = some fields ∧
        fields.required "automaton" (readIdentifier m) = some automaton ∧
        fields.required "argument" (readIdentifier m) = some argument ∧
        .getter automaton argument = s := by
  simp [readGetter, Json.record_eq_some, Option.bind_eq_some_iff]

/-! ## Declarations -/

theorem readAnnotationUse_eq_some {u : AnnotationUse} :
    readAnnotationUse levels value = some u ↔
      ∃ m fields, levels = m + 1 ∧ value.fields? ["name", "arguments"] = some fields ∧
        fields.required "name" (readIdentifier m) = some u.name ∧
        listField m fields "arguments" readExpr = some u.arguments := by
  obtain ⟨name, arguments⟩ := u
  simp [readAnnotationUse, Json.record_eq_some, Option.bind_eq_some_iff]

theorem readParameter_eq_some {p : Parameter} :
    readParameter levels value = some p ↔
      ∃ m fields, levels = m + 1 ∧ value.fields? ["name", "ty", "annotations"] = some fields ∧
        fields.required "name" (readIdentifier m) = some p.name ∧
        fields.required "ty" (readTypeExpr m) = some p.type ∧
        listField m fields "annotations" readAnnotationUse = some p.annotations := by
  obtain ⟨name, type, annotations⟩ := p
  simp [readParameter, Json.record_eq_some, Option.bind_eq_some_iff]

theorem readVariableDecl_eq_some {d : VariableDecl} :
    readVariableDecl levels value = some d ↔
      ∃ m fields, levels = m + 1 ∧ value.fields? ["name", "ty", "initializer"] = some fields ∧
        fields.required "name" (readIdentifier m) = some d.name ∧
        fields.required "ty" (readTypeExpr m) = some d.type ∧
        fields.optional "initializer" (readExpr m) = some d.initializer := by
  obtain ⟨name, type, initializer⟩ := d
  simp [readVariableDecl, Json.record_eq_some, Option.bind_eq_some_iff]

theorem readAnnotationDecl_eq_some {d : AnnotationDecl} :
    readAnnotationDecl levels value = some d ↔
      ∃ m fields, levels = m + 1 ∧ value.fields? ["name", "parameters"] = some fields ∧
        fields.required "name" (readIdentifier m) = some d.name ∧
        listField m fields "parameters" readParameter = some d.parameters := by
  obtain ⟨name, parameters⟩ := d
  simp [readAnnotationDecl, Json.record_eq_some, Option.bind_eq_some_iff]

theorem readFieldDecl_eq_some {d : FieldDecl} :
    readFieldDecl levels value = some d ↔
      ∃ m fields, levels = m + 1 ∧ value.fields? ["name", "ty"] = some fields ∧
        fields.required "name" (readIdentifier m) = some d.name ∧
        fields.required "ty" (readTypeExpr m) = some d.type := by
  obtain ⟨name, type⟩ := d
  simp [readFieldDecl, Json.record_eq_some, Option.bind_eq_some_iff]

theorem readMemberDecl_eq_some {d : MemberDecl} :
    readMemberDecl levels value = some d ↔
      ∃ m fields, levels = m + 1 ∧ value.fields? ["name", "value"] = some fields ∧
        fields.required "name" (readIdentifier m) = some d.name ∧
        fields.optional "value" int64? = some d.value := by
  obtain ⟨name, value⟩ := d
  simp [readMemberDecl, Json.record_eq_some, Option.bind_eq_some_iff]

theorem readAlias_eq_some {d : TypeDefinition} :
    readTypeContent levels "Alias" value = some d ↔
      ∃ m fields target, levels = m + 1 ∧ value.fields? ["original"] = some fields ∧
        fields.required "original" (readTypeExpr m) = some target ∧ .alias target = d := by
  simp [readTypeContent, Json.record_eq_some]

theorem readStructured_eq_some {d : TypeDefinition} :
    readTypeContent levels "Structured" value = some d ↔
      ∃ m fields declarations, levels = m + 1 ∧ value.fields? ["fields"] = some fields ∧
        fields.required "fields" (list readFieldDecl m) = some declarations ∧
        .structured declarations = d := by
  simp [readTypeContent, Json.record_eq_some]

theorem readEnum_eq_some {d : TypeDefinition} :
    readTypeContent levels "Enum" value = some d ↔
      ∃ m fields members, levels = m + 1 ∧ value.fields? ["values"] = some fields ∧
        fields.required "values" (list readMemberDecl m) = some members ∧ .enum members = d := by
  simp [readTypeContent, Json.record_eq_some]

theorem readEnumLike_eq_some {d : TypeDefinition} :
    readTypeContent levels "EnumLikeSemantic" value = some d ↔
      ∃ m fields underlying backing, levels = m + 1 ∧
        value.fields? ["underlying", "backing"] = some fields ∧
        fields.required "underlying" (readIdentifier m) = some underlying ∧
        fields.required "backing" (readTypeExpr m) = some backing ∧
        .enumLike underlying backing = d := by
  simp [readTypeContent, Json.record_eq_some, Option.bind_eq_some_iff]

theorem readTypeDecl_eq_some {d : TypeDecl} :
    readTypeDecl levels value = some d ↔
      ∃ m fields, levels = m + 1 ∧ value.fields? ["name", "kind"] = some fields ∧
        fields.required "name" (readIdentifier m) = some d.name ∧
        fields.required "kind" (readTypeDefinition m) = some d.definition := by
  obtain ⟨name, definition⟩ := d
  simp [readTypeDecl, Json.record_eq_some, Option.bind_eq_some_iff]

theorem readStateDecl_eq_some {d : StateDecl} :
    readStateDecl levels value = some d ↔
      ∃ m fields, levels = m + 1 ∧ value.fields? ["name", "kind"] = some fields ∧
        fields.required "name" (readIdentifier m) = some d.name ∧
        fields.required "kind" (Json.tag stateKinds m) = some d.kind := by
  obtain ⟨name, kind⟩ := d
  simp [readStateDecl, Json.record_eq_some, Option.bind_eq_some_iff]

theorem readTrigger_eq_some {t : Trigger} :
    readTrigger levels value = some t ↔
      ∃ m fields, levels = m + 1 ∧ value.fields? ["name", "argument_types"] = some fields ∧
        fields.required "name" (readIdentifier m) = some t.name ∧
        fields.optional "argument_types" (list readTypeExpr m) = some t.argumentTypes := by
  obtain ⟨name, argumentTypes⟩ := t
  simp [readTrigger, Json.record_eq_some, Option.bind_eq_some_iff]

theorem readShiftDecl_eq_some {d : ShiftDecl} :
    readShiftDecl levels value = some d ↔
      ∃ m fields, levels = m + 1 ∧
        value.fields? ["sources", "target", "functions", "span"] = some fields ∧
        fields.required "sources" (list readIdentifier m) = some d.sources ∧
        fields.optional "target" (readIdentifier m) = some d.target ∧
        listField m fields "functions" readTrigger = some d.functions ∧
        spanField m fields = some d.span := by
  obtain ⟨sources, target, functions, span⟩ := d
  simp [readShiftDecl, Json.record_eq_some, Option.bind_eq_some_iff]

theorem readContractDecl_eq_some {d : ContractDecl} :
    readContractDecl levels value = some d ↔
      ∃ m fields, levels = m + 1 ∧
        value.fields? ["name", "kind", "expression", "span"] = some fields ∧
        fields.optional "name" (readIdentifier m) = some d.name ∧
        fields.required "kind" (Json.tag contractKinds m) = some d.kind ∧
        fields.required "expression" (readExpr m) = some d.expression ∧
        spanField m fields = some d.span := by
  obtain ⟨name, kind, expression, span⟩ := d
  simp [readContractDecl, Json.record_eq_some, Option.bind_eq_some_iff]

theorem readNamedArgument_eq_some {a : NamedArgument} :
    readNamedArgument levels value = some a ↔
      ∃ m fields, levels = m + 1 ∧ value.fields? ["name", "value"] = some fields ∧
        fields.required "name" (readIdentifier m) = some a.name ∧
        fields.required "value" (readExpr m) = some a.value := by
  obtain ⟨name, value⟩ := a
  simp [readNamedArgument, Json.record_eq_some, Option.bind_eq_some_iff]

theorem readConstructorCall_eq_some {c : ConstructorCall} :
    readConstructorCall levels value = some c ↔
      ∃ m fields, levels = m + 1 ∧
        value.fields? ["automaton", "arguments", "span"] = some fields ∧
        fields.required "automaton" (readIdentifier m) = some c.automaton ∧
        listField m fields "arguments" readNamedArgument = some c.arguments ∧
        spanField m fields = some c.span := by
  obtain ⟨automaton, arguments, span⟩ := c
  simp [readConstructorCall, Json.record_eq_some, Option.bind_eq_some_iff]

theorem readAssignment_eq_some {s : Statement} :
    readAssignment levels value = some s ↔
      ∃ m fields target initial constructor span, levels = m + 1 ∧
        value.fields? ["target", "value", "constructor", "span"] = some fields ∧
        fields.required "target" (readChain m) = some target ∧
        fields.optional "value" (readExpr m) = some initial ∧
        fields.optional "constructor" (readConstructorCall m) = some constructor ∧
        spanField m fields = some span ∧ .assignment target initial constructor span = s := by
  simp [readAssignment, Json.record_eq_some, Option.bind_eq_some_iff]

theorem readAction_eq_some {s : Statement} :
    readAction levels value = some s ↔
      ∃ m fields name arguments span, levels = m + 1 ∧
        value.fields? ["name", "arguments", "span"] = some fields ∧
        fields.required "name" (readIdentifier m) = some name ∧
        listField m fields "arguments" readExpr = some arguments ∧
        spanField m fields = some span ∧ .action name arguments span = s := by
  simp [readAction, Json.record_eq_some, Option.bind_eq_some_iff]

theorem readFunctionDecl_eq_some {d : FunctionDecl} :
    readFunctionDecl levels value = some d ↔
      ∃ m fields, levels = m + 1 ∧
        value.fields? ["kind", "automaton", "name", "parameters", "return_type", "annotations",
          "contracts", "body", "span"] = some fields ∧
        fields.required "kind" (Json.tag operationKinds m) = some d.kind ∧
        fields.optional "automaton" (readIdentifier m) = some d.automaton ∧
        fields.optional "name" (readIdentifier m) = some d.name ∧
        listField m fields "parameters" readParameter = some d.parameters ∧
        fields.optional "return_type" (readTypeExpr m) = some d.returnType ∧
        listField m fields "annotations" readAnnotationUse = some d.annotations ∧
        listField m fields "contracts" readContractDecl = some d.contracts ∧
        fields.optional "body" (list readStatement m) = some d.body ∧
        spanField m fields = some d.span := by
  obtain ⟨kind, automaton, name, parameters, returnType, annotations, contracts, body, span⟩ := d
  simp [readFunctionDecl, Json.record_eq_some, Option.bind_eq_some_iff]

theorem readAutomatonDecl_eq_some {d : AutomatonDecl} :
    readAutomatonDecl levels value = some d ↔
      ∃ m fields, levels = m + 1 ∧
        value.fields? ["name", "ty", "constructor_variables", "states", "variables", "shifts",
          "functions", "span"] = some fields ∧
        fields.required "name" (readIdentifier m) = some d.name ∧
        fields.required "ty" (readTypeExpr m) = some d.type ∧
        listField m fields "constructor_variables" readVariableDecl =
          some d.constructorVariables ∧
        listField m fields "states" readStateDecl = some d.states ∧
        listField m fields "variables" readVariableDecl = some d.instanceVariables ∧
        listField m fields "shifts" readShiftDecl = some d.shifts ∧
        listField m fields "functions" readFunctionDecl = some d.functions ∧
        spanField m fields = some d.span := by
  obtain ⟨name, type, constructorVariables, states, instanceVariables, shifts, functions, span⟩ := d
  simp [readAutomatonDecl, Json.record_eq_some, Option.bind_eq_some_iff]

theorem readLibrary_eq_some {l : Library} :
    readLibrary levels value = some l ↔
      ∃ m fields, levels = m + 1 ∧
        value.fields? ["name", "lsl_version", "library_version", "language", "url", "imports",
          "includes", "declarations"] = some fields ∧
        fields.required "name" (readIdentifier m) = some l.name ∧
        fields.optional "lsl_version" string? = some l.lslVersion ∧
        fields.optional "library_version" string? = some l.libraryVersion ∧
        fields.optional "language" string? = some l.language ∧
        fields.optional "url" string? = some l.url ∧
        listField m fields "imports" (fun _ => string?) = some l.imports ∧
        listField m fields "includes" (fun _ => string?) = some l.includes ∧
        listField m fields "declarations" readDeclaration = some l.declarations := by
  obtain ⟨name, lslVersion, libraryVersion, language, url, imports, includes, declarations⟩ := l
  simp [readLibrary, Json.record_eq_some, Option.bind_eq_some_iff]

end SyntaxTree

end LibraryContract
