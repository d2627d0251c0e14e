import LibraryContract.Proofs.DeclaredTypes
import LibraryContract.Proofs.Lifecycle

/-!
# Closed tables

A table is closed when everything that it mentions is in it: types, automata, operations, states and
annotations. An entity that is closed stays closed while the table grows (`mono` for each kind of
entity), so a change keeps a table closed as soon as what it brings in is closed
(`SymbolTable.Closed.of_growsTo`).

The predicates follow the entities: a value is closed when every link of every location in it is, at
any depth, and so on up to the table.
-/

namespace LibraryContract

/-! ## Entities -/

/-- The owner of the variables of this scope exists. -/
def VariableScope.Closed (t : SymbolTable) : VariableScope → Prop
  | .global => True
  | .automaton id | .constructorParameter id => ∃ a, t.automaton? id = some a
  | .argument id | .body id | .result id => ∃ o, t.operation? id = some o

/-- The type that the link reaches is known, and so is the owner or the automaton that it names. -/
def Link.Closed (t : SymbolTable) : Link → Prop
  | .name _ type home => t.Knows type ∧ ∀ scope ∈ home, scope.Closed t
  | .index _ element => t.Knows element
  | .getter id _ type => (∃ a, t.automaton? id = some a) ∧ t.Knows type

/-- All links of the location are closed. -/
def Access.Closed (t : SymbolTable) (a : Access) : Prop := ∀ link ∈ a.links, link.Closed t

/-- All locations in the value are closed, at any depth. -/
def Value.Closed (t : SymbolTable) (v : Value) : Prop := ∀ a ∈ v.accesses, a.Closed t

structure Variable.Closed (t : SymbolTable) (v : Variable) : Prop where
  type : t.Knows v.type
  scope : v.scope.Closed t
  initial : ∀ x ∈ v.initial, x.Closed t

/-- The types of the parameters are known. -/
def Annotation.Closed (t : SymbolTable) (a : Annotation) : Prop :=
  ∀ p ∈ a.parameters, t.Knows p.type

/-- The annotation is registered and gets as many arguments as it has parameters. -/
structure AnnotationUse.Closed (t : SymbolTable) (use : AnnotationUse) : Prop where
  registered : ∃ a, t.annotation? use.name = some a ∧ a.parameters.length = use.arguments.length
  arguments : ∀ x ∈ use.arguments, x.Closed t

structure Argument.Closed (t : SymbolTable) (a : Argument) : Prop where
  type : t.Knows a.type
  annotations : ∀ use ∈ a.annotations, use.Closed t

/-- The automaton has the state, and each argument is bound to a constructor variable of its own. -/
structure ConstructorCall.Closed (t : SymbolTable) (c : ConstructorCall) : Prop where
  automaton : ∃ a, t.automaton? c.automaton = some a ∧ (a.state? c.state).isSome = true ∧
    ∀ x ∈ c.arguments, a.constructorVariables.contains x.name = true
  distinct : (c.arguments.map ConstructorArgument.name).Nodup
  arguments : ∀ x ∈ c.arguments, x.value.Closed t

def AssignedValue.Closed (t : SymbolTable) : AssignedValue → Prop
  | .value v => v.Closed t
  | .constructed call => call.Closed t

def Statement.Closed (t : SymbolTable) : Statement → Prop
  | .assignment target value _ => (Value.access target).Closed t ∧ value.Closed t
  | .action _ arguments _ => ∀ x ∈ arguments, x.Closed t
  | .declaration v => v.Closed t

/-- The owner and the target are automata. -/
structure Signature.Closed (t : SymbolTable) (s : Signature) : Prop where
  owner : ∃ a, t.automatonNamed? s.owner = some a
  target : ∃ a, t.automatonNamed? s.target = some a
  arguments : ∀ a ∈ s.arguments, a.Closed t
  returnType : ∀ type ∈ s.returnType, t.Knows type
  annotations : ∀ use ∈ s.annotations, use.Closed t

structure Operation.Closed (t : SymbolTable) (o : Operation) : Prop where
  signature : o.toSignature.Closed t
  contracts : ∀ c ∈ o.contracts, c.expression.Closed t
  statements : ∀ s ∈ o.statements, s.Closed t
  locals : ∀ name v, o.locals.get? name = some v → v.Closed t

/-- The shift leads between states of the automaton, and operations of the automaton cause it. -/
structure Shift.Closed (t : SymbolTable) (a : Automaton) (s : Shift) : Prop where
  source_ne_stay : s.source ≠ .stay
  target_ne_any : s.target ≠ .any
  source : ∀ n, s.source = .state n → (a.state? n).isSome = true
  target : ∀ n, s.target = .state n → (a.state? n).isSome = true
  functions_ne_nil : s.functions ≠ []
  functions : ∀ f ∈ s.functions, ∃ o, t.operation? f = some o ∧ o.owner = a.name

structure Automaton.Closed (t : SymbolTable) (a : Automaton) : Prop where
  type : t.Knows a.type
  instanceVariables : ∀ name v, a.instanceVariables.get? name = some v → v.Closed t
  constructorVariables : ∀ name v, a.constructorVariables.get? name = some v → v.Closed t
  shifts : ∀ s ∈ a.shifts, s.Closed t a

/-- Everything that the table mentions is in the table. -/
structure SymbolTable.Closed (t : SymbolTable) : Prop where
  types : ∀ name type, t.type? name = some type → type.Closed t
  annotations : ∀ name a, t.annotation? name = some a → a.Closed t
  globals : ∀ name v, t.global? name = some v → v.Closed t
  automata : ∀ id a, t.automaton? id = some a → a.Closed t
  operations : ∀ id o, t.operation? id = some o → o.Closed t

/-! ## Growing tables -/

section Growing

variable {t u : SymbolTable} (hu : t.GrowsTo u)

include hu

theorem VariableScope.Closed.mono {scope : VariableScope} (h : scope.Closed t) : scope.Closed u := by
  have hautomaton : ∀ id, (∃ a, t.automaton? id = some a) → ∃ a, u.automaton? id = some a := by
    rintro id ⟨a, ha⟩
    obtain ⟨b, hb, -⟩ := hu.automaton? ha
    exact ⟨b, hb⟩
  have hoperation : ∀ id, (∃ o, t.operation? id = some o) → ∃ o, u.operation? id = some o := by
    rintro id ⟨o, ho⟩
    obtain ⟨p, hp, -⟩ := hu.operation? ho
    exact ⟨p, hp⟩
  cases scope with
  | global => trivial
  | automaton id => exact hautomaton id h
  | constructorParameter id => exact hautomaton id h
  | argument id => exact hoperation id h
  | body id => exact hoperation id h
  | result id => exact hoperation id h

theorem Link.Closed.mono {link : Link} (h : link.Closed t) : link.Closed u := by
  cases link with
  | name name type home => exact ⟨hu.knows h.1, fun scope hs => (h.2 scope hs).mono hu⟩
  | index index element => exact hu.knows h
  | getter id argument type =>
    obtain ⟨⟨a, ha⟩, htype⟩ := h
    obtain ⟨b, hb, -⟩ := hu.automaton? ha
    exact ⟨⟨b, hb⟩, hu.knows htype⟩

theorem Access.Closed.mono {a : Access} (h : a.Closed t) : a.Closed u :=
  fun link hlink => (h link hlink).mono hu

theorem Value.Closed.mono {v : Value} (h : v.Closed t) : v.Closed u :=
  fun a ha => (h a ha).mono hu

theorem Variable.Closed.mono {v : Variable} (h : v.Closed t) : v.Closed u :=
  ⟨hu.knows h.type, h.scope.mono hu, fun x hx => (h.initial x hx).mono hu⟩

theorem Annotation.Closed.mono {a : Annotation} (h : a.Closed t) : a.Closed u :=
  fun p hp => hu.knows (h p hp)

theorem AnnotationUse.Closed.mono {use : AnnotationUse} (h : use.Closed t) : use.Closed u := by
  obtain ⟨a, ha, hlength⟩ := h.registered
  exact ⟨⟨a, hu.annotation? ha, hlength⟩, fun x hx => (h.arguments x hx).mono hu⟩

theorem Argument.Closed.mono {a : Argument} (h : a.Closed t) : a.Closed u :=
  ⟨hu.knows h.type, fun use huse => (h.annotations use huse).mono hu⟩

theorem ConstructorCall.Closed.mono {c : ConstructorCall} (h : c.Closed t) : c.Closed u := by
  obtain ⟨a, ha, hstate, htakes⟩ := h.automaton
  obtain ⟨b, hb, hab⟩ := hu.automaton? ha
  refine ⟨⟨b, hb, hab.states.contains hstate, fun x hx => ?_⟩, h.distinct, fun x hx => ?_⟩
  · exact hab.constructorVariables.contains (htakes x hx)
  · exact (h.arguments x hx).mono hu

theorem Statement.Closed.mono {s : Statement} (h : s.Closed t) : s.Closed u := by
  rcases s with ⟨target, value | call, span⟩ | ⟨name, arguments, span⟩ | v
  · exact ⟨Value.Closed.mono hu h.1, Value.Closed.mono hu h.2⟩
  · exact ⟨Value.Closed.mono hu h.1, ConstructorCall.Closed.mono hu h.2⟩
  · exact fun x hx => Value.Closed.mono hu (h x hx)
  · exact Variable.Closed.mono hu h

theorem SymbolTable.GrowsTo.named {name : String} (h : ∃ a, t.automatonNamed? name = some a) :
    ∃ a, u.automatonNamed? name = some a := by
  obtain ⟨a, ha⟩ := h
  obtain ⟨id, hid, ha⟩ := Option.bind_eq_some_iff.mp ha
  obtain ⟨b, hb, -⟩ := hu.automaton? ha
  exact ⟨b, Option.bind_eq_some_iff.mpr ⟨id, hu.automatonId? hid, hb⟩⟩

theorem Signature.Closed.mono {s : Signature} (h : s.Closed t) : s.Closed u where
  owner := hu.named h.owner
  target := hu.named h.target
  arguments a ha := (h.arguments a ha).mono hu
  returnType type htype := hu.knows (h.returnType type htype)
  annotations use huse := (h.annotations use huse).mono hu

theorem Operation.Closed.mono {o : Operation} (h : o.Closed t) : o.Closed u where
  signature := h.signature.mono hu
  contracts c hc := (h.contracts c hc).mono hu
  statements s hs := (h.statements s hs).mono hu
  locals name v hv := (h.locals name v hv).mono hu

theorem Shift.Closed.mono {a b : Automaton} {s : Shift} (h : s.Closed t a) (hab : a.GrowsTo b) :
    s.Closed u b where
  source_ne_stay := h.source_ne_stay
  target_ne_any := h.target_ne_any
  source n hn := hab.states.contains (h.source n hn)
  target n hn := hab.states.contains (h.target n hn)
  functions_ne_nil := h.functions_ne_nil
  functions f hf := by
    obtain ⟨o, ho, howner⟩ := h.functions f hf
    obtain ⟨p, hp, hop⟩ := hu.operation? ho
    exact ⟨p, hp, by rw [hop.owner, howner, hab.name]⟩

theorem Automaton.Closed.mono {a : Automaton} (h : a.Closed t) : a.Closed u where
  type := hu.knows h.type
  instanceVariables name v hv := (h.instanceVariables name v hv).mono hu
  constructorVariables name v hv := (h.constructorVariables name v hv).mono hu
  shifts s hs := (h.shifts s hs).mono hu (.refl a)

/-- A table stays closed while it grows when everything new in it is closed. -/
theorem SymbolTable.Closed.of_growsTo (h : t.Closed)
    (htypes : ∀ name type, u.type? name = some type →
      t.type? name = some type ∨ type.Closed u)
    (hannotations : ∀ name a, u.annotation? name = some a →
      t.annotation? name = some a ∨ a.Closed u)
    (hglobals : ∀ name v, u.global? name = some v →
      t.global? name = some v ∨ v.Closed u)
    (hautomata : ∀ id a, u.automaton? id = some a →
      t.automaton? id = some a ∨ a.Closed u)
    (hoperations : ∀ id o, u.operation? id = some o →
      t.operation? id = some o ∨ o.Closed u) : u.Closed where
  types name type htype := by
    rcases htypes name type htype with hold | hnew
    · exact (h.types name type hold).mono hu
    · exact hnew
  annotations name a ha := by
    rcases hannotations name a ha with hold | hnew
    · exact (h.annotations name a hold).mono hu
    · exact hnew
  globals name v hv := by
    rcases hglobals name v hv with hold | hnew
    · exact (h.globals name v hold).mono hu
    · exact hnew
  automata id a ha := by
    rcases hautomata id a ha with hold | hnew
    · exact (h.automata id a hold).mono hu
    · exact hnew
  operations id o ho := by
    rcases hoperations id o ho with hold | hnew
    · exact (h.operations id o hold).mono hu
    · exact hnew

end Growing

/-! ## Changes -/

namespace SymbolTable.Closed

variable {t u : SymbolTable}

theorem empty : SymbolTable.empty.Closed where
  types name type h := by cases h
  annotations name a h := by
    rw [SymbolTable.annotation?, SymbolTable.empty, OrderedMap.get?_insert] at h
    split at h
    · cases h
      exact List.forall_mem_nil _
    · cases h
  globals name v h := by cases h
  automata id a h := by cases h
  operations id o h := by cases h

theorem internArray (h : t.Closed) {element : String} (hk : t.Knows element) :
    (t.internArray element).Closed := by
  have hu := t.growsTo_internArray element
  refine h.of_growsTo hu (fun name type htype => ?_) (fun _ _ => Or.inl) (fun _ _ => Or.inl)
    (fun _ _ => Or.inl) fun _ _ => Or.inl
  rcases type?_internArray htype with hold | rfl
  · exact Or.inl hold
  · refine Or.inr ⟨fun name hname => ?_, by simp, ⟨_, rfl⟩⟩
    rw [List.mem_singleton.mp hname]
    exact hu.knows hk

theorem registerAnnotationType (h : t.Closed) {a : Annotation} (ha : a.Closed t)
    (hu : t.registerAnnotationType a = .ok u) : u.Closed := by
  have hgrows := registerAnnotationType_growsTo hu
  obtain ⟨-, rfl⟩ := registerAnnotationType_eq_ok.mp hu
  refine h.of_growsTo hgrows (fun _ _ => Or.inl) (fun name b hb => ?_) (fun _ _ => Or.inl)
    (fun _ _ => Or.inl) fun _ _ => Or.inl
  simp only [SymbolTable.annotation?, OrderedMap.get?_insert] at hb
  split at hb
  · cases hb
    exact Or.inr (ha.mono hgrows)
  · exact Or.inl hb

theorem modifyAutomaton (h : t.Closed) {id : AutomatonId} {f : Automaton → Automaton}
    (hu : t.GrowsTo (t.modifyAutomaton id f))
    (hf : ∀ a, t.automaton? id = some a → a.Closed (t.modifyAutomaton id f) →
      (f a).Closed (t.modifyAutomaton id f)) : (t.modifyAutomaton id f).Closed := by
  refine h.of_growsTo hu (fun _ _ => Or.inl) (fun _ _ => Or.inl) (fun _ _ => Or.inl)
    (fun j b hb => ?_) fun _ _ => Or.inl
  rw [automaton?_modifyAutomaton] at hb
  split at hb
  · rename_i hj
    obtain ⟨a, ha, rfl⟩ := Option.map_eq_some_iff.mp hb
    rw [hj] at ha
    exact Or.inr (hf a ha ((h.automata id a ha).mono hu))
  · exact Or.inl hb

theorem modifyOperation (h : t.Closed) {id : OperationId} {f : Operation → Operation}
    (hu : t.GrowsTo (t.modifyOperation id f))
    (hf : ∀ o, t.operation? id = some o → o.Closed (t.modifyOperation id f) →
      (f o).Closed (t.modifyOperation id f)) : (t.modifyOperation id f).Closed := by
  refine h.of_growsTo hu (fun _ _ => Or.inl) (fun _ _ => Or.inl) (fun _ _ => Or.inl)
    (fun _ _ => Or.inl) fun j p hp => ?_
  rw [operation?_modifyOperation] at hp
  split at hp
  · rename_i hj
    obtain ⟨o, ho, rfl⟩ := Option.map_eq_some_iff.mp hp
    rw [hj] at ho
    exact Or.inr (hf o ho ((h.operations id o ho).mono hu))
  · exact Or.inl hp

/-- Variables come in with an owner that exists, since otherwise there is no place for them. -/
theorem modifyVariables (h : t.Closed) {scope : VariableScope}
    {f : OrderedMap String Variable → OrderedMap String Variable}
    (hu : t.GrowsTo (t.modifyVariables scope f))
    (hf : ∀ name v, scope.Closed t →
      (∀ name v, (t.variablesIn scope).get? name = some v → v.Closed (t.modifyVariables scope f)) →
        (f (t.variablesIn scope)).get? name = some v → v.Closed (t.modifyVariables scope f)) :
    (t.modifyVariables scope f).Closed := by
  cases scope with
  | global =>
    refine h.of_growsTo hu (fun _ _ => Or.inl) (fun _ _ => Or.inl) (fun name v hv => ?_)
      (fun _ _ => Or.inl) fun _ _ => Or.inl
    exact Or.inr (hf name v trivial (fun n w hw => (h.globals n w hw).mono hu) hv)
  | automaton owner =>
    refine h.modifyAutomaton hu fun a ha hclosed => { hclosed with
      instanceVariables := fun name v hv => ?_
      shifts := fun s hs => { hclosed.shifts s hs with } }
    simp only [SymbolTable.variablesIn, ha, Option.map_some, Option.getD_some] at hf
    exact hf name v ⟨a, ha⟩ hclosed.instanceVariables hv
  | constructorParameter owner =>
    refine h.modifyAutomaton hu fun a ha hclosed => { hclosed with
      constructorVariables := fun name v hv => ?_
      shifts := fun s hs => { hclosed.shifts s hs with } }
    simp only [SymbolTable.variablesIn, ha, Option.map_some, Option.getD_some] at hf
    exact hf name v ⟨a, ha⟩ hclosed.constructorVariables hv
  | argument owner => exact h
  | body owner =>
    refine h.modifyOperation hu fun o ho hclosed => { hclosed with
      locals := fun name v hv => ?_ }
    simp only [SymbolTable.variablesIn, ho, Option.map_some, Option.getD_some] at hf
    exact hf name v ⟨o, ho⟩ hclosed.locals hv
  | result owner =>
    refine h.modifyOperation hu fun o ho hclosed => { hclosed with
      locals := fun name v hv => ?_ }
    simp only [SymbolTable.variablesIn, ho, Option.map_some, Option.getD_some] at hf
    exact hf name v ⟨o, ho⟩ hclosed.locals hv

theorem registerVariable (h : t.Closed) {v : Variable} (hk : t.Knows v.type)
    (hi : ∀ x ∈ v.initial, x.Closed t) (hu : t.registerVariable v = .ok u) : u.Closed := by
  have hgrows := registerVariable_growsTo hu
  obtain ⟨-, -, rfl⟩ := registerVariable_eq_ok.mp hu
  refine h.modifyVariables hgrows fun name w hscope hold hw => ?_
  rw [OrderedMap.get?_insert] at hw
  split at hw
  · cases hw
    exact Variable.Closed.mono hgrows ⟨hk, hscope, hi⟩
  · exact hold name w hw

theorem setInitial (h : t.Closed) (scope : VariableScope) (name : String) {value : Value}
    (hv : value.Closed t) : (t.setInitial scope name value).Closed := by
  have hgrows := t.setInitial_growsTo scope name value
  refine h.modifyVariables hgrows fun n w _ hold hw => ?_
  rw [OrderedMap.get?_modify] at hw
  split at hw
  · obtain ⟨v, hvar, rfl⟩ := Option.map_eq_some_iff.mp hw
    have hclosed := hold n v hvar
    refine ⟨hclosed.type, hclosed.scope, fun x hx => ?_⟩
    cases hx
    exact hv.mono hgrows
  · exact hold n w hw

theorem registerAutomaton (h : t.Closed) {name type : String} {span : Span} {id : AutomatonId}
    (hk : t.Knows type) (hu : t.registerAutomaton name type span = .ok (id, u)) : u.Closed := by
  have hgrows := registerAutomaton_growsTo hu
  obtain ⟨-, -, rfl⟩ := registerAutomaton_eq_ok.mp hu
  refine h.of_growsTo hgrows (fun _ _ => Or.inl) (fun _ _ => Or.inl) (fun _ _ => Or.inl)
    (fun j b hb => ?_) fun _ _ => Or.inl
  rcases getElem?_concat_eq_some.mp hb with hold | ⟨-, rfl⟩
  · exact Or.inl hold
  · refine Or.inr ⟨hgrows.knows hk, fun name v hv => ?_, fun name v hv => ?_, List.forall_mem_nil _⟩
    · cases hv
    · cases hv

theorem addOperation (h : t.Closed) (owner : AutomatonId) {s : Signature} (hs : s.Closed t) :
    (t.addOperation owner s).2.Closed := by
  have hgrows := t.growsTo_addOperation owner s
  refine h.of_growsTo hgrows (fun _ _ => Or.inl) (fun _ _ => Or.inl) (fun _ _ => Or.inl)
    (fun j b hb => ?_) fun j p hp => ?_
  · have hb : (t.modifyAutomaton owner fun a =>
        a.addOperation s.kind ⟨t.operations.length⟩).automaton? j = some b := hb
    rw [automaton?_modifyAutomaton] at hb
    split at hb
    · obtain ⟨a, ha, rfl⟩ := Option.map_eq_some_iff.mp hb
      have hclosed := (h.automata j a ha).mono hgrows
      refine Or.inr ?_
      cases s.kind <;> exact ⟨hclosed.type, hclosed.instanceVariables, hclosed.constructorVariables,
        fun shift hshift => { hclosed.shifts shift hshift with }⟩
    · exact Or.inl hb
  · rcases getElem?_concat_eq_some.mp hp with hold | ⟨-, rfl⟩
    · exact Or.inl hold
    · refine Or.inr ⟨hs.mono hgrows, List.forall_mem_nil _, List.forall_mem_nil _, fun name v hv => ?_⟩
      cases hv

theorem registerOperation (h : t.Closed) {s : Signature} (hs : s.Closed t) {r : Registration}
    (hu : t.registerOperation s = .ok (r, u)) : u.Closed := by
  have hgrows := registerOperation_growsTo hu
  obtain ⟨owner, -, ⟨-, -, rfl⟩ | ⟨id, declared, -, -, -, -, -, rfl⟩⟩ := registerOperation_cases hu
  · exact h.addOperation owner hs
  · refine h.modifyOperation hgrows fun o _ hclosed => { hclosed with signature := ?_ }
    have hs := hs.mono hgrows
    refine ⟨hclosed.signature.owner, ?_, hs.arguments, fun type htype => ?_, fun use huse => ?_⟩
    · show ∃ a, SymbolTable.automatonNamed? _ (if s.isRetargeted then s.target else o.target) = some a
      split
      · exact hs.target
      · exact hclosed.signature.target
    · rcases Option.or_eq_some_iff.mp htype with htype | ⟨-, htype⟩
      · exact hclosed.signature.returnType type htype
      · exact hs.returnType type htype
    · rcases List.mem_append.mp huse with huse | huse
      · exact hclosed.signature.annotations use huse
      · exact hs.annotations use huse

theorem withResult (h : t.Closed) (id : OperationId) (span : Span) :
    (t.withResult id span).Closed := by
  have hgrows := t.withResult_growsTo id span
  rcases t.withResult_cases id span with hsame | ⟨o, type, ho, hr, -, hresult⟩
  · rw [hsame]
    exact h
  · rw [hresult] at hgrows ⊢
    have hk := (h.operations id o ho).signature.returnType type hr
    refine h.modifyVariables hgrows fun name w hscope hold hw => ?_
    rw [OrderedMap.get?_insert] at hw
    split at hw
    · cases hw
      exact Variable.Closed.mono hgrows ⟨hk, hscope, by simp⟩
    · exact hold name w hw

end SymbolTable.Closed

end LibraryContract
