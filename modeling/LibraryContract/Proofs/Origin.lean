import LibraryContract.Proofs.ConstructorCall
import LibraryContract.Proofs.Filling

/-!
# Which expression a value comes from

A value is looked at once, in a table that is still being filled, and then it stays.
`SymbolTable.Origin` says what is left of that moment in a later table: the expression, and that each
name in it was looked up among the bindings that are visible at the place of the value. It outlives
every later change (`Origin.elaborates`), so the values of a table can be traced as they come in.

* `SymbolTable.Traced`: each initial value, contract and statement has its expression, and an
  operation has no variables of its body but those that its statements declare;
* `SymbolTable.Traced.fills`: one change keeps this;
* `Run.analyze_traced`: it holds at the end of every run.
-/

namespace LibraryContract

open SyntaxTree Build

/-! ## The expressions of a statement -/

namespace SyntaxTree

/-- The expressions of a constructor call. The keyword argument names a state and is none. -/
def ConstructorCall.expressions (c : ConstructorCall) : List Expr :=
  (c.arguments.filter fun a => decide (a.name.name ≠ stateKeyword)).map NamedArgument.value

def Statement.expressions : Statement → List Expr
  | .assignment target value call span =>
    .access target span :: (value.toList ++ (call.map ConstructorCall.expressions).getD [])
  | .action _ arguments _ => arguments
  | .variable d => d.initializer.toList

end SyntaxTree

def AssignedValue.values : AssignedValue → List Value
  | .value v => [v]
  | .constructed call => call.arguments.map ConstructorArgument.value

def Statement.values : Statement → List Value
  | .assignment target value _ => .access target :: value.values
  | .action _ arguments _ => arguments
  | .declaration v => v.initial.toList

variable {t u : SymbolTable} {values : List PendingInitializer}
  {operations : List PendingOperation}

namespace SyntaxTree

theorem ConstructorCall.resolve_values {scope : Scope} {call : ConstructorCall}
    {c : LibraryContract.ConstructorCall} (h : (call.resolve scope).Yields t c) :
    List.Forall₂ (fun (e : Expr) v => (e.elaborate scope).Yields t v) call.expressions
      (c.arguments.map ConstructorArgument.value) := by
  obtain ⟨-, -, hbinds, -⟩ := yields_resolve.mp h
  rw [expressions, List.forall₂_map_left_iff, List.forall₂_map_right_iff]
  exact hbinds.imp fun _ _ hb => hb.value

/-- The values of a statement are looked at when the type of a declared variable is known, and before
the variable is there. -/
theorem Statement.elaborate_values {scope : Scope} {id : OperationId} {d : Statement}
    {s : LibraryContract.Statement} (h : (d.elaborate scope id).Yields t s u) :
    ∃ t₁, Relation.ReflTransGen Interns t t₁ ∧ t₁.Settles u ∧
      List.Forall₂ (fun (e : Expr) v => (e.elaborate scope).Yields t₁ v) d.expressions s.values := by
  cases Statement.resolves_of_elaborate h with
  | assignment htarget hvalue =>
    exact ⟨t, .refl, .refl t, .cons (Expr.yields_access.mpr ⟨_, htarget, rfl⟩) (.cons hvalue .nil)⟩
  | construction htarget hcall =>
    refine ⟨t, .refl, .refl t, .cons (Expr.yields_access.mpr ⟨_, htarget, rfl⟩) ?_⟩
    exact ConstructorCall.resolve_values hcall
  | action harguments => exact ⟨t, .refl, .refl t, harguments⟩
  | @declaration declaration _ _ h =>
    obtain ⟨type, v, initial, htype, hinitial, rfl, hu⟩ := VariableDecl.declareLocal_yields h
    refine ⟨v, htype.reaches (declaration.type.resolve_within t), ?_, ?_⟩
    · refine .of_variablesIn (SymbolTable.registerVariable_growsTo hu) fun home hh => ?_
      obtain ⟨-, -, rfl⟩ := SymbolTable.registerVariable_eq_ok.mp hu
      exact SymbolTable.variablesIn_outside_modifyOperation v id _ hh
    · rcases hinitial with ⟨hnone, rfl⟩ | ⟨e, x, hsome, rfl, hx⟩
      · rw [Statement.expressions, hnone]
        exact .nil
      · rw [Statement.expressions, hsome]
        exact .cons hx .nil

end SyntaxTree

/-! ## Origins -/

/-- The first table comes before the second, and each name that is looked up in it stands for the
first of the bindings that the second still has at the place. -/
structure SymbolTable.Precedes (t₀ t : SymbolTable) (place : Place) : Prop where
  wellFormed : t₀.WellFormed
  housed : t₀.Housed
  settles : t₀.Settles t
  reached : t.Reached place
  lookup : ∀ name, (place.scope t₀).lookup? t₀ name = first? (t.visible place) name

/-- The value is what the expression meant when it was looked at. -/
def SymbolTable.Origin (t : SymbolTable) (place : Place) (e : Expr) (v : Value) : Prop :=
  ∃ t₀ : SymbolTable, t₀.Precedes t place ∧ (e.elaborate (place.scope t₀)).Yields t₀ v

theorem SymbolTable.Precedes.mono {t₀ : SymbolTable} {place : Place} (h : t₀.Precedes t place)
    (hu : t.Settles u) (hr : u.Reached place) (hv : u.visible place = t.visible place) :
    t₀.Precedes u place :=
  ⟨h.wellFormed, h.housed, h.settles.trans hu, hr, fun name => hv ▸ h.lookup name⟩

theorem SymbolTable.Current.precedes {place : Place} (h : t.Current place) (hw : t.WellFormed)
    (ht : t.Housed) : t.Precedes t place :=
  ⟨hw, ht, .refl t, h.reached, h.lookup?_eq_first? hw ht⟩

theorem SymbolTable.Origin.mono {place : Place} {e : Expr} {v : Value} (h : t.Origin place e v)
    (hu : t.Settles u) (hr : u.Reached place) (hv : u.visible place = t.visible place) :
    u.Origin place e v := by
  obtain ⟨t₀, hprecedes, hyields⟩ := h
  exact ⟨t₀, hprecedes.mono hu hr hv, hyields⟩

theorem SymbolTable.Origin.elaborates {place : Place} {e : Expr} {v : Value}
    (h : t.Origin place e v) (hu : Relation.ReflTransGen Elaborates t u) :
    u.Origin place e v := by
  have hsettles : t.Settles u := .of_reflTransGen hu fun _ _ => Elaborates.settles
  obtain ⟨t₀, hprecedes, hyields⟩ := h
  obtain ⟨hreached, hvisible⟩ := hprecedes.reached.visible_eq hu
  exact ⟨t₀, hprecedes.mono hsettles hreached hvisible, hyields⟩

/-! ## The variables of a body -/

namespace Operation

theorem localsBefore_length (o : Operation) : o.localsBefore o.statements.length =
    o.result?.toList ++ o.statements.filterMap Statement.declared? := by
  rw [localsBefore, List.take_length]

theorem Unelaborated.laid {o : Operation} (h : o.Unelaborated) : o.Laid := by
  have hlocals : o.locals.values = o.result?.toList ∧ ∀ v ∈ o.result?, v.initial = none := by
    cases hr : o.returnType with
    | none =>
      rw [Operation.result?, h.locals_none hr]
      exact ⟨rfl, fun v hv => by cases hv⟩
    | some type =>
      obtain ⟨v, hv, hname, -, hscope, hinitial⟩ := h.locals_some type hr
      have hresult : o.result? = some v := by
        rw [Operation.result?, hv, OrderedMap.get?_insert_self, Option.filter_some, hscope]
        rfl
      refine ⟨?_, fun w hw => ?_⟩
      · rw [hresult, hv]
        exact OrderedMap.values_insert_of_not_contains rfl v
      · rw [hresult, Option.mem_some_iff] at hw
        exact hw ▸ hinitial
  refine ⟨?_, hlocals.2⟩
  rw [hlocals.1, localsBefore_length, h.statements]
  exact (List.append_nil _).symm

theorem Laid.addStatement {id : OperationId} {s : LibraryContract.Statement} {o : Operation}
    (h : o.Laid) (hs : o.Admits id s) : (o.addStatement s).Laid := by
  have hresult : (o.addStatement s).result? = o.result? := by
    cases hd : s.declared? with
    | none =>
      rw [Operation.addStatement, hd]
      rfl
    | some v =>
      obtain ⟨hscope, hnew⟩ := hs v hd
      rw [Operation.addStatement, hd]
      exact result?_insert (by rw [hscope]; rfl) hnew
  have hlocals : (o.addStatement s).locals.values = o.locals.values ++ s.declared?.toList := by
    cases hd : s.declared? with
    | none =>
      rw [Operation.addStatement, hd]
      exact (List.append_nil _).symm
    | some v =>
      obtain ⟨-, hnew⟩ := hs v hd
      rw [Operation.addStatement, hd]
      exact OrderedMap.values_insert_of_not_contains hnew v
  refine ⟨?_, fun v hv => h.result_initial v (hresult ▸ hv)⟩
  rw [localsBefore_length, hresult, hlocals, h.locals, localsBefore_length, List.append_assoc]
  congr 1
  show _ = (o.statements ++ [s]).filterMap Statement.declared?
  rw [List.filterMap_append]
  cases hd : s.declared? <;> simp [hd]

/-- The variables of a body that start from a value are declared by its statements. -/
theorem Laid.declared {o : Operation} (h : o.Laid) {v : Variable}
    (hv : v ∈ o.locals.values) (hinitial : v.initial.isSome = true) :
    .declaration v ∈ o.statements := by
  rw [h.locals, o.localsBefore_length] at hv
  rcases List.mem_append.mp hv with hv | hv
  · rw [h.result_initial v (Option.mem_toList.mp hv)] at hinitial
    cases hinitial
  · obtain ⟨s, hs, hdeclared⟩ := List.mem_filterMap.mp hv
    cases s <;> cases hdeclared
    exact hs

end Operation

/-! ## Traces -/

/-- The contracts and statements of the operation `id` come from one of the pending operations, and
each of their values from the expression at its place. -/
structure Operation.Traced (R : Place → Expr → Value → Prop) (operations : List PendingOperation)
    (id : OperationId) (o : Operation) : Prop where
  contracts : ∀ c ∈ o.contracts, ∃ p ∈ operations, p.id = id ∧ ∃ d ∈ p.declaration.contracts,
    d.Mirrors c ∧ R (.contract id c.kind) d.expression c.expression
  statements : ∀ n s, o.statements[n]? = some s → ∃ p ∈ operations, p.id = id ∧
    ∃ d ∈ p.declaration.body.getD [], d.Mirrors id s ∧
      List.Forall₂ (R (.statement id n)) d.expressions s.values
  laid : o.Laid

/-- All values that were left for later and that are in the table come from their expressions. -/
structure SymbolTable.Traced (R : Place → Expr → Value → Prop) (values : List PendingInitializer)
    (operations : List PendingOperation) (t : SymbolTable) : Prop where
  initials : ∀ home, home.OutsideOperations → ∀ name v, (t.variablesIn home).get? name = some v →
    ∀ x ∈ v.initial, ∃ p ∈ values, p.scope = home ∧ p.name = name ∧ R home.place p.value x
  bodies : ∀ id o, t.operation? id = some o → o.Traced R operations id

variable {R R' : Place → Expr → Value → Prop}

theorem Operation.Traced.imp {id : OperationId} {o : Operation} (h : o.Traced R operations id)
    (hR : ∀ place e v, R place e v → R' place e v) : o.Traced R' operations id where
  contracts c hc := by
    obtain ⟨p, hp, hid, d, hd, hmirrors, hexpression⟩ := h.contracts c hc
    exact ⟨p, hp, hid, d, hd, hmirrors, hR _ _ _ hexpression⟩
  statements n s hs := by
    obtain ⟨p, hp, hid, d, hd, hmirrors, hvalues⟩ := h.statements n s hs
    exact ⟨p, hp, hid, d, hd, hmirrors, hvalues.imp fun _ _ => hR _ _ _⟩
  laid := h.laid

theorem Operation.Traced.addContract {id : OperationId} {o : Operation}
    (h : o.Traced R operations id) {p : PendingOperation} {d : ContractDecl} {c : Contract}
    (hp : p ∈ operations) (hid : p.id = id) (hd : d ∈ p.declaration.contracts)
    (hmirrors : d.Mirrors c) (hR : R (.contract id c.kind) d.expression c.expression) :
    Operation.Traced R operations id { o with contracts := o.contracts ++ [c] } where
  contracts c' hc' := by
    rcases List.mem_append.mp hc' with hc' | hc'
    · exact h.contracts c' hc'
    · rw [List.mem_singleton.mp hc']
      exact ⟨p, hp, hid, d, hd, hmirrors, hR⟩
  statements := h.statements
  laid := ⟨h.laid.locals, h.laid.result_initial⟩

theorem Operation.Traced.addStatement {id : OperationId} {o : Operation}
    (h : o.Traced R operations id) {p : PendingOperation} {d : SyntaxTree.Statement}
    {s : LibraryContract.Statement} (hp : p ∈ operations) (hid : p.id = id)
    (hd : d ∈ p.declaration.body.getD []) (hs : o.Admits id s) (hmirrors : d.Mirrors id s)
    (hR : List.Forall₂ (R (.statement id o.statements.length)) d.expressions s.values) :
    (o.addStatement s).Traced R operations id where
  contracts := h.contracts
  statements n s' hs' := by
    rcases getElem?_concat_eq_some.mp hs' with hold | ⟨rfl, rfl⟩
    · exact h.statements n s' hold
    · exact ⟨p, hp, hid, d, hd, hmirrors, hR⟩
  laid := h.laid.addStatement hs

/-- A contract is looked at before the first statement of its body. -/
theorem SyntaxTree.ContractDecl.elaborate_origin (hw : t.WellFormed) (ht : t.Housed)
    {id : OperationId} {o : Operation} (ho : t.operation? id = some o) (hlaid : o.Laid)
    (hfirst : o.statements = []) {d : ContractDecl} {c : Contract}
    (h : (d.elaborate (t.bodyScope id)).Yields t c) :
    d.Mirrors c ∧ t.Origin (.contract id c.kind) d.expression c.expression := by
  obtain ⟨expression, hexpression, rfl⟩ := ContractDecl.yields_elaborate h
  have hcurrent : t.Current (.contract id d.kind) := ⟨o, ho, hlaid, hfirst⟩
  exact ⟨⟨rfl, rfl, rfl⟩, t, hcurrent.precedes hw ht, hexpression⟩

/-- The values of a statement are looked at after those of the statements before it. -/
theorem SyntaxTree.Statement.elaborate_origin (hw : t.WellFormed) (ht : t.Housed)
    {id : OperationId} {o : Operation} (ho : t.operation? id = some o) (hlaid : o.Laid)
    {d : SyntaxTree.Statement} {s : LibraryContract.Statement} {v : SymbolTable}
    (h : (d.elaborate (t.bodyScope id) id).Yields t s v) (hv : v.Settles u)
    (hu : Relation.ReflTransGen Elaborates t u) :
    List.Forall₂ (u.Origin (.statement id o.statements.length)) d.expressions s.values := by
  obtain ⟨t₁, hinterns, hsettles, hvalues⟩ := Statement.elaborate_values h
  have hnames := elaborates_of_interns hinterns
  have hcurrent : t.Current (.statement id o.statements.length) := ⟨o, ho, hlaid, rfl⟩
  have hcurrent₁ : t₁.Current (.statement id o.statements.length) := by
    obtain ⟨types, rfl⟩ := Interns.types_only hinterns
    exact hcurrent
  have hw₁ : t₁.WellFormed := keeps_of_reflTransGen hnames (fun _ _ => Elaborates.wellFormed) hw
  have ht₁ : t₁.Housed := keeps_of_reflTransGen hnames (fun _ _ => Elaborates.housed) ht
  obtain ⟨hreached, hvisible⟩ := hcurrent.reached.visible_eq hu
  obtain ⟨-, hvisible₁⟩ := hcurrent.reached.visible_eq hnames
  have hprecedes : t₁.Precedes u (.statement id o.statements.length) :=
    (hcurrent₁.precedes hw₁ ht₁).mono (hsettles.trans hv) hreached (hvisible.trans hvisible₁.symm)
  refine hvalues.imp fun e x hx => ⟨t₁, hprecedes, ?_⟩
  rw [← bodyScope_of_elaborates hnames id] at hx
  exact hx

theorem Operation.Gains.traced (hw : t.WellFormed) (ht : t.Housed) {id : OperationId}
    {o p : Operation} (ho : t.operation? id = some o)
    (htraced : o.Traced t.Origin operations id)
    (h : o.Gains operations t u id p) (hu : Relation.ReflTransGen Elaborates t u) :
    p.Traced u.Origin operations id := by
  have hold : o.Traced u.Origin operations id :=
    htraced.imp fun _ _ _ hv => hv.elaborates hu
  cases h with
  | same => exact hold
  | contract hp hid hd hfirst h =>
    obtain ⟨hmirrors, horigin⟩ := ContractDecl.elaborate_origin hw ht ho htraced.laid hfirst h
    exact hold.addContract hp hid hd hmirrors (horigin.elaborates hu)
  | statement hp hid hd h hv hs =>
    have hmirrors := (Statement.elaborate_mirrors h).1
    have horigin := Statement.elaborate_origin hw ht ho htraced.laid h hv hu
    exact hold.addStatement hp hid hd hs hmirrors horigin

theorem VariableScope.current_place (home : VariableScope) (t : SymbolTable) :
    t.Current home.place := by
  cases home <;> trivial

/-- One change keeps the traces. -/
theorem SymbolTable.Traced.fills (hw : t.WellFormed) (ht : t.Housed)
    (htraced : t.Traced t.Origin values operations)
    (h : Fills values operations t u) :
    u.Traced u.Origin values operations := by
  have hu := h.elaborates
  refine ⟨fun home hh name v hv x hx => ?_, fun id p hp => ?_⟩
  · rcases h.initial? hh hv hx with ⟨w, hw', hx'⟩ | ⟨p, hp, hscope, hname, hvalue⟩
    · obtain ⟨p, hp, hscope, hname, horigin⟩ := htraced.initials home hh name w hw' x hx'
      exact ⟨p, hp, hscope, hname, horigin.elaborates hu⟩
    · have horigin : t.Origin home.place p.value x :=
        ⟨t, (home.current_place t).precedes hw ht, hvalue⟩
      exact ⟨p, hp, hscope, hname, horigin.elaborates hu⟩
  · obtain ⟨o, ho, hgains⟩ := h.operation? hp
    exact hgains.traced hw ht ho (htraced.bodies id o ho) hu

/-! ## Runs -/

/-- No variable outside of operations has a value. -/
def SymbolTable.Uninitialized (t : SymbolTable) : Prop :=
  ∀ home, home.OutsideOperations → ∀ name v, (t.variablesIn home).get? name = some v →
    v.initial = none

theorem SymbolTable.Uninitialized.of_variablesIn (ht : t.Uninitialized)
    (hu : ∀ home, home.OutsideOperations → u.variablesIn home = t.variablesIn home) :
    u.Uninitialized := by
  intro home hh name v hv
  rw [hu home hh] at hv
  exact ht home hh name v hv

/-- A variable is registered without the value that it starts from. -/
theorem Furnishes.uninitialized (h : Furnishes t u) (ht : t.Uninitialized) : u.Uninitialized := by
  cases h with
  | interns hu =>
    obtain ⟨_⟩ := hu
    exact ht.of_variablesIn fun home _ => by cases home <;> rfl
  | annotationType _ hu =>
    obtain ⟨-, rfl⟩ := SymbolTable.registerAnnotationType_eq_ok.mp hu
    exact ht.of_variablesIn fun home _ => by cases home <;> rfl
  | state =>
    refine ht.of_variablesIn fun home _ => ?_
    apply t.variablesIn_modifyAutomaton <;> exact fun _ => rfl
  | @«variable» w _ _ _ hi hu =>
    obtain ⟨-, -, rfl⟩ := SymbolTable.registerVariable_eq_ok.mp hu
    intro home hh name v hv
    rcases t.variablesIn_modifyVariables w.scope home (fun m => m.insert w.name w) with
      hsame | ⟨-, hchanged⟩
    · rw [hsame] at hv
      exact ht home hh name v hv
    · rw [hchanged, OrderedMap.get?_insert] at hv
      by_cases hname : name = w.name
      · rw [if_pos hname] at hv
        cases hv
        exact hi
      · rw [if_neg hname] at hv
        exact ht home hh name v hv

theorem Declares.uninitialized (h : Declares t u) (ht : t.Uninitialized) : u.Uninitialized := by
  cases h with
  | array => exact ht.of_variablesIn fun home _ => by cases home <;> rfl
  | type hu =>
    obtain ⟨-, rfl⟩ := SymbolTable.registerType_eq_ok.mp hu
    exact ht.of_variablesIn fun home _ => by cases home <;> rfl
  | automaton hu =>
    exact ht.of_variablesIn fun home _ => SymbolTable.variablesIn_registerAutomaton hu home
  | furnishes hu => exact hu.uninitialized ht

namespace Run

theorem withSignatures_uninitialized (options : Options) (library : SyntaxTree.Library) :
    (withSignatures options library).2.table.Uninitialized := by
  have hnames : (withAutomata library).2.table.Uninitialized := by
    refine keeps_of_reflTransGen (withAutomata_declares library) (fun _ _ => Declares.uninitialized) ?_
    intro home hh name v hv
    cases home <;> cases hv
  refine keeps_of_reflTransGen (registerSignatures_signs options _ _ _) (fun t u h ht => ?_) hnames
  exact ht.of_variablesIn fun _ => h.variablesIn_outside

/-- Every value that was left for later comes from its expression. -/
theorem analyze_traced (options : Options) (library : SyntaxTree.Library) :
    (analyze options library).table.Traced (analyze options library).table.Origin
      (valuesLeft library) (withSignatures options library).1 := by
  have hkeep : ∀ t u, Fills (valuesLeft library) (withSignatures options library).1 t u →
      t.WellFormed ∧ t.Housed ∧
        t.Traced t.Origin (valuesLeft library) (withSignatures options library).1 →
      u.WellFormed ∧ u.Housed ∧
        u.Traced u.Origin (valuesLeft library) (withSignatures options library).1 := by
    rintro t u h ⟨hw, ht, htraced⟩
    refine ⟨keeps_of_reflTransGen h.elaborates (fun _ _ => Elaborates.wellFormed) hw, ?_, ?_⟩
    · exact keeps_of_reflTransGen h.elaborates (fun _ _ => Elaborates.housed) ht
    · exact htraced.fills hw ht h
  refine (keeps_of_reflTransGen (analyze_fills options library) hkeep ⟨?_, ?_, ?_, ?_⟩).2.2
  · exact withSignatures_wellFormed options library
  · exact withSignatures_housed options library
  · intro home hh name v hv x hx
    rw [withSignatures_uninitialized options library home hh name v hv] at hx
    cases hx
  · intro id o ho
    have hun := withSignatures_unelaborated options library id o ho
    refine ⟨fun c hc => ?_, fun n s hs => ?_, hun.laid⟩
    · rw [hun.contracts] at hc
      cases hc
    · rw [hun.statements] at hs
      cases hs

end Run

end LibraryContract
