import LibraryContract.Proofs.Pending

/-!
# What is filled in, and from where

`Elaborates` lists the changes that an analysis makes once all names are registered, but it does not
say which expression of the tree is behind a change. `Fills` lists the same changes with their
sources: a value comes from the pending initializers, a contract or a statement from the pending
operations, and each is looked at in the scope of the place where it goes.

* `Fills.elaborates`: nothing else is known to happen;
* `Fills.operation?`: what one change makes of one operation;
* `Run.analyze_fills`: every run is made of such changes.
-/

namespace LibraryContract

open SyntaxTree Build

/-- No statement of the operation has been looked at. -/
def SymbolTable.Untouched (t : SymbolTable) (id : OperationId) : Prop :=
  ∀ o, t.operation? id = some o → o.statements = []

/-- Changes while initial values, shifts, contracts and bodies are looked at, with their sources. -/
inductive Fills (values : List PendingInitializer) (operations : List PendingOperation)
    (t : SymbolTable) : SymbolTable → Prop
  | connects {u : SymbolTable} (h : Connects t u) : Fills values operations t u
  | initial {p : PendingInitializer} {value : Value} (hp : p ∈ values)
      (hh : p.scope.OutsideOperations)
      (h : (p.value.elaborate (p.scope.place.scope t)).Yields t value) :
      Fills values operations t (t.setInitial p.scope p.name value)
  | contract {p : PendingOperation} {d : ContractDecl} {c : Contract} (hp : p ∈ operations)
      (hd : d ∈ p.declaration.contracts) (hfirst : t.Untouched p.id)
      (h : (d.elaborate (t.bodyScope p.id)).Yields t c) :
      Fills values operations t
        (t.modifyOperation p.id fun o => { o with contracts := o.contracts ++ [c] })
  | statement {p : PendingOperation} {d : SyntaxTree.Statement} {s : LibraryContract.Statement}
      {u : SymbolTable} (hp : p ∈ operations) (hd : d ∈ p.declaration.body.getD [])
      (h : (d.elaborate (t.bodyScope p.id) p.id).Yields t s u) :
      Fills values operations t
        (u.modifyOperation p.id fun o => { o with statements := o.statements ++ [s] })

variable {t u : SymbolTable} {values values' : List PendingInitializer}
  {operations operations' : List PendingOperation}

theorem Fills.mono (h : Fills values operations t u) (hv : ∀ p ∈ values, p ∈ values')
    (ho : ∀ p ∈ operations, p ∈ operations') : Fills values' operations' t u := by
  cases h with
  | connects h => exact .connects h
  | initial hp hh h => exact .initial (hv _ hp) hh h
  | contract hp hd hfirst h => exact .contract (ho _ hp) hd hfirst h
  | statement hp hd h => exact .statement (ho _ hp) hd h

/-! ## The same changes as before -/

theorem Place.scope_outside (home : VariableScope) (t : SymbolTable) :
    (home.place.scope t).operation = none ∧ (home.place.scope t).contract = none := by
  cases home <;> exact ⟨rfl, rfl⟩

theorem Fills.elaborates (h : Fills values operations t u) :
    Relation.ReflTransGen Elaborates t u := by
  cases h with
  | connects h => exact .single h.elaborates
  | @initial p _ _ hh h =>
    obtain ⟨hs, hc⟩ := Place.scope_outside p.scope t
    exact .single (.initial p.name hs hc hh h)
  | contract _ _ _ h => exact .single (.contract rfl h)
  | @statement _ d _ _ _ _ h =>
    have hwithin := h.reaches (d.elaborate_within rfl rfl t)
    exact hwithin.tail (.statement rfl rfl h (Statement.elaborate_stays h))

theorem elaborates_of_fills (h : Relation.ReflTransGen (Fills values operations) t u) :
    Relation.ReflTransGen Elaborates t u := by
  induction h with
  | refl => exact .refl
  | tail _ hstep ih => exact ih.trans hstep.elaborates

/-- The scope of a body depends on what is registered only. -/
theorem Elaborates.bodyScope (h : Elaborates t u) (id : OperationId) :
    u.bodyScope id = t.bodyScope id := by
  cases hp : u.operation? id with
  | none =>
    have ho : t.operation? id = none := by
      cases ho : t.operation? id with
      | none => rfl
      | some o =>
        obtain ⟨p, hp', -⟩ := h.growsTo.operation? ho
        rw [hp] at hp'
        cases hp'
    rw [SymbolTable.bodyScope, SymbolTable.bodyScope, hp, ho]
    rfl
  | some p =>
    obtain ⟨o, ho, -, hsignature⟩ := h.signature hp
    rw [SymbolTable.bodyScope, SymbolTable.bodyScope, hp, ho, h.automatonId?]
    simp only [Option.bind_some, hsignature]

theorem bodyScope_of_elaborates (h : Relation.ReflTransGen Elaborates t u) (id : OperationId) :
    u.bodyScope id = t.bodyScope id := by
  induction h with
  | refl => rfl
  | tail _ hstep ih => exact (hstep.bodyScope id).trans ih

theorem elaborates_of_interns (h : Relation.ReflTransGen Interns t u) :
    Relation.ReflTransGen Elaborates t u :=
  Relation.ReflTransGen.mono (fun _ _ => Interns.elaborates) _ _ h

/-! ## What becomes of one operation -/

/-- The operation with a statement more, and with the variable that the statement declares. -/
def Operation.addStatement (s : LibraryContract.Statement) (o : Operation) : Operation :=
  { o with
    statements := o.statements ++ [s]
    locals := s.declared?.elim o.locals fun v => o.locals.insert v.name v }

/-- A declared variable is a new one of the body. -/
def Operation.Admits (id : OperationId) (s : LibraryContract.Statement) (o : Operation) : Prop :=
  ∀ v ∈ s.declared?, v.scope = .body id ∧ o.locals.contains v.name = false

/-- What a change from the table `t` to the table `u` makes of the operation `o`. -/
inductive Operation.Gains (operations : List PendingOperation) (t u : SymbolTable)
    (id : OperationId) (o : Operation) : Operation → Prop
  | same : Gains operations t u id o o
  | contract {p : PendingOperation} {d : ContractDecl} {c : Contract} (hp : p ∈ operations)
      (hid : p.id = id) (hd : d ∈ p.declaration.contracts) (hfirst : o.statements = [])
      (h : (d.elaborate (t.bodyScope id)).Yields t c) :
      Gains operations t u id o { o with contracts := o.contracts ++ [c] }
  | statement {p : PendingOperation} {d : SyntaxTree.Statement} {s : LibraryContract.Statement}
      {v : SymbolTable} (hp : p ∈ operations) (hid : p.id = id)
      (hd : d ∈ p.declaration.body.getD []) (h : (d.elaborate (t.bodyScope id) id).Yields t s v)
      (hv : v.Settles u) (hs : o.Admits id s) : Gains operations t u id o (o.addStatement s)

/-- A statement leaves the table alone, unless it declares a new variable of the body. -/
theorem SyntaxTree.Statement.elaborate_cases {scope : Scope} {id : OperationId}
    {d : SyntaxTree.Statement} {s : LibraryContract.Statement}
    (h : (d.elaborate scope id).Yields t s u) :
    s.declared? = none ∧ u = t ∨
      ∃ v types, s.declared? = some v ∧ v.scope = .body id ∧
        (t.variablesIn (.body id)).contains v.name = false ∧
        u = (t.setTypes types).modifyVariables (.body id) fun m => m.insert v.name v := by
  cases Statement.resolves_of_elaborate h with
  | assignment | construction | action => exact Or.inl ⟨rfl, rfl⟩
  | @declaration declaration _ _ h =>
    obtain ⟨type, v, initial, htype, -, rfl, hu⟩ := VariableDecl.declareLocal_yields h
    obtain ⟨-, types, rfl⟩ := Interns.setTypes (htype.reaches (declaration.type.resolve_within t))
    obtain ⟨-, hnew, rfl⟩ := SymbolTable.registerVariable_eq_ok.mp hu
    rw [SymbolTable.variablesIn_setTypes] at hnew
    exact Or.inr ⟨_, types, rfl, rfl, hnew, rfl⟩

/-- What the declaration of a variable makes of each operation. -/
theorem SyntaxTree.Statement.elaborate_operation? {scope : Scope} {id : OperationId}
    {d : SyntaxTree.Statement} {s : LibraryContract.Statement}
    (h : (d.elaborate scope id).Yields t s u) {j : OperationId} {p : Operation}
    (hp : u.operation? j = some p) :
    ∃ o, t.operation? j = some o ∧ (j ≠ id → p = o) ∧
      (j = id → o.Admits id s ∧
        p = { o with locals := s.declared?.elim o.locals fun v => o.locals.insert v.name v }) := by
  rcases Statement.elaborate_cases h with ⟨hnone, rfl⟩ | ⟨v, types, hv, hscope, hnew, rfl⟩
  · refine ⟨p, hp, fun _ => rfl, fun _ => ⟨?_, ?_⟩⟩
    · intro v hv
      rw [hnone] at hv
      cases hv
    · rw [hnone]
      rfl
  · rw [SymbolTable.modifyVariables, SymbolTable.operation?_modifyOperation] at hp
    by_cases hj : j = id
    · subst hj
      rw [if_pos rfl] at hp
      obtain ⟨o, ho, rfl⟩ := Option.map_eq_some_iff.mp hp
      have ho : t.operation? j = some o := ho
      refine ⟨o, ho, fun hne => absurd rfl hne, fun _ => ⟨?_, ?_⟩⟩
      · intro w hw
        rw [hv, Option.mem_some_iff] at hw
        subst hw
        simp only [SymbolTable.variablesIn, ho, Option.map_some, Option.getD_some] at hnew
        exact ⟨hscope, hnew⟩
      · rw [hv]
        rfl
    · rw [if_neg hj] at hp
      exact ⟨p, hp, fun _ => rfl, fun h => absurd h hj⟩

theorem Fills.operation? (h : Fills values operations t u) {id : OperationId} {p : Operation}
    (hp : u.operation? id = some p) :
    ∃ o, t.operation? id = some o ∧ o.Gains operations t u id p := by
  cases h with
  | connects h =>
    rcases h with ⟨⟨_⟩⟩ | _
    · exact ⟨p, hp, .same⟩
    · exact ⟨p, hp, .same⟩
  | initial _ hh =>
    rw [SymbolTable.operation?, SymbolTable.setInitial, t.operations_modifyVariables hh] at hp
    exact ⟨p, hp, .same⟩
  | @contract q d c hq hd hfirst h =>
    rw [SymbolTable.operation?_modifyOperation] at hp
    by_cases hid : id = q.id
    · rw [if_pos hid] at hp
      obtain ⟨o, ho, rfl⟩ := Option.map_eq_some_iff.mp hp
      subst hid
      exact ⟨o, ho, .contract hq rfl hd (hfirst o ho) h⟩
    · rw [if_neg hid] at hp
      exact ⟨p, hp, .same⟩
  | @statement q d s v hq hd h =>
    rw [SymbolTable.operation?_modifyOperation] at hp
    by_cases hid : id = q.id
    · rw [if_pos hid] at hp
      obtain ⟨p', hp', rfl⟩ := Option.map_eq_some_iff.mp hp
      obtain ⟨o, ho, -, hself⟩ := Statement.elaborate_operation? h hp'
      obtain ⟨hs, rfl⟩ := hself hid
      have hsettles := (Elaborates.statement rfl rfl h (Statement.elaborate_stays h)).settles
      subst hid
      exact ⟨o, ho, .statement hq rfl hd h hsettles hs⟩
    · rw [if_neg hid] at hp
      obtain ⟨o, ho, hother, -⟩ := Statement.elaborate_operation? h hp
      obtain rfl := hother hid
      exact ⟨_, ho, .same⟩

/-- A value that a variable starts from was there before, or comes from a pending initializer. -/
theorem Fills.initial? (h : Fills values operations t u) {home : VariableScope}
    (hh : home.OutsideOperations) {name : String} {v : Variable}
    (hv : (u.variablesIn home).get? name = some v) {x : Value} (hx : v.initial = some x) :
    (∃ w, (t.variablesIn home).get? name = some w ∧ w.initial = some x) ∨
      ∃ p ∈ values, p.scope = home ∧ p.name = name ∧
        (p.value.elaborate (home.place.scope t)).Yields t x := by
  have hsame : u.variablesIn home = t.variablesIn home →
      ∃ w, (t.variablesIn home).get? name = some w ∧ w.initial = some x := by
    intro heq
    rw [heq] at hv
    exact ⟨v, hv, hx⟩
  cases h with
  | connects h =>
    rcases h with ⟨⟨_⟩⟩ | @⟨id, s, -⟩
    · exact Or.inl (hsame (by cases home <;> rfl))
    · exact Or.inl (hsame (t.variablesIn_addShifts id [s] home))
  | @initial p value hp hp' h =>
    rw [SymbolTable.get?_setInitial t hh hp'] at hv
    by_cases hself : p.scope = home ∧ name = p.name
    · rw [if_pos hself] at hv
      obtain ⟨w, -, rfl⟩ := Option.map_eq_some_iff.mp hv
      cases hx
      obtain ⟨rfl, rfl⟩ := hself
      exact Or.inr ⟨p, hp, rfl, rfl, h⟩
    · rw [if_neg hself] at hv
      exact Or.inl ⟨v, hv, hx⟩
  | contract => exact Or.inl (hsame (t.variablesIn_outside_modifyOperation _ _ hh))
  | @statement q d s w _ _ h =>
    refine Or.inl (hsame ((w.variablesIn_outside_modifyOperation _ _ hh).trans ?_))
    rcases Statement.elaborate_cases h with ⟨-, rfl⟩ | ⟨v, types, -, -, -, rfl⟩
    · rfl
    · refine ((t.setTypes types).variablesIn_outside_modifyOperation _ _ hh).trans ?_
      exact t.variablesIn_setTypes types home

/-- An operation that is not looked at stays as it is. -/
theorem operation?_of_fills (h : Relation.ReflTransGen (Fills values operations) t u)
    {id : OperationId} (hid : ∀ p ∈ operations, p.id ≠ id) : u.operation? id = t.operation? id := by
  induction h with
  | refl => rfl
  | @tail v w _ hstep ih =>
    have hback : ∀ o, w.operation? id = some o → v.operation? id = some o := by
      intro o ho
      obtain ⟨p, hp, hgains⟩ := hstep.operation? ho
      cases hgains with
      | same => exact hp
      | contract hq hself _ _ _ => exact absurd hself (hid _ hq)
      | statement hq hself _ _ _ _ => exact absurd hself (hid _ hq)
    refine (Option.ext fun o => ⟨hback o, fun ho => ?_⟩).trans ih
    have hgrows : v.GrowsTo w := .of_reflTransGen hstep.elaborates fun _ _ => Elaborates.growsTo
    obtain ⟨p, hp, -⟩ := hgrows.operation? ho
    rw [hp, ← hback p hp, ho]

theorem SymbolTable.Untouched.fills {id : OperationId} (ht : t.Untouched id)
    (h : Relation.ReflTransGen (Fills values operations) t u) (hid : ∀ p ∈ operations, p.id ≠ id) :
    u.Untouched id :=
  fun o ho => ht o (operation?_of_fills h hid ▸ ho)

/-! ## Steps -/

namespace SyntaxTree

theorem VariableDecl.declareLocal_givesUp (d : VariableDecl) (scope : Scope) (id : OperationId)
    (t : SymbolTable) : (d.declareLocal scope id).GivesUpWithin Interns t := by
  have hregister : ∀ (v : Variable) (s : LibraryContract.Statement) (t : SymbolTable),
      (Build.registerUnit (fun t => t.registerVariable v) d.name.span >>= fun _ =>
        (Pure.pure s : Build LibraryContract.Statement)).GivesUpWithin Interns t := by
    intro v s t
    refine givesUpWithin_bind_of_total (givesUpWithin_register _ _) fun _ _ e he => ?_
    cases he
  refine givesUpWithin_bind (within_liftM _) fun operation u _ => givesUpWithin_guard ?_
  refine givesUpWithin_bind (d.type.resolve_within u) fun type v _ => ?_
  refine givesUpWithin_bind (within_optionMapM (fun e t => within_liftM _) _) fun initial w _ => ?_
  exact hregister _ _ w

/-- A statement that is given up has changed nothing that matters. -/
theorem Statement.elaborate_givesUp (d : Statement) (scope : Scope) (id : OperationId)
    (t : SymbolTable) : (d.elaborate scope id).GivesUpWithin Interns t := by
  cases d with
  | assignment target value call span =>
    cases value with
    | none =>
      cases call with
      | none => exact fun e he => .refl
      | some call =>
        exact fun e he => within_bind (within_liftM _) fun _ u _ =>
          within_bind (within_liftM _) fun _ v _ => within_pure _
    | some value =>
      cases call with
      | none =>
        exact fun e he => within_bind (within_liftM _) fun _ u _ =>
          within_bind (within_liftM _) fun _ v _ => within_pure _
      | some call => exact fun e he => .refl
  | action name arguments span =>
    exact fun e he => within_bind (within_mapM (fun e _ t => within_liftM _) t)
      fun _ u _ => within_pure _
  | «variable» declaration => exact declaration.declareLocal_givesUp scope id t

end SyntaxTree

theorem PendingInitializer.elaborate_fills {p : PendingInitializer} (hp : p ∈ values)
    (hh : p.scope.OutsideOperations) {scope : Scope}
    (hs : ∀ t : SymbolTable, p.scope.place.scope t = scope) (t : SymbolTable) :
    (p.elaborate scope).Within (Fills values operations) t := by
  refine within_bind (within_liftM _) fun value u hu => ?_
  obtain ⟨hvalue, rfl⟩ := yields_liftM.mp hu
  rw [← hs t] at hvalue
  exact within_modify (.initial hp hh hvalue)

namespace PendingOperation

variable {p : PendingOperation}

theorem elaborateContracts_fills (hp : p ∈ operations) {ds : List ContractDecl}
    (hds : ∀ d ∈ ds, d ∈ p.declaration.contracts) (hfirst : t.Untouched p.id) {scope : Scope}
    (hs : t.bodyScope p.id = scope) :
    (FunctionDecl.elaborateContracts scope p.id ds).Within (Fills values operations) t := by
  induction ds generalizing t with
  | nil => exact within_pure _
  | cons d rest ih =>
    have hrest := fun c (hc : c ∈ rest) => hds c (List.mem_cons_of_mem d hc)
    rw [FunctionDecl.elaborateContracts]
    refine within_bind (within_attempt (within_ofCheck _)) fun contract u hu => ?_
    cases contract with
    | none =>
      obtain ⟨-, rfl⟩ := yields_attempt_none.mp hu
      exact ih hrest hfirst hs
    | some c =>
      obtain ⟨hd, rfl⟩ := yields_ofCheck.mp (yields_attempt_some.mp hu)
      rw [← hs] at hd
      have hstep : Fills values operations t
          (t.modifyOperation p.id fun o => { o with contracts := o.contracts ++ [c] }) :=
        .contract hp (hds d List.mem_cons_self) hfirst hd
      refine within_bind (within_modify hstep) fun _ v hv => ?_
      obtain rfl := yields_modify.mp hv
      refine ih hrest ?_ ((bodyScope_of_elaborates hstep.elaborates p.id).trans hs)
      -- a contract more is no statement more
      intro o ho
      rw [SymbolTable.operation?_modifyOperation, if_pos rfl, Option.map_eq_some_iff] at ho
      obtain ⟨q, hq, rfl⟩ := ho
      exact hfirst q hq

theorem elaborateBody_fills (hp : p ∈ operations) {ds : List SyntaxTree.Statement}
    (hds : ∀ d ∈ ds, d ∈ p.declaration.body.getD []) {scope : Scope}
    (hs : t.bodyScope p.id = scope) :
    (FunctionDecl.elaborateBody scope p.id ds).Within (Fills values operations) t := by
  induction ds generalizing t with
  | nil => exact within_pure _
  | cons d rest ih =>
    have hrest := fun c (hc : c ∈ rest) => hds c (List.mem_cons_of_mem d hc)
    have hgivesUp := d.elaborate_givesUp scope p.id t
    rw [FunctionDecl.elaborateBody]
    refine within_attempt_bind (fun e he => ?_) (fun s u hd => ?_) fun u hu => ?_
    · exact Relation.ReflTransGen.mono (fun _ _ h => .connects (.interns h)) _ _ (hgivesUp e he)
    · rw [← hs] at hd
      have hstep : Fills values operations t
          (u.modifyOperation p.id fun o => { o with statements := o.statements ++ [s] }) :=
        .statement hp (hds d List.mem_cons_self) hd
      have hkeep := bodyScope_of_elaborates hstep.elaborates p.id
      exact .head hstep (ih hrest (hkeep.trans hs))
    · obtain ⟨he, rfl⟩ := yields_attempt_none.mp hu
      have hkeep := bodyScope_of_elaborates (elaborates_of_interns (hgivesUp _ he)) p.id
      exact ih hrest (hkeep.trans hs)

/-- Contracts come before statements, so they are looked at when the body is still untouched. -/
theorem elaborate_fills (hp : p ∈ operations) (hfirst : t.Untouched p.id) :
    (p.declaration.elaborate p.id).Within (Fills values operations) t := by
  refine within_bind (within_liftM _) fun scope u hu => ?_
  obtain ⟨hscope, rfl⟩ := yields_liftM.mp hu
  rw [FunctionDecl.bodyScope, Check.yields_look] at hscope
  have hs : t.bodyScope p.id = scope := hscope
  have hcontracts : (FunctionDecl.elaborateContracts scope p.id p.declaration.contracts).Within
      (Fills values operations) t :=
    elaborateContracts_fills hp (fun _ hd => hd) hfirst hs
  refine within_bind hcontracts fun _ v hv => elaborateBody_fills hp (fun _ hd => hd) ?_
  have hkeep := bodyScope_of_elaborates (elaborates_of_fills (hv.reaches hcontracts)) p.id
  exact hkeep.trans hs

end PendingOperation

/-! ## Runs -/

namespace Run

variable {options : Options} {library : SyntaxTree.Library}

theorem withSignatures_recorded (options : Options) (library : SyntaxTree.Library) :
    (withSignatures options library).1 = recordOperations (ledger options library) :=
  congrArg Prod.fst (registerSignatures_eq _ _ _ _)

/-- Each operation is looked at once. -/
theorem withSignatures_nodup (options : Options) (library : SyntaxTree.Library) :
    ((withSignatures options library).1.map PendingOperation.id).Nodup := by
  have hsequential := (withSignatures_explained options library).sequential
  rw [List.nodup_iff_count_le_one]
  intro id
  have hone := filter_recordOperations hsequential id
  rw [← withSignatures_recorded] at hone
  have hcount : ((withSignatures options library).1.map PendingOperation.id).count id =
      ((withSignatures options library).1.filter fun o => decide (o.id = id)).length := by
    rw [List.count, List.countP_map, List.countP_eq_length_filter]
    rfl
  rw [hcount, hone]
  cases (declarationsOf (ledger options library) id).getLast? <;> simp

theorem elaborateAutomaton_fills {a : PendingAutomaton} (ha : ∀ p ∈ a.initializers, p ∈ values)
    (hbelongs : ∀ p ∈ a.initializers, p.Belongs library t ∧ p.scope.place = .automaton a.id)
    (r : Run) :
    Relation.ReflTransGen (Fills values operations) r.table (elaborateAutomaton r a).table := by
  refine .trans (within_performAll (fun p hp t => ?_) r) (within_performAll (fun d _ t => ?_) _)
  · obtain ⟨⟨hh, -⟩, hplace⟩ := hbelongs p hp
    refine p.elaborate_fills (ha p hp) hh (fun t => ?_) t
    rw [hplace]
    rfl
  · exact (d.elaborate_within a.id t).mono fun _ _ => .connects

theorem elaborateAutomata_fills {as : List PendingAutomaton}
    (ha : ∀ a ∈ as, ∀ p ∈ a.initializers, p ∈ values)
    (hbelongs : ∀ a ∈ as, ∀ p ∈ a.initializers,
      p.Belongs library t ∧ p.scope.place = .automaton a.id) (r : Run) :
    Relation.ReflTransGen (Fills values operations) r.table (as.foldl elaborateAutomaton r).table := by
  induction as generalizing r with
  | nil => exact .refl
  | cons a rest ih =>
    have hfirst : Relation.ReflTransGen (Fills values operations) r.table
        (elaborateAutomaton r a).table :=
      elaborateAutomaton_fills (ha a List.mem_cons_self) (hbelongs a List.mem_cons_self) r
    have hrest := ih (fun b hb => ha b (List.mem_cons_of_mem a hb))
      (fun b hb => hbelongs b (List.mem_cons_of_mem a hb)) (elaborateAutomaton r a)
    exact hfirst.trans hrest

/-- Looking at one operation leaves those after it untouched, since they have other numbers. -/
theorem elaborateOperations_fills {os : List PendingOperation} (ho : ∀ p ∈ os, p ∈ operations)
    (hnodup : (os.map PendingOperation.id).Nodup) {r : Run}
    (hfirst : ∀ p ∈ os, r.table.Untouched p.id) :
    Relation.ReflTransGen (Fills values operations) r.table
      (r.performAll (fun o => o.declaration.elaborate o.id) os).table := by
  induction os generalizing r with
  | nil => exact .refl
  | cons p rest ih =>
    obtain ⟨hother, hrest⟩ := List.nodup_cons.mp hnodup
    have hone : Relation.ReflTransGen (Fills values [p]) r.table
        (r.perform (p.declaration.elaborate p.id)).table :=
      within_settle (p.elaborate_fills (List.mem_singleton_self p) (hfirst p List.mem_cons_self))
    have hkeep : ∀ q ∈ rest, (r.perform (p.declaration.elaborate p.id)).table.Untouched q.id := by
      intro q hq
      refine (hfirst q (List.mem_cons_of_mem p hq)).fills hone fun p' hp' heq => hother ?_
      rw [← List.mem_singleton.mp hp', heq]
      exact List.mem_map_of_mem hq
    have hmono : Relation.ReflTransGen (Fills values operations) r.table
        (r.perform (p.declaration.elaborate p.id)).table := by
      refine Relation.ReflTransGen.mono (fun t u h => h.mono (fun _ hv => hv) fun q hq => ?_) _ _ hone
      rw [List.mem_singleton.mp hq]
      exact ho p List.mem_cons_self
    exact hmono.trans (ih (fun q hq => ho q (List.mem_cons_of_mem p hq)) hrest hkeep)

/-- Up to the bodies, no operation is a source. -/
theorem withShifts_fills (options : Options) (library : SyntaxTree.Library) :
    Relation.ReflTransGen (Fills (valuesLeft library) [])
      (withSignatures options library).2.table (withShifts options library).table := by
  have hglobals : Relation.ReflTransGen (Fills (valuesLeft library) [])
      (withSignatures options library).2.table (withInitials options library).table := by
    refine within_performAll (fun p hp t => ?_) _
    obtain ⟨⟨hh, -⟩, hscope⟩ := withGlobals_belongs library p hp
    refine p.elaborate_fills (List.mem_append_left _ hp) hh (fun t => ?_) t
    rw [hscope]
    rfl
  have hautomata : Relation.ReflTransGen (Fills (valuesLeft library) [])
      (withInitials options library).table (withShifts options library).table := by
    refine elaborateAutomata_fills (fun a ha p hp => ?_) (withAutomata_belongs library) _
    exact List.mem_append_right _ (List.mem_flatMap.mpr ⟨a, ha, hp⟩)
  exact hglobals.trans hautomata

/-- After the registration of the operations, every change has a source. -/
theorem analyze_fills (options : Options) (library : SyntaxTree.Library) :
    Relation.ReflTransGen (Fills (valuesLeft library) (withSignatures options library).1)
      (withSignatures options library).2.table (analyze options library).table := by
  have hshifts := withShifts_fills options library
  have hfirst : ∀ p ∈ (withSignatures options library).1,
      (withShifts options library).table.Untouched p.id := by
    intro p _
    have hstart : (withSignatures options library).2.table.Untouched p.id := fun o ho =>
      (withSignatures_unelaborated options library p.id o ho).statements
    exact hstart.fills hshifts (List.forall_mem_nil _)
  have hbodies : Relation.ReflTransGen
      (Fills (valuesLeft library) (withSignatures options library).1)
      (withShifts options library).table (analyze options library).table := by
    rw [analyze_eq]
    exact elaborateOperations_fills (fun _ hp => hp) (withSignatures_nodup options library) hfirst
  refine Relation.ReflTransGen.trans ?_ hbodies
  exact Relation.ReflTransGen.mono
    (fun _ _ h => h.mono (fun _ hp => hp) (List.forall_mem_nil _)) _ _ hshifts

end Run

end LibraryContract
