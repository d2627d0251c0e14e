import LibraryContract.Proofs.Arena

/-!
# The life of an operation

An operation is created by a declaration, perhaps completed by a definition, and then gains
contracts, locals and statements. `Operation.Registered` and `Operation.Elaborated` say what one
change of the table does to one operation.

* `Signs.operation?`, `Elaborates.operation?`: these are all changes of an operation;
* `withSignatures_unelaborated`: before bodies are looked at, an operation has no contract, no
  statement and no local but the variable for what it returns;
* `analyze_holdsResult`: it has that variable to the end, and no other variable claims to be it.
-/

namespace LibraryContract

open SyntaxTree

/-- What the registration `r` of the signature `s` in the table `t` makes of the operation `id`. -/
inductive Operation.Registered (t : SymbolTable) (s : Signature) (span : Span) (r : Registration)
    (id : OperationId) : Operation → Prop
  | other {o : Operation} (hid : id ≠ r.id) (ho : t.operation? id = some o) :
      Registered t s span r id o
  | new (hr : r = .new id) (hid : id.index = t.operations.length) :
      Registered t s span r id ((Operation.ofSignature id s).withResult id span)
  | completed {o : Operation} (hr : r = .completed id) (ho : t.operation? id = some o)
      (hbody : o.hasBody = false) (hbrings : s.hasBody = true) (hreturn : o.returnConflict? s = none)
      (hkind : o.kind = s.kind) (hname : o.name = s.name) (howner : o.owner = s.owner)
      (htypes : o.argumentTypes = s.argumentTypes) :
      Registered t s span r id ((o.complete s).withResult id span)

/-- What a change of the table `t` makes of the operation `o` while everything else is looked at. -/
inductive Operation.Elaborated (t : SymbolTable) (id : OperationId) (o : Operation) :
    Operation → Prop
  | same : Elaborated t id o o
  | contract {scope : Scope} {d : ContractDecl} {c : Contract} (hs : scope.operation = some id)
      (h : (d.elaborate scope).Yields t c) :
      Elaborated t id o { o with contracts := o.contracts ++ [c] }
  | localVariable {scope : Scope} {v : Variable} (hs : scope.operation = some id)
      (hc : scope.contract = none) (hv : v.scope = .body id) (ha : o.argument? v.name = none)
      (hk : t.Knows v.type) (hi : ∀ x ∈ v.initial, ∃ e : Expr, (e.elaborate scope).Yields t x)
      (hnew : o.locals.contains v.name = false) :
      Elaborated t id o { o with locals := o.locals.insert v.name v }
  | statement {scope : Scope} {d : SyntaxTree.Statement} {s : LibraryContract.Statement}
      {t₀ : SymbolTable} (hs : scope.operation = some id) (hc : scope.contract = none)
      (h : (d.elaborate scope id).Yields t₀ s t)
      (hd : (∀ v, s ≠ .declaration v) ∧ (d.elaborate scope id).Yields t s t ∨
        ∃ v, s = .declaration v ∧ o.locals.get? v.name = some v) :
      Elaborated t id o { o with statements := o.statements ++ [s] }

variable {t u : SymbolTable}

theorem Furnishes.operations (h : Furnishes t u) : u.operations = t.operations := by
  cases h with
  | interns h =>
    obtain ⟨_⟩ := h
    rfl
  | annotationType _ h =>
    obtain ⟨-, rfl⟩ := SymbolTable.registerAnnotationType_eq_ok.mp h
    rfl
  | state => rfl
  | «variable» hv _ _ h =>
    obtain ⟨-, -, rfl⟩ := SymbolTable.registerVariable_eq_ok.mp h
    exact t.operations_modifyVariables hv _

theorem Declares.operations (h : Declares t u) : u.operations = t.operations := by
  cases h with
  | array => rfl
  | type h =>
    obtain ⟨-, rfl⟩ := SymbolTable.registerType_eq_ok.mp h
    rfl
  | automaton h =>
    obtain ⟨-, -, rfl⟩ := SymbolTable.registerAutomaton_eq_ok.mp h
    rfl
  | furnishes h => exact h.operations

theorem SymbolTable.WellFormed.overload?_key (ht : t.WellFormed) {owner : AutomatonId}
    {s : Signature} (howner : t.automatonId? s.owner = some owner) {id : OperationId} {o : Operation}
    (h : t.overload? owner s = some (id, o)) : o.kind = s.kind ∧ o.owner = s.owner := by
  obtain ⟨ho, -, -, a, ha, hmem⟩ := overload?_eq_some h
  obtain ⟨b, hb, hname⟩ := (ht.automatonId?_iff s.owner owner).mp howner
  rw [ha] at hb
  cases hb
  rw [ht.listed owner a ha, List.mem_map] at hmem
  obtain ⟨p, hp, hpid⟩ := hmem
  obtain ⟨hpmem, hkey⟩ := List.mem_filter.mp hp
  obtain ⟨hpowner, hpkind⟩ := of_decide_eq_true hkey
  obtain ⟨i, hi⟩ := List.getElem?_of_mem hpmem
  have hpo : p = o := by
    have hid : p.id = ⟨i⟩ := ht.operation_id ⟨i⟩ p hi
    rw [hpid] at hid
    rw [hid, show t.operation? ⟨i⟩ = some p from hi] at ho
    exact Option.some.inj ho
  exact ⟨hpo ▸ hpkind, by rw [← hpo, hpowner, hname]⟩

theorem SymbolTable.WellFormed.registerOperation_operation? (ht : t.WellFormed) {s : Signature}
    {r : Registration} (h : t.registerOperation s = .ok (r, u)) {span : Span} {id : OperationId}
    {p : Operation} (hp : (u.withResult r.id span).operation? id = some p) :
    p.Registered t s span r id := by
  rw [SymbolTable.withResult, operation?_modifyOperation] at hp
  obtain ⟨owner, howner, ⟨-, rfl, rfl⟩ |
    ⟨found, declared, hfound, hbody, hbrings, hreturn, rfl, rfl⟩⟩ := registerOperation_cases h
  · split at hp
    · rename_i hid
      obtain ⟨o, ho, rfl⟩ := Option.map_eq_some_iff.mp hp
      rcases getElem?_concat_eq_some.mp ho with ho | ⟨hlast, rfl⟩
      · have hlt := (List.getElem?_eq_some_iff.mp ho).1
        rw [hid] at hlt
        exact (Nat.lt_irrefl _ hlt).elim
      · have hnew : Operation.ofSignature ⟨t.operations.length⟩ s = Operation.ofSignature id s := by
          rw [hid]
          rfl
        rw [hnew]
        subst hid
        exact .new rfl rfl
    · rename_i hid
      rcases getElem?_concat_eq_some.mp hp with hp | ⟨hlast, -⟩
      · exact .other hid hp
      · exact (hid (congrArg OperationId.mk hlast)).elim
  · obtain ⟨ho, hname, htypes, -⟩ := overload?_eq_some hfound
    obtain ⟨hkind, howner⟩ := ht.overload?_key howner hfound
    have hcompleted : (Registration.completed found).id = found := rfl
    rw [hcompleted, operation?_modifyOperation] at hp
    split at hp
    · rename_i hid
      subst hid
      simp only [ho, Option.map_some, Option.some.injEq] at hp
      subst hp
      exact .completed rfl ho hbody hbrings hreturn hkind hname howner htypes
    · rename_i hid
      exact .other hid hp

theorem Signs.operation? (h : Signs t u) (ht : t.WellFormed) {id : OperationId} {p : Operation}
    (hp : u.operation? id = some p) :
    t.operation? id = some p ∨ ∃ (d : FunctionDecl) (owner : AutomatonId) (s : Signature)
      (t₀ : SymbolTable) (r : Registration),
        (d.signature owner).Yields t₀ s t ∧ p.Registered t s d.span r id := by
  rcases h with _ | @⟨d, owner, s, t₀, w, r, hs, h⟩
  · exact Or.inl hp
  · exact Or.inr ⟨d, owner, s, t₀, r, hs, ht.registerOperation_operation? h hp⟩

theorem Elaborates.operation? (h : Elaborates t u) {id : OperationId} {p : Operation}
    (hp : u.operation? id = some p) : ∃ o, t.operation? id = some o ∧ o.Elaborated t id p := by
  have hother : ∀ {j : OperationId} {f : Operation → Operation},
      (t.modifyOperation j f).operation? id = some p →
        (∃ o, t.operation? id = some o ∧ id = j ∧ p = f o) ∨
          ∃ o, t.operation? id = some o ∧ o.Elaborated t id p := by
    intro j f hp
    rw [SymbolTable.operation?_modifyOperation] at hp
    split at hp
    · rename_i hj
      obtain ⟨o, ho, rfl⟩ := Option.map_eq_some_iff.mp hp
      exact Or.inl ⟨o, ho, hj, rfl⟩
    · exact Or.inr ⟨p, hp, .same⟩
  cases h with
  | array => exact ⟨p, hp, .same⟩
  | initial _ _ _ hh =>
    rw [SymbolTable.operation?, SymbolTable.setInitial, t.operations_modifyVariables hh] at hp
    exact ⟨p, hp, .same⟩
  | shift => exact ⟨p, hp, .same⟩
  | contract hs h =>
    rcases hother hp with ⟨o, ho, rfl, rfl⟩ | hsame
    · exact ⟨o, ho, .contract hs h⟩
    · exact hsame
  | localVariable hs hc hv ha hk hi h =>
    obtain ⟨-, hnew, rfl⟩ := SymbolTable.registerVariable_eq_ok.mp h
    rw [hv] at hp hnew
    rcases hother hp with ⟨o, ho, rfl, rfl⟩ | hsame
    · refine ⟨o, ho, .localVariable hs hc hv (ha o ho) hk hi ?_⟩
      simpa [SymbolTable.variablesIn, ho] using hnew
    · exact hsame
  | statement hs hc h hd =>
    rcases hother hp with ⟨o, ho, rfl, rfl⟩ | hsame
    · refine ⟨o, ho, .statement hs hc h (hd.imp_right ?_)⟩
      rintro ⟨v, rfl, hv⟩
      exact ⟨v, rfl, hv o ho⟩
    · exact hsame

/-- Once operations are registered, their signatures stay. -/
theorem Elaborates.signature (h : Elaborates t u) {id : OperationId} {p : Operation}
    (hp : u.operation? id = some p) :
    ∃ o, t.operation? id = some o ∧ p.id = o.id ∧ p.toSignature = o.toSignature := by
  obtain ⟨o, ho, hchange⟩ := h.operation? hp
  refine ⟨o, ho, ?_⟩
  cases hchange <;> exact ⟨rfl, rfl⟩

theorem signature_of_elaborates (h : Relation.ReflTransGen Elaborates t u) {id : OperationId}
    {p : Operation} (hp : u.operation? id = some p) :
    ∃ o, t.operation? id = some o ∧ p.id = o.id ∧ p.toSignature = o.toSignature := by
  induction h generalizing p with
  | refl => exact ⟨p, hp, rfl, rfl⟩
  | tail _ hstep ih =>
    obtain ⟨q, hq, hid, hsignature⟩ := hstep.signature hp
    obtain ⟨o, ho, hoid, hosignature⟩ := ih hq
    exact ⟨o, ho, hid.trans hoid, hsignature.trans hosignature⟩

/-! ## The variable for what an operation returns -/

/-- Nothing but the signature of the operation has been looked at. -/
structure Operation.Unelaborated (o : Operation) : Prop where
  contracts : o.contracts = []
  statements : o.statements = []
  locals_none : o.returnType = none → o.locals = .empty
  locals_some : ∀ type, o.returnType = some type →
    ∃ v, o.locals = OrderedMap.empty.insert resultName v ∧ v.name = resultName ∧ v.type = type ∧
      v.scope = .result o.id ∧ v.initial = none

/-- The locals are variables of the body and, under its own name, the one for what the operation
returns, if it returns something. -/
structure Operation.HoldsResult (o : Operation) : Prop where
  named : ∀ name v, o.locals.get? name = some v → v.name = name
  home : ∀ name v, o.locals.get? name = some v →
    v.scope = .body o.id ∨ name = resultName ∧ v.scope = .result o.id ∧ o.returnType = some v.type
  result : ∀ type, o.returnType = some type →
    ∃ v, o.locals.get? resultName = some v ∧ v.scope = .result o.id ∧ v.type = type

theorem Operation.unelaborated_ofSignature (id : OperationId) (s : Signature) (span : Span) :
    ((Operation.ofSignature id s).withResult id span).Unelaborated := by
  unfold withResult
  split
  · rename_i hr
    exact ⟨rfl, rfl, fun _ => rfl, fun type h => by rw [hr] at h; cases h⟩
  · rename_i type hr
    refine ⟨rfl, rfl, fun h => ?_, fun type' h => ?_⟩
    · have h : (Operation.ofSignature id s).returnType = none := h
      rw [hr] at h
      cases h
    · have h : (Operation.ofSignature id s).returnType = some type' := h
      rw [hr] at h
      cases h
      exact ⟨_, rfl, rfl, rfl, rfl, rfl⟩

theorem Operation.Unelaborated.complete {o : Operation} (h : o.Unelaborated) (s : Signature)
    (span : Span) : ((o.complete s).withResult o.id span).Unelaborated := by
  cases hd : o.returnType with
  | some type =>
    -- the variable is there already
    have hr : (o.complete s).returnType = some type := by simp [Operation.complete, hd]
    obtain ⟨v, hv, hrest⟩ := h.locals_some type hd
    have hc : (o.complete s).locals.contains resultName = true := by
      show o.locals.contains resultName = true
      rw [hv, OrderedMap.contains, OrderedMap.get?_insert_self]
      rfl
    have hsame : (o.complete s).withResult o.id span = o.complete s := by
      simp only [withResult, hr, hc, if_true]
    rw [hsame]
    refine ⟨h.contracts, h.statements, fun hn => ?_, fun type' hs => ?_⟩
    · rw [hr] at hn
      cases hn
    · rw [hr] at hs
      cases hs
      exact ⟨v, hv, hrest⟩
  | none =>
    have hl : (o.complete s).locals = .empty := h.locals_none hd
    unfold withResult
    split
    · rename_i hr
      refine ⟨h.contracts, h.statements, fun _ => hl, fun type hs => ?_⟩
      rw [hr] at hs
      cases hs
    · rename_i type hr
      rw [if_neg (by simp [hl, OrderedMap.contains])]
      refine ⟨h.contracts, h.statements, fun hn => ?_, fun type' hs => ?_⟩
      · have hn : (o.complete s).returnType = none := hn
        rw [hr] at hn
        cases hn
      · have hs : (o.complete s).returnType = some type' := hs
        rw [hr] at hs
        cases hs
        rw [hl]
        exact ⟨_, rfl, rfl, rfl, rfl, rfl⟩

theorem Operation.Registered.unelaborated {s : Signature} {span : Span} {r : Registration}
    {id : OperationId} {p : Operation} (h : p.Registered t s span r id)
    (ht : ∀ o, t.operation? id = some o → o.id = id ∧ o.Unelaborated) : p.Unelaborated := by
  cases h with
  | other _ ho => exact (ht p ho).2
  | new _ _ => exact unelaborated_ofSignature id s span
  | completed _ ho =>
    obtain ⟨hid, hun⟩ := ht _ ho
    rw [← hid]
    exact hun.complete s span

theorem Operation.Unelaborated.holdsResult {o : Operation} (h : o.Unelaborated) : o.HoldsResult := by
  cases hr : o.returnType with
  | none =>
    refine ⟨?_, ?_, fun type hs => by rw [hr] at hs; cases hs⟩
    · intro name v hv
      rw [h.locals_none hr] at hv
      cases hv
    · intro name v hv
      rw [h.locals_none hr] at hv
      cases hv
  | some type =>
    obtain ⟨w, hw, hname, htype, hscope, -⟩ := h.locals_some type hr
    have hget : ∀ name v, o.locals.get? name = some v → name = resultName ∧ v = w := by
      intro name v hv
      rw [hw, OrderedMap.get?_insert] at hv
      split at hv
      · rename_i hn
        cases hv
        exact ⟨hn, rfl⟩
      · cases hv
    refine ⟨fun name v hv => ?_, fun name v hv => ?_, fun type' hs => ?_⟩
    · obtain ⟨rfl, rfl⟩ := hget name v hv
      exact hname
    · obtain ⟨rfl, rfl⟩ := hget name v hv
      exact Or.inr ⟨rfl, hscope, by rw [htype, hr]⟩
    · rw [hr] at hs
      cases hs
      refine ⟨w, ?_, hscope, htype⟩
      rw [hw, OrderedMap.get?_insert_self]

theorem Operation.Elaborated.holdsResult {id : OperationId} {o p : Operation}
    (h : o.Elaborated t id p) (hid : o.id = id) (ho : o.HoldsResult) : p.HoldsResult := by
  cases h with
  | same => exact ho
  | contract _ _ => exact ⟨ho.named, ho.home, ho.result⟩
  | @localVariable _ v _ _ hv _ _ _ hnew =>
    have hnone : o.locals.get? v.name = none := by
      rw [OrderedMap.contains, Option.isSome_eq_false_iff, Option.isNone_iff_eq_none] at hnew
      exact hnew
    refine ⟨fun name w hw => ?_, fun name w hw => ?_, fun type hr => ?_⟩
    · simp only [OrderedMap.get?_insert] at hw
      split at hw
      · rename_i hn
        cases hw
        exact hn.symm
      · exact ho.named name w hw
    · simp only [OrderedMap.get?_insert] at hw
      split at hw
      · cases hw
        exact Or.inl (by rw [hv, hid])
      · exact ho.home name w hw
    · obtain ⟨w, hw, hrest⟩ := ho.result type hr
      refine ⟨w, ?_, hrest⟩
      simp only [OrderedMap.get?_insert]
      split
      · rename_i hn
        rw [hn, hnone] at hw
        cases hw
      · exact hw
  | statement _ _ _ _ => exact ⟨ho.named, ho.home, ho.result⟩

/-! ## Runs -/

/-- Something holds of every operation of a table. -/
def SymbolTable.Operations (P : Operation → Prop) (t : SymbolTable) : Prop :=
  ∀ id o, t.operation? id = some o → P o

namespace Run

theorem withAutomata_operations (library : SyntaxTree.Library) :
    (withAutomata library).2.table.operations = [] := by
  have hkeep : ∀ t u, Declares t u → t.operations = [] → u.operations = [] :=
    fun t u h ht => h.operations.trans ht
  exact keeps_of_reflTransGen (withAutomata_declares library) hkeep rfl

theorem withSignatures_unelaborated (options : Options) (library : SyntaxTree.Library) :
    (withSignatures options library).2.table.Operations Operation.Unelaborated := by
  have hkeep : ∀ t u, Signs t u → t.WellFormed ∧ t.Operations Operation.Unelaborated →
      u.WellFormed ∧ u.Operations Operation.Unelaborated := by
    rintro t u h ⟨hw, ht⟩
    refine ⟨h.wellFormed hw, fun id p hp => ?_⟩
    rcases h.operation? hw hp with hsame | ⟨d, owner, s, t₀, r, -, hregistered⟩
    · exact ht id p hsame
    · exact hregistered.unelaborated fun o ho => ⟨hw.operation_id id o ho, ht id o ho⟩
  refine (keeps_of_reflTransGen (registerSignatures_signs options _ _ _) hkeep ⟨?_, ?_⟩).2
  · exact withAutomata_wellFormed library
  · intro id o ho
    rw [SymbolTable.operation?, withAutomata_operations library] at ho
    cases ho

theorem analyze_holdsResult (options : Options) (library : SyntaxTree.Library) :
    (analyze options library).table.Operations Operation.HoldsResult := by
  have hkeep : ∀ t u, Elaborates t u → t.WellFormed ∧ t.Operations Operation.HoldsResult →
      u.WellFormed ∧ u.Operations Operation.HoldsResult := by
    rintro t u h ⟨hw, ht⟩
    refine ⟨h.wellFormed hw, fun id p hp => ?_⟩
    obtain ⟨o, ho, hchange⟩ := h.operation? hp
    exact hchange.holdsResult (hw.operation_id id o ho) (ht id o ho)
  refine (keeps_of_reflTransGen (analyze_elaborates options library) hkeep ⟨?_, ?_⟩).2
  · exact withSignatures_wellFormed options library
  · exact fun id o ho => (withSignatures_unelaborated options library id o ho).holdsResult

end Run

end LibraryContract
