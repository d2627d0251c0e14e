import LibraryContract.Proofs.Traversal
import LibraryContract.Proofs.Variables

/-!
# When the returned value can be read

What an operation returns exists only afterwards, so a contract that speaks of the state before has
no business with it. The head of a chain is looked up with that in mind; the argument of a getter is
looked up without.

* `leavesResult_iff`: a contract that is no `ensures` leaves the returned value alone unless a getter
  has its name for an argument;
* `requires_reads_result`: and there it can be read.
-/

namespace LibraryContract

open SyntaxTree

/-- The name that a location looks up in its scope: its first name, or the argument of its getter. -/
def Access.scopeName? (a : Access) : Option String :=
  match a.head with
  | .name name _ _ => some name
  | .index _ _ => none
  | .getter _ argument _ => some argument

/-- The argument of the getter that a location starts with. -/
def Access.getterArgument? (a : Access) : Option String :=
  match a.head with
  | .getter _ argument _ => some argument
  | .name _ _ _ | .index _ _ => none

/-- The location looks up a name that stands for what the operation `id` returns. -/
def Access.ReadsResult (t : SymbolTable) (scope : Scope) (id : OperationId) (a : Access) : Prop :=
  ∃ name ∈ a.scopeName?, (scope.lookup? t name).map Prod.fst = some (.result id)

instance (t : SymbolTable) (scope : Scope) (id : OperationId) (a : Access) :
    Decidable (a.ReadsResult t scope id) :=
  inferInstanceAs (Decidable (∃ name ∈ a.scopeName?,
    (scope.lookup? t name).map Prod.fst = some (.result id)))

/-- No location in the contract, at any depth, reads what the operation returns. -/
def Contract.LeavesResult (t : SymbolTable) (o : Operation) (c : Contract) : Prop :=
  ∀ a ∈ c.expression.accesses, ¬a.ReadsResult t ((o.bodyScope t).inContract c.kind) o.id

instance (t : SymbolTable) (o : Operation) (c : Contract) : Decidable (c.LeavesResult t o) :=
  inferInstanceAs (Decidable (∀ a ∈ c.expression.accesses,
    ¬a.ReadsResult t ((o.bodyScope t).inContract c.kind) o.id))

/-- The contract is no `ensures`, and so its locations do not start with the name of the returned
value when that name is free to stand for it. -/
def Contract.Guarded (o : Operation) (c : Contract) : Prop :=
  c.kind ≠ .ensures → o.argument? resultName = none → o.returnType.isSome = true →
    ∀ a ∈ c.expression.accesses, a.scopeName? = some resultName →
      a.getterArgument? = some resultName

variable {t u : SymbolTable}

/-- A contract that is elaborated is guarded: the head of each chain is looked up as a variable
that may be read. -/
theorem SyntaxTree.ContractDecl.elaborate_guarded (ht : t.Housed) {scope : Scope} {o : Operation}
    (hs : scope.operation = some o.id) (ho : t.operation? o.id = some o) (hr : o.HoldsResult)
    {d : ContractDecl} {c : Contract} (h : (d.elaborate scope).Yields t c) : c.Guarded o := by
  obtain ⟨expression, hexpression, rfl⟩ := ContractDecl.yields_elaborate h
  intro hkind harg hreturn a ha hname
  obtain ⟨type, htype⟩ := Option.isSome_iff_exists.mp hreturn
  obtain ⟨⟨segments, span⟩, hchain⟩ := Expr.accesses_elaborate hexpression a ha
  cases Chain.resolves_of_resolve hchain with
  | getter _ _ _ => exact hname
  | automatonVariable _ _ _ => exact hname
  | @named name home type' _ _ hhead _ =>
    obtain ⟨hlookup, hallowed⟩ := Identifier.yields_resolveVariable.mp hhead
    have hresult : (scope.inContract d.kind).lookup? t name.name = some (.result o.id, type) :=
      (ht.lookup?_result_iff hs ho hr).mpr ⟨Option.some.inj hname, harg, htype⟩
    rw [hlookup] at hresult
    cases hresult
    have hbad := hallowed rfl
    simp [Scope.allowsResult, Scope.inContract, hkind] at hbad

theorem Operation.Elaborated.guarded {id : OperationId} {o p : Operation} (ht : t.Housed)
    (ho : t.operation? id = some o) (hid : o.id = id) (hr : o.HoldsResult)
    (h : o.Elaborated t id p) (hc : ∀ c ∈ o.contracts, c.Guarded o) :
    ∀ c ∈ p.contracts, c.Guarded p := by
  subst hid
  cases h with
  | same => exact hc
  | localVariable _ _ _ _ _ _ _ => exact hc
  | statement _ _ _ _ => exact hc
  | contract hs h =>
    intro c hmem
    rcases List.mem_append.mp hmem with hmem | hmem
    · exact hc c hmem
    · rw [List.mem_singleton.mp hmem]
      exact ContractDecl.elaborate_guarded ht hs ho hr h

/-- Every contract of an analysed library is guarded. -/
theorem Run.analyze_guarded (options : Options) (library : SyntaxTree.Library) :
    (analyze options library).table.Operations fun o => ∀ c ∈ o.contracts, c.Guarded o := by
  have hkeep : ∀ t u, Elaborates t u →
      (t.WellFormed ∧ t.Housed ∧ t.Operations Operation.HoldsResult ∧
        t.Operations fun o => ∀ c ∈ o.contracts, c.Guarded o) →
      u.WellFormed ∧ u.Housed ∧ u.Operations Operation.HoldsResult ∧
        u.Operations fun o => ∀ c ∈ o.contracts, c.Guarded o := by
    rintro t u h ⟨hw, ht, hr, hg⟩
    refine ⟨h.wellFormed hw, h.housed ht, fun id p hp => ?_, fun id p hp => ?_⟩
    · obtain ⟨o, ho, hchange⟩ := h.operation? hp
      exact hchange.holdsResult (hw.operation_id id o ho) (hr id o ho)
    · obtain ⟨o, ho, hchange⟩ := h.operation? hp
      exact hchange.guarded ht ho (hw.operation_id id o ho) (hr id o ho) (hg id o ho)
  refine (keeps_of_reflTransGen (analyze_elaborates options library) hkeep ⟨?_, ?_, ?_, ?_⟩).2.2.2
  · exact withSignatures_wellFormed options library
  · exact withSignatures_housed options library
  · exact fun id o ho => (withSignatures_unelaborated options library id o ho).holdsResult
  · intro id o ho c hc
    rw [(withSignatures_unelaborated options library id o ho).contracts] at hc
    cases hc

theorem Access.readsResult_iff (ht : t.Housed) {scope : Scope} {o : Operation}
    (hs : scope.operation = some o.id) (ho : t.operation? o.id = some o) (hr : o.HoldsResult)
    (a : Access) :
    a.ReadsResult t scope o.id ↔
      a.scopeName? = some resultName ∧ o.argument? resultName = none ∧ o.returnType.isSome = true := by
  constructor
  · rintro ⟨name, hname, hlookup⟩
    obtain ⟨⟨home, type⟩, hfound, rfl⟩ := Option.map_eq_some_iff.mp hlookup
    obtain ⟨rfl, harg, hreturn⟩ := (ht.lookup?_result_iff hs ho hr).mp hfound
    exact ⟨hname, harg, by rw [hreturn]; rfl⟩
  · rintro ⟨hname, harg, hreturn⟩
    obtain ⟨type, htype⟩ := Option.isSome_iff_exists.mp hreturn
    refine ⟨resultName, hname, ?_⟩
    rw [(ht.lookup?_result_iff hs ho hr).mpr ⟨rfl, harg, htype⟩]
    rfl

theorem Access.scopeName?_of_getterArgument? {a : Access} {name : String}
    (h : a.getterArgument? = some name) : a.scopeName? = some name := by
  unfold getterArgument? at h
  unfold scopeName?
  cases hhead : a.head <;> rw [hhead] at h <;> first | exact h | cases h

/-- A contract that is no `ensures` leaves the returned value alone exactly when no getter in it has
the name of that value for its argument, unless the name stands for something else. -/
theorem leavesResult_iff {s : Session} {library : SyntaxTree.Library} {l : Library}
    (h : (s.analyze library).1 = .ok l) {o : Operation} (ho : o ∈ l.table.operations) {c : Contract}
    (hc : c ∈ o.contracts) (hk : c.kind ≠ .ensures) :
    c.LeavesResult l.table o ↔
      ((∃ a ∈ c.expression.accesses, a.getterArgument? = some resultName) →
        o.returnType = none ∨ (o.argument? resultName).isSome = true) := by
  obtain ⟨-, rfl⟩ := Session.analyze_eq_ok.mp h
  have ht := Run.analyze_housed s.options library
  obtain ⟨i, hi⟩ := List.getElem?_of_mem ho
  have hid : o.id = ⟨i⟩ := (Run.analyze_wellFormed s.options library).operation_id ⟨i⟩ o hi
  have hget : (Run.analyze s.options library).table.operation? o.id = some o := hid ▸ hi
  have hr := Run.analyze_holdsResult s.options library ⟨i⟩ o hi
  have hguarded := Run.analyze_guarded s.options library ⟨i⟩ o hi c hc hk
  have hreads := fun a => Access.readsResult_iff ht
    (show ((o.bodyScope (Run.analyze s.options library).table).inContract c.kind).operation =
      some o.id from rfl) hget hr a
  constructor
  · rintro hleaves ⟨a, ha, hgetter⟩
    by_contra hfree
    rw [not_or, Bool.not_eq_true, Option.isSome_eq_false_iff, Option.isNone_iff_eq_none] at hfree
    refine hleaves a ha ((hreads a).mpr ⟨Access.scopeName?_of_getterArgument? hgetter, hfree.2, ?_⟩)
    exact Option.isSome_iff_ne_none.mpr hfree.1
  · intro hgetters a ha hread
    obtain ⟨hname, harg, hreturn⟩ := (hreads a).mp hread
    rcases hgetters ⟨a, ha, hguarded harg hreturn a ha hname⟩ with hnone | hsome
    · rw [hnone] at hreturn
      cases hreturn
    · rw [harg] at hsome
      cases hsome

/-! ## A getter in front of the result -/

namespace ReturnValue

/-- The operation `open` of the automaton `Door` returns a number and requires
`Door(result).count`. -/
def doorLibrary : SyntaxTree.Library :=
  .ofDeclarations "Door"
    [.typeDecl ⟨.onLine "Int" 2, .simple⟩,
      .automatonDecl {
        name := .onLine "Door" 3
        type := .onLine "Int" 3
        constructorVariables := []
        states := []
        instanceVariables := [⟨.onLine "count" 4, .onLine "Int" 4, none⟩]
        shifts := []
        functions :=
          [{  kind := .function
              automaton := none
              name := some (.onLine "open" 5)
              parameters := []
              returnType := some (.onLine "Int" 5)
              annotations := []
              contracts := [⟨none, .requires,
                .access ⟨[.getter (.onLine "Door" 6) (.onLine "result" 6),
                  .name (.onLine "count" 6)], .onLine 6⟩ (.onLine 6), .onLine 6⟩]
              body := none
              span := .onLine 5 }]
        span := .onLine 3 }]

theorem doorLibrary_requires_result :
    ∃ l, ((Session.start .standard).analyze doorLibrary).1 = .ok l ∧
      ∃ o ∈ l.table.operations, ∃ c ∈ o.contracts, c.kind = .requires ∧ ¬c.LeavesResult l.table o := by
  refine ⟨_, Session.analyze_eq_ok.mpr ⟨by decide +kernel, rfl⟩, ?_⟩
  have hreads : ∃ o ∈ (Run.analyze .standard doorLibrary).table.operations, ∃ c ∈ o.contracts,
      c.kind = .requires ∧ ¬c.LeavesResult (Run.analyze .standard doorLibrary).table o := by
    decide +kernel
  exact hreads

end ReturnValue

/-- What `leavesResult_iff` asks for is there: a `requires` contract and a getter that reads the
result. -/
theorem leavesResult_iff_door :
    ∃ l, ((Session.start .standard).analyze ReturnValue.doorLibrary).1 = .ok l ∧
      ∃ o ∈ l.table.operations, ∃ c ∈ o.contracts, c.kind ≠ .ensures ∧
        (c.LeavesResult l.table o ↔
          ((∃ a ∈ c.expression.accesses, a.getterArgument? = some resultName) →
            o.returnType = none ∨ (o.argument? resultName).isSome = true)) := by
  obtain ⟨l, hl, o, ho, c, hc, hk, -⟩ := ReturnValue.doorLibrary_requires_result
  have hne : c.kind ≠ .ensures := by
    rw [hk]
    decide
  exact ⟨l, hl, o, ho, c, hc, hne, leavesResult_iff hl ho hc hne⟩

/-- Not every contract that is no `ensures` leaves the returned value alone. -/
theorem requires_reads_result :
    ¬∀ (s : Session) (library : SyntaxTree.Library) (l : Library),
      (s.analyze library).1 = .ok l → ∀ o ∈ l.table.operations, ∀ c ∈ o.contracts,
        c.kind ≠ .ensures → c.LeavesResult l.table o := by
  intro hall
  obtain ⟨l, hl, o, ho, c, hc, hk, hreads⟩ := ReturnValue.doorLibrary_requires_result
  refine hreads (hall _ _ l hl o ho c hc ?_)
  rw [hk]
  decide

end LibraryContract
