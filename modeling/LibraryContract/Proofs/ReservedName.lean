import LibraryContract.Proofs.Access
import LibraryContract.Proofs.ReturnValue

/-!
# Whether the name of the returned value is reserved

Where there is a returned value, its name should stand for it. A body cannot declare another variable
of that name, since the returned value is a variable of the body already. An argument can take it,
and arguments are looked up first.

* `result_reserved_iff`: the name stands for the returned value unless an argument takes it;
* `result_taken`: and an argument can.
-/

namespace LibraryContract

open SyntaxTree

def Link.home? : Link → Option VariableScope
  | .name _ _ scope => scope
  | .index _ _ | .getter _ _ _ => none

/-- The name that a location starts with. -/
def Access.startName? (a : Access) : Option String :=
  match a.head with
  | .name name _ _ => some name
  | .index _ _ | .getter _ _ _ => none

/-- The location starts with what the operation returns. -/
def Access.ReadsReturned (o : Operation) (a : Access) : Prop :=
  a.head.home? = some (.result o.id) ∧ some a.head.type = o.returnType

instance (o : Operation) (a : Access) : Decidable (a.ReadsReturned o) :=
  inferInstanceAs (Decidable (a.head.home? = some (.result o.id) ∧ some a.head.type = o.returnType))

/-- The locations of an operation in places where there is a returned value: in `ensures` contracts
and in statements. -/
def Operation.accessesAfter (o : Operation) : List Access :=
  (o.contracts.filter fun c => decide (c.kind = .ensures)).flatMap
      (fun c => c.expression.accesses) ++
    o.statements.flatMap fun s => s.values.flatMap Value.accesses

variable {t : SymbolTable} {o : Operation}

/-! ## What the name stands for -/

theorem Operation.HoldsResult.localsBefore (h : o.HoldsResult) {type : String}
    (htype : o.returnType = some type) (n : Nat) :
    first? ((o.localsBefore n).map Variable.binding) resultName = some (.result o.id, type) := by
  obtain ⟨v, hv, hscope, rfl⟩ := h.result type htype
  have hresult : o.result? = some v := by
    rw [Operation.result?, hv, Option.filter_some, hscope]
    rfl
  have hname : v.binding.name = resultName := h.named _ v hv
  rw [Operation.localsBefore, hresult, Option.toList_some, List.singleton_append, List.map_cons,
    first?_cons, if_pos hname, ← hscope]
  rfl

/-- Inside an operation, an argument takes the name before the returned value can. -/
theorem Operation.HoldsResult.first?_bindingsInside (h : o.HoldsResult) {type : String}
    (htype : o.returnType = some type) (n : Nat) :
    first? (t.bindingsInside o n) resultName = some
      ((o.argument? resultName).elim (.result o.id, type) fun a => (.argument o.id, a.type)) := by
  rw [SymbolTable.bindingsInside, Operation.bindingsBefore, first?_append, first?_append,
    first?_arguments, h.localsBefore htype]
  cases ha : o.argument? resultName with
  | none =>
    rw [show o.arguments.find? (fun a => decide (a.name = resultName)) = none from ha]
    rfl
  | some a =>
    rw [show o.arguments.find? (fun a => decide (a.name = resultName)) = some a from ha]
    rfl

theorem Link.Starts.readsReturned_iff {place : Place} {a : Access} (h : a.head.Starts t place)
    (hr : o.HoldsResult) (hreturn : o.returnType.isSome = true) {n : Nat}
    (hplace : t.visible place = t.bindingsInside o n) (hname : a.startName? = some resultName) :
    a.ReadsReturned o ↔ o.argument? resultName = none := by
  obtain ⟨head, rest⟩ := a
  obtain ⟨type, htype⟩ := Option.isSome_iff_exists.mp hreturn
  cases h with
  | getter _ _ => cases hname
  | @named name reached home hfirst =>
    obtain rfl : name = resultName := Option.some.inj hname
    rw [hplace, hr.first?_bindingsInside htype, Option.some_inj] at hfirst
    cases hargument : o.argument? resultName with
    | none =>
      rw [hargument, Option.elim_none] at hfirst
      cases hfirst
      exact iff_of_true ⟨rfl, htype.symm⟩ rfl
    | some x =>
      rw [hargument, Option.elim_some] at hfirst
      cases hfirst
      refine iff_of_false (fun hreads => ?_) nofun
      cases hreads.1

/-! ## Libraries -/

/-- A location where there is a returned value starts with a link that is visible in the body. -/
theorem Operation.Sourced.starts {owner : AutomatonId} {items : List Placed} {last : FunctionDecl}
    (h : o.Sourced
      (fun place e v => List.Forall₂ (Chain.LeadsTo t place) e.chains v.accesses) owner items last)
    (ho : t.operation? o.id = some o) {a : Access} (ha : a ∈ o.accessesAfter) :
    ∃ place n, t.visible place = t.bindingsInside o n ∧ a.head.Starts t place := by
  rcases List.mem_append.mp ha with ha | ha
  · obtain ⟨c, hc, hac⟩ := List.mem_flatMap.mp ha
    obtain ⟨d, -, -, hchains⟩ := h.contracts c (List.mem_of_mem_filter hc)
    obtain ⟨chain, -, hleads⟩ := forall₂_exists_left hchains hac
    refine ⟨_, 0, ?_, hleads.head⟩
    rw [SymbolTable.visible, ho]
    rfl
  · obtain ⟨s, hs, hsa⟩ := List.mem_flatMap.mp ha
    obtain ⟨v, hv, hva⟩ := List.mem_flatMap.mp hsa
    obtain ⟨n, hn⟩ := List.getElem?_of_mem hs
    obtain ⟨d, -, -, hvalues⟩ := h.statements n s hn
    obtain ⟨e, -, hchains⟩ := forall₂_exists_left hvalues hv
    obtain ⟨chain, -, hleads⟩ := forall₂_exists_left hchains hva
    refine ⟨_, n, ?_, hleads.head⟩
    rw [SymbolTable.visible, ho]
    rfl

/-- Where there is a returned value, its name stands for it exactly when no argument has that name. -/
theorem result_reserved_iff {s : Session} {library : SyntaxTree.Library} {l : Library}
    (h : (s.analyze library).1 = .ok l) {o : Operation} (ho : o ∈ l.table.operations)
    (hreturn : o.returnType.isSome = true) {a : Access} (ha : a ∈ o.accessesAfter)
    (hname : a.startName? = some resultName) :
    a.ReadsReturned o ↔ o.argument? resultName = none := by
  obtain ⟨-, rfl⟩ := Session.analyze_eq_ok.mp h
  have hself := (Run.analyze_wellFormed s.options library).operation?_id ho
  have hr : o.HoldsResult := Run.analyze_holdsResult s.options library o.id o hself
  obtain ⟨owner, last, -, -, hsourced⟩ :=
    (Run.analyze_leadsTo s.options library).operations o ho
  obtain ⟨place, n, hplace, hstarts⟩ := hsourced.starts hself ha
  exact hstarts.readsReturned_iff hr hreturn hplace hname

/-! ## An argument with the reserved name -/

namespace ReservedName

/-- The operation `echo` of the automaton `Door` returns a number, has an argument called `result`
and ensures `result <= 3`. -/
def doorLibrary : SyntaxTree.Library :=
  .ofDeclarations "Door"
    [.typeDecl ⟨.onLine "Int" 2, .simple⟩,
      .typeDecl ⟨.onLine "Flag" 3, .simple⟩,
      .automatonDecl {
        name := .onLine "Door" 4
        type := .onLine "Int" 4
        constructorVariables := []
        states := []
        instanceVariables := []
        shifts := []
        functions :=
          [{  kind := .function
              automaton := none
              name := some (.onLine "echo" 5)
              parameters := [⟨.onLine "result" 5, .onLine "Flag" 5, []⟩]
              returnType := some (.onLine "Int" 5)
              annotations := []
              contracts := [⟨none, .ensures,
                .binary "<=" (.access ⟨[.name (.onLine "result" 6)], .onLine 6⟩ (.onLine 6))
                  (.literal (.integer 3) (.onLine 6)) (.onLine 6), .onLine 6⟩]
              body := none
              span := .onLine 5 }]
        span := .onLine 4 }]

theorem doorLibrary_takes_result :
    ∃ l, ((Session.start .standard).analyze doorLibrary).1 = .ok l ∧
      ∃ o ∈ l.table.operations, o.returnType.isSome = true ∧ ∃ a ∈ o.accessesAfter,
        a.startName? = some resultName ∧ ¬a.ReadsReturned o := by
  refine ⟨_, Session.analyze_eq_ok.mpr ⟨by decide +kernel, rfl⟩, ?_⟩
  have htakes : ∃ o ∈ (Run.analyze .standard doorLibrary).table.operations,
      o.returnType.isSome = true ∧ ∃ a ∈ o.accessesAfter, a.startName? = some resultName ∧
        ¬a.ReadsReturned o := by
    decide +kernel
  exact htakes

end ReservedName

/-- What `result_reserved_iff` asks for is there: a postcondition with the reserved name. -/
theorem result_reserved_iff_door :
    ∃ l, ((Session.start .standard).analyze ReservedName.doorLibrary).1 = .ok l ∧
      ∃ o ∈ l.table.operations, o.returnType.isSome = true ∧ ∃ a ∈ o.accessesAfter,
        a.startName? = some resultName ∧
          (a.ReadsReturned o ↔ o.argument? resultName = none) := by
  obtain ⟨l, hl, o, ho, hreturn, a, ha, hname, -⟩ := ReservedName.doorLibrary_takes_result
  exact ⟨l, hl, o, ho, hreturn, a, ha, hname, result_reserved_iff hl ho hreturn ha hname⟩

/-- The name does not always stand for the returned value. -/
theorem result_taken :
    ¬∀ (s : Session) (library : SyntaxTree.Library) (l : Library),
      (s.analyze library).1 = .ok l → ∀ o ∈ l.table.operations, o.returnType.isSome = true →
        ∀ a ∈ o.accessesAfter, a.startName? = some resultName → a.ReadsReturned o := by
  intro hall
  obtain ⟨l, hl, o, ho, hreturn, a, ha, hname, htaken⟩ := ReservedName.doorLibrary_takes_result
  exact htaken (hall _ _ l hl o ho hreturn a ha hname)

end LibraryContract
