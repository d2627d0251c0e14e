import LibraryContract.Proofs.Access

/-!
# Variables of bodies

The variables of an operation come from two sides: the one for what it returns is there when the
signature is, the others are registered while the body is looked at, by the statements that declare
them. In an analysed library the two are all, in this order, and a variable of a body is named only
where it has been declared before.

* `Operation.DeclaresLocals`: what the variables of an operation are;
* `SymbolTable.HasValue`: the values of a table, each with its place;
* `locals_declared`: both for analysed libraries.
-/

namespace LibraryContract

open SyntaxTree

/-- The variables of the operation are the one for what it returns, if it returns something, and
those that its statements declare. -/
structure Operation.DeclaresLocals (o : Operation) : Prop where
  result_iff : o.result?.isSome = true ↔ o.returnType.isSome = true
  result : ∀ v ∈ o.result?, v.name = resultName ∧ v.scope = .result o.id ∧
    o.returnType = some v.type
  result_initial : ∀ v ∈ o.result?, v.initial = none
  locals : o.locals.values = o.result?.toList ++ o.statements.filterMap Statement.declared?
  declared : ∀ v ∈ o.statements.filterMap Statement.declared?, v.scope = .body o.id
  arguments : ∀ v ∈ o.locals.values, (o.argument? v.name).isSome = true → o.result? = some v

/-- A value of the table, and where it stands. The value that a variable of a body starts from is a
part of the statement that declares the variable. -/
inductive SymbolTable.HasValue (t : SymbolTable) : Place → Value → Prop
  | initial {home : VariableScope} {v : Variable} {x : Value} (hh : home.OutsideOperations)
      (hv : v ∈ (t.variablesIn home).values) (hx : v.initial = some x) : HasValue t home.place x
  | annotation {o : Operation} {owner : AutomatonId} {use : LibraryContract.AnnotationUse}
      {x : Value} (ho : o ∈ t.operations) (howner : t.automatonId? o.owner = some owner)
      (huse : use ∈ o.annotations) (hx : x ∈ use.arguments) : HasValue t (.automaton owner) x
  | argument {o : Operation} {owner : AutomatonId} {a : Argument}
      {use : LibraryContract.AnnotationUse} {x : Value} (ho : o ∈ t.operations)
      (howner : t.automatonId? o.owner = some owner) (ha : a ∈ o.arguments)
      (huse : use ∈ a.annotations) (hx : x ∈ use.arguments) : HasValue t (.automaton owner) x
  | contract {o : Operation} {c : Contract} (ho : o ∈ t.operations) (hc : c ∈ o.contracts) :
      HasValue t (.contract o.id c.kind) c.expression
  | statement {o : Operation} {n : Nat} {s : LibraryContract.Statement} {x : Value}
      (ho : o ∈ t.operations) (hs : o.statements[n]? = some s) (hx : x ∈ s.values) :
      HasValue t (.statement o.id n) x

/-- The variable that a link stands for, with its name. -/
def Link.variable? : Link → Option (VariableScope × String)
  | .name word _ home => home.map fun home => (home, word)
  | .index _ _ | .getter _ _ _ => none

/-- The variables that a location names itself, outside of its index expressions. -/
def Access.variables (a : Access) : List (VariableScope × String) :=
  a.links.filterMap Link.variable?

/-- At this place, the variable `name` of the body of `id` has been declared: the place is a
statement of this body, and one of the statements before it declares the variable. -/
def SymbolTable.DeclaredBefore (t : SymbolTable) (id : OperationId) (name : String)
    (place : Place) : Prop :=
  ∃ o n, t.operation? id = some o ∧ place = .statement id n ∧
    ∃ m < n, ∃ v, o.statements[m]? = some (.declaration v) ∧ v.name = name

variable {t u : SymbolTable} {place : Place}

/-! ## Arguments are not hidden -/

/-- No variable of the body has the name of an argument. -/
def Operation.LeavesArguments (o : Operation) : Prop :=
  ∀ name v, o.locals.get? name = some v → v.scope = .body o.id → o.argument? name = none

theorem Operation.Unelaborated.leavesArguments {o : Operation} (h : o.Unelaborated) :
    o.LeavesArguments := by
  intro name v hv hscope
  cases hr : o.returnType with
  | none =>
    rw [h.locals_none hr] at hv
    cases hv
  | some type =>
    obtain ⟨w, hw, -, -, hresult, -⟩ := h.locals_some type hr
    rw [hw, OrderedMap.get?_insert] at hv
    split at hv
    · cases hv
      rw [hresult] at hscope
      cases hscope
    · cases hv

theorem Operation.Elaborated.leavesArguments {id : OperationId} {o p : Operation}
    (h : o.Elaborated t id p) (ho : o.LeavesArguments) : p.LeavesArguments := by
  cases h with
  | same => exact ho
  | contract _ _ => exact ho
  | statement _ _ _ _ => exact ho
  | @localVariable _ v _ _ _ harg _ _ _ =>
    intro name w hw hscope
    rw [OrderedMap.get?_insert] at hw
    split at hw
    · rename_i hname
      rw [hname]
      exact harg
    · exact ho name w hw hscope

theorem Run.analyze_leavesArguments (options : Options) (library : SyntaxTree.Library) :
    (analyze options library).table.Operations Operation.LeavesArguments := by
  refine keeps_of_reflTransGen (analyze_elaborates options library)
    (P := SymbolTable.Operations Operation.LeavesArguments) ?_ ?_
  · intro t u h ht id p hp
    obtain ⟨o, ho, hchange⟩ := h.operation? hp
    exact hchange.leavesArguments (ht id o ho)
  · exact fun id o ho => (withSignatures_unelaborated options library id o ho).leavesArguments

/-! ## The variables of one operation -/

theorem Operation.HoldsResult.result?_eq_some {o : Operation} (h : o.HoldsResult) {v : Variable}
    (hv : o.result? = some v) :
    v.name = resultName ∧ v.scope = .result o.id ∧ o.returnType = some v.type := by
  obtain ⟨hget, hresult⟩ := Option.filter_eq_some_iff.mp hv
  refine ⟨h.named _ v hget, ?_⟩
  rcases h.home _ v hget with hbody | ⟨-, hscope, hreturn⟩
  · rw [hbody] at hresult
    cases hresult
  · exact ⟨hscope, hreturn⟩

theorem Operation.HoldsResult.result?_isSome {o : Operation} (h : o.HoldsResult) :
    o.result?.isSome = true ↔ o.returnType.isSome = true := by
  constructor
  · intro hresult
    obtain ⟨v, hv⟩ := Option.isSome_iff_exists.mp hresult
    rw [(h.result?_eq_some hv).2.2]
    rfl
  · intro hreturn
    obtain ⟨type, htype⟩ := Option.isSome_iff_exists.mp hreturn
    obtain ⟨v, hv, hscope, -⟩ := h.result type htype
    rw [Operation.result?, hv, Option.filter_some, hscope]
    rfl

/-- Only the variable for what the operation returns can have the name of an argument. -/
theorem Operation.LeavesArguments.result? {o : Operation} (h : o.LeavesArguments)
    (hr : o.HoldsResult) {v : Variable} (hv : v ∈ o.locals.values)
    (harg : (o.argument? v.name).isSome = true) : o.result? = some v := by
  obtain ⟨name, hget⟩ := OrderedMap.mem_values.mp hv
  obtain rfl := hr.named name v hget
  rcases hr.home _ v hget with hbody | ⟨hname, hscope, -⟩
  · rw [h _ v hget hbody] at harg
    cases harg
  · rw [hname] at hget
    rw [Operation.result?, hget, Option.filter_some, hscope]
    rfl

/-- A statement declares variables of the body that it stands in. -/
theorem Operation.Sourced.declared {R : Place → Expr → Value → Prop} {owner : AutomatonId}
    {items : List Placed} {last : FunctionDecl} {o : Operation} (h : o.Sourced R owner items last)
    {v : Variable} (hv : v ∈ o.statements.filterMap Statement.declared?) :
    v.scope = .body o.id := by
  obtain ⟨s, hs, hdeclared⟩ := List.mem_filterMap.mp hv
  obtain ⟨n, hn⟩ := List.getElem?_of_mem hs
  obtain ⟨d, -, hmirrors, -⟩ := h.statements n s hn
  cases hmirrors with
  | declaration hd =>
    cases hdeclared
    exact hd.scope
  | _ => cases hdeclared

/-! ## Where variables of bodies can be named -/

theorem SymbolTable.Sourced.origin {R : Place → Expr → Value → Prop}
    {library : SyntaxTree.Library} {entries : List LedgerEntry} (h : t.Sourced R library entries)
    {x : Value} (hx : t.HasValue place x) : ∃ e, R place e x := by
  cases hx with
  | initial hh hv hx =>
    obtain ⟨-, e, -, -, -, hR⟩ := h.initials _ hh _ hv _ hx
    exact ⟨e, hR⟩
  | annotation ho howner huse hx =>
    obtain ⟨owner', last, howner', -, hsourced⟩ := h.operations _ ho
    rw [howner] at howner'
    cases howner'
    obtain ⟨d, -, hd⟩ := forall₂_exists_left hsourced.annotations huse
    obtain ⟨e, -, hR⟩ := forall₂_exists_left hd.arguments hx
    exact ⟨e, hR⟩
  | argument ho howner ha huse hx =>
    obtain ⟨owner', last, howner', -, hsourced⟩ := h.operations _ ho
    rw [howner] at howner'
    cases howner'
    obtain ⟨p, -, hp⟩ := forall₂_exists_left hsourced.arguments ha
    obtain ⟨d, -, hd⟩ := forall₂_exists_left hp.annotations huse
    obtain ⟨e, -, hR⟩ := forall₂_exists_left hd.arguments hx
    exact ⟨e, hR⟩
  | contract ho hc =>
    obtain ⟨owner, last, -, -, hsourced⟩ := h.operations _ ho
    obtain ⟨d, -, -, hR⟩ := hsourced.contracts _ hc
    exact ⟨d.expression, hR⟩
  | statement ho hs hx =>
    obtain ⟨owner, last, -, -, hsourced⟩ := h.operations _ ho
    obtain ⟨d, -, -, hvalues⟩ := hsourced.statements _ _ hs
    obtain ⟨e, -, hR⟩ := forall₂_exists_left hvalues hx
    exact ⟨e, hR⟩

theorem first?_eq_some {bindings : List Binding} {name type : String} {home : VariableScope}
    (h : first? bindings name = some (home, type)) :
    ∃ b ∈ bindings, b.name = name ∧ b.home = home := by
  obtain ⟨b, hb, heq⟩ := Option.map_eq_some_iff.mp h
  have hname := List.find?_some hb
  cases heq
  exact ⟨b, List.mem_of_find?_eq_some hb, of_decide_eq_true hname, rfl⟩

namespace SymbolTable

/-- Outside of operations there are no variables of bodies. -/
theorem Housed.home_ne_body (h : t.Housed) (home : VariableScope) (hh : home.OutsideOperations)
    {b : Binding} (hb : b ∈ t.bindingsIn home) (id : OperationId) : b.home ≠ .body id := by
  obtain ⟨v, hv, rfl⟩ := List.mem_map.mp hb
  obtain ⟨name, hget⟩ := OrderedMap.mem_values.mp hv
  intro hbody
  have hcollection := (h home name v hget).2
  rw [show v.scope = .body id from hbody] at hcollection
  cases home <;> first | exact hh.elim | cases hcollection

theorem Housed.home_ne_body_of_automaton (h : t.Housed) {owner : AutomatonId} {b : Binding}
    (hb : b ∈ t.bindingsOf owner) (id : OperationId) : b.home ≠ .body id := by
  rcases List.mem_append.mp hb with hb | hb
  · exact h.home_ne_body (.automaton owner) trivial hb id
  · exact h.home_ne_body (.constructorParameter owner) trivial hb id

/-- Inside an operation, the variables of bodies are those that have been declared so far. -/
theorem Housed.declared_of_inside (h : t.Housed) {o : Operation} (hr : o.HoldsResult)
    (hd : ∀ v ∈ o.statements.filterMap Statement.declared?, v.scope = .body o.id) {n : Nat}
    {b : Binding} (hb : b ∈ t.bindingsInside o n) {id : OperationId} (hbody : b.home = .body id) :
    id = o.id ∧ ∃ m < n, ∃ v, o.statements[m]? = some (.declaration v) ∧ v.name = b.name := by
  rcases List.mem_append.mp hb with hb | hb
  · rcases List.mem_append.mp hb with hb | hb
    · obtain ⟨a, -, rfl⟩ := List.mem_map.mp hb
      cases hbody
    · obtain ⟨v, hv, rfl⟩ := List.mem_map.mp hb
      have hbody : v.scope = .body id := hbody
      rcases List.mem_append.mp hv with hv | hv
      · rw [(hr.result?_eq_some (Option.mem_toList.mp hv)).2.1] at hbody
        cases hbody
      · obtain ⟨s, hs, hdeclared⟩ := List.mem_filterMap.mp hv
        have hscope := hd v (List.mem_filterMap.mpr ⟨s, List.mem_of_mem_take hs, hdeclared⟩)
        rw [hscope] at hbody
        cases hbody
        obtain ⟨m, hm⟩ := List.getElem?_of_mem hs
        rw [List.getElem?_take, Option.ite_none_right_eq_some] at hm
        obtain ⟨hmn, hm⟩ := hm
        cases s with
        | declaration w =>
          cases hdeclared
          exact ⟨rfl, m, hmn, v, hm, rfl⟩
        | _ => cases hdeclared
  · rcases List.mem_append.mp hb with hb | hb
    · obtain ⟨owner, -, hb⟩ := List.mem_flatMap.mp hb
      exact (h.home_ne_body_of_automaton hb id hbody).elim
    · exact (h.home_ne_body .global trivial hb id hbody).elim

/-- A variable of a body can be named at a place only when it has been declared there. -/
theorem Housed.declaredBefore (h : t.Housed) (hw : t.WellFormed)
    (hr : t.Operations Operation.HoldsResult)
    (hd : t.Operations fun o =>
      ∀ v ∈ o.statements.filterMap Statement.declared?, v.scope = .body o.id)
    {b : Binding} (hb : b ∈ t.visible place) {id : OperationId} (hbody : b.home = .body id) :
    t.DeclaredBefore id b.name place := by
  cases place with
  | library => exact (h.home_ne_body .global trivial hb id hbody).elim
  | automaton owner =>
    rcases List.mem_append.mp hb with hb | hb
    · exact (h.home_ne_body_of_automaton hb id hbody).elim
    · exact (h.home_ne_body .global trivial hb id hbody).elim
  | contract operation kind =>
    rw [visible] at hb
    cases ho : t.operation? operation with
    | none =>
      rw [ho] at hb
      cases hb
    | some o =>
      rw [ho] at hb
      -- nothing has been declared yet
      obtain ⟨-, m, hm, -⟩ := h.declared_of_inside (hr _ o ho) (hd _ o ho) hb hbody
      omega
  | statement operation n =>
    rw [visible] at hb
    cases ho : t.operation? operation with
    | none =>
      rw [ho] at hb
      cases hb
    | some o =>
      rw [ho] at hb
      obtain ⟨hid, hdeclared⟩ := h.declared_of_inside (hr _ o ho) (hd _ o ho) hb hbody
      have hself : o.id = operation := hw.operation_id operation o ho
      rw [hself] at hid
      subst hid
      exact ⟨o, n, ho, rfl, hdeclared⟩

end SymbolTable

theorem exists_before_of_isChain {α : Type} {R : α → α → Prop} {a : α} {l : List α}
    (h : List.IsChain R (a :: l)) {b : α} (hb : b ∈ l) : ∃ c, R c b := by
  induction l generalizing a with
  | nil => cases hb
  | cons c rest ih =>
    obtain ⟨hac, hrest⟩ := List.isChain_cons_cons.mp h
    rcases List.mem_cons.mp hb with rfl | hb
    · exact ⟨a, hac⟩
    · exact ih hrest hb

theorem Link.eq_of_variable? {link : Link} {home : VariableScope} {word : String}
    (h : link.variable? = some (home, word)) : ∃ type, link = .name word type (some home) := by
  cases link with
  | name word' type home' =>
    obtain ⟨_, rfl, heq⟩ := Option.map_eq_some_iff.mp h
    cases heq
    exact ⟨type, rfl⟩
  | index _ _ => cases h
  | getter _ _ _ => cases h

/-- Where a chain leads to a variable of a body, the variable has been declared before. -/
theorem SyntaxTree.Chain.LeadsTo.declaredBefore (hw : t.WellFormed) (ht : t.Housed)
    (hr : t.Operations Operation.HoldsResult)
    (hd : t.Operations fun o =>
      ∀ v ∈ o.statements.filterMap Statement.declared?, v.scope = .body o.id)
    {c : Chain} {a : Access} (h : c.LeadsTo t place a) {id : OperationId} {name : String}
    (hname : (.body id, name) ∈ a.variables) : t.DeclaredBefore id name place := by
  obtain ⟨link, hlink, hvariable⟩ := List.mem_filterMap.mp hname
  obtain ⟨type, rfl⟩ := Link.eq_of_variable? hvariable
  rcases List.mem_cons.mp hlink with hhead | hrest
  · have hstarts := h.head
    rw [← hhead] at hstarts
    cases hstarts with
    | named hfirst =>
      obtain ⟨b, hb, rfl, hhome⟩ := first?_eq_some hfirst
      exact ht.declaredBefore hw hr hd hb hhome
  · -- only getters have variables behind them, and those are variables of automata
    obtain ⟨before, hleads⟩ := exists_before_of_isChain h.rest hrest
    cases hleads with
    | automatonVariable hfirst =>
      obtain ⟨b, hb, -, hhome⟩ := first?_eq_some hfirst
      exact (ht.home_ne_body_of_automaton hb id hhome).elim

/-! ## Libraries -/

/-- The variables of an operation in an analysed library are the one for what it returns, exactly if
it returns something, and those that its statements declare, in order. A variable of a body is named
in statements of this body that stand behind its declaration, and nowhere else. -/
theorem locals_declared {s : Session} {library : SyntaxTree.Library} {l : Library}
    (h : (s.analyze library).1 = .ok l) :
    (∀ o ∈ l.table.operations, o.DeclaresLocals) ∧
      ∀ place x, l.table.HasValue place x → ∀ a ∈ x.accesses, ∀ id name,
        (.body id, name) ∈ a.variables → l.table.DeclaredBefore id name place := by
  obtain ⟨-, rfl⟩ := Session.analyze_eq_ok.mp h
  have hw := Run.analyze_wellFormed s.options library
  have hr := Run.analyze_holdsResult s.options library
  have hsourced := Run.analyze_leadsTo s.options library
  have hd : ∀ o ∈ (Run.analyze s.options library).table.operations,
      ∀ v ∈ o.statements.filterMap Statement.declared?, v.scope = .body o.id := by
    intro o ho v hv
    obtain ⟨owner, last, -, -, ho⟩ := hsourced.operations o ho
    exact ho.declared hv
  refine ⟨fun o ho => ?_, fun place x hx a ha id name hname => ?_⟩
  · have hself := hw.operation?_id ho
    have hresult := hr o.id o hself
    have hlaid := Run.analyze_laid s.options library o.id o hself
    exact
      { result_iff := hresult.result?_isSome
        result := fun v hv => hresult.result?_eq_some hv
        result_initial := hlaid.result_initial
        locals := hlaid.locals.trans o.localsBefore_length
        declared := hd o ho
        arguments := fun v hv harg =>
          (Run.analyze_leavesArguments s.options library o.id o hself).result? hresult hv harg }
  · obtain ⟨e, hchains⟩ := hsourced.origin hx
    obtain ⟨c, -, hc⟩ := forall₂_exists_left hchains ha
    exact hc.declaredBefore hw (Run.analyze_housed s.options library) hr
      (fun _ o ho => hd o (List.mem_of_getElem? ho)) hname

/-- There is a library with a statement that reads a variable of its body. -/
theorem locals_declared_sample :
    ∃ l, ((Session.start .standard).analyze Sample.library).1 = .ok l ∧
      ((∀ o ∈ l.table.operations, o.DeclaresLocals) ∧
        ∀ place x, l.table.HasValue place x → ∀ a ∈ x.accesses, ∀ id name,
          (.body id, name) ∈ a.variables → l.table.DeclaredBefore id name place) ∧
      ∃ o ∈ l.table.operations, o.result?.isSome = true ∧
        ∃ s ∈ o.statements, ∃ x ∈ s.values, ∃ a ∈ x.accesses, (.body o.id, "next") ∈ a.variables := by
  refine ⟨_, Sample.library_analyzes, locals_declared Sample.library_analyzes, ?_⟩
  decide +kernel

end LibraryContract
