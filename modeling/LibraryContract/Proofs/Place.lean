import LibraryContract.Proofs.Completion
import Mathlib.Data.List.Find

/-!
# What can be named where

The scope of an expression looks names up in a table that is still being filled. This file says what
the scope amounts to in terms of a table alone: each place has a list of bindings (`visible`), those
that hide others first, and a name stands for the first binding that has it.

* `SymbolTable.Current.lookup?_eq_first?`: a lookup through the scope of a place gives the first
  binding of the name;
* `SymbolTable.Settles`: from one table to the other, the variables outside of operations keep their
  names, places and types;
* `Elaborates.visible_eq`: what a place that has been reached can name does not change any more.
-/

namespace LibraryContract

open SyntaxTree

/-- A name that can be used, with the variable that it stands for. -/
structure Binding where
  name : String
  home : VariableScope
  type : String
deriving DecidableEq, Repr

/-- Where a value stands. -/
inductive Place
  /-- The value that a global variable starts from. -/
  | library
  /-- The value that a variable of an automaton starts from, or an argument of an annotation. -/
  | automaton (id : AutomatonId)
  | contract (operation : OperationId) (kind : ContractKind)
  /-- A statement of a body, with the number of statements before it. -/
  | statement (operation : OperationId) (before : Nat)
deriving DecidableEq, Repr

/-- The contract that a value stands in. -/
def Place.contract? : Place → Option ContractKind
  | .contract _ kind => some kind
  | .library | .automaton _ | .statement _ _ => none

/-- The place of the value that a variable outside of operations starts from. -/
def VariableScope.place : VariableScope → Place
  | .automaton id | .constructorParameter id => .automaton id
  | .global | .argument _ | .body _ | .result _ => .library

def Variable.binding (v : Variable) : Binding := ⟨v.name, v.scope, v.type⟩

def Argument.binding (id : OperationId) (a : Argument) : Binding := ⟨a.name, .argument id, a.type⟩

/-- The variable that a statement declares. -/
def Statement.declared? : Statement → Option Variable
  | .declaration v => some v
  | .assignment _ _ _ | .action _ _ _ => none

namespace Operation

/-- The variables of the body that are there when `n` statements have been looked at: the one for
what the operation returns, then those that the statements declare. -/
def localsBefore (o : Operation) (n : Nat) : List Variable :=
  o.result?.toList ++ (o.statements.take n).filterMap Statement.declared?

/-- What the operation itself adds to the names that can be used. -/
def bindingsBefore (o : Operation) (n : Nat) : List Binding :=
  o.arguments.map (Argument.binding o.id) ++ (o.localsBefore n).map Variable.binding

/-- The automata whose variables an operation can name: its owner, and the one it works on when that
is another. -/
def workplaces (o : Operation) : List String :=
  if o.target = o.owner then [o.owner] else [o.owner, o.target]

/-- The variables of the body are the result and those that the statements declare, in order. -/
structure Laid (o : Operation) : Prop where
  locals : o.locals.values = o.localsBefore o.statements.length
  result_initial : ∀ v ∈ o.result?, v.initial = none

end Operation

namespace SymbolTable

/-- The bindings of the variables of one collection. -/
def bindingsIn (t : SymbolTable) (home : VariableScope) : List Binding :=
  (t.variablesIn home).values.map Variable.binding

/-- The bindings of an automaton: instance variables hide constructor variables. -/
def bindingsOf (t : SymbolTable) (id : AutomatonId) : List Binding :=
  t.bindingsIn (.automaton id) ++ t.bindingsIn (.constructorParameter id)

/-- The bindings in the body of an operation when `n` statements have been looked at. -/
def bindingsInside (t : SymbolTable) (o : Operation) (n : Nat) : List Binding :=
  o.bindingsBefore n ++ ((o.workplaces.filterMap t.automatonId?).flatMap t.bindingsOf ++
    t.bindingsIn .global)

/-- The names that can be used at a place. The first binding of a name hides the others. -/
def visible (t : SymbolTable) : Place → List Binding
  | .library => t.bindingsIn .global
  | .automaton id => t.bindingsOf id ++ t.bindingsIn .global
  | .contract id _ => ((t.operation? id).map fun o => t.bindingsInside o 0).getD []
  | .statement id n => ((t.operation? id).map fun o => t.bindingsInside o n).getD []

/-- The scope of the body of an operation. -/
def bodyScope (t : SymbolTable) (id : OperationId) : Scope :=
  .inOperation ((t.operation? id).bind fun o => t.automatonId? o.owner)
    ((t.operation? id).bind fun o => t.automatonId? o.target) id

end SymbolTable

/-- The scope in which an expression at this place is looked at. -/
def Place.scope (t : SymbolTable) : Place → Scope
  | .library => .global
  | .automaton id => .inAutomaton id
  | .contract id kind => (t.bodyScope id).inContract kind
  | .statement id _ => t.bodyScope id

/-- The variable that the first binding of a name stands for, with its type. -/
def first? (bindings : List Binding) (name : String) : Option (VariableScope × String) :=
  (bindings.find? fun b => decide (b.name = name)).map fun b => (b.home, b.type)

/-! ## Lookups find the first binding -/

theorem first?_cons (b : Binding) (rest : List Binding) (name : String) :
    first? (b :: rest) name = if b.name = name then some (b.home, b.type) else first? rest name := by
  unfold first?
  rw [List.find?_cons]
  by_cases hname : b.name = name
  · simp [hname]
  · simp [hname]

theorem first?_append (front back : List Binding) (name : String) :
    first? (front ++ back) name = (first? front name).or (first? back name) := by
  unfold first?
  rw [List.find?_append]
  cases front.find? fun b => decide (b.name = name) <;> rfl

theorem first?_flatMap {α : Type} (items : List α) (f : α → List Binding) (name : String) :
    first? (items.flatMap f) name = items.findSome? fun a => first? (f a) name := by
  induction items with
  | nil => rfl
  | cons a rest ih =>
    rw [List.flatMap_cons, first?_append, ih, List.findSome?_cons]
    cases first? (f a) name <;> rfl

theorem first?_arguments (arguments : List Argument) (id : OperationId) (name : String) :
    first? (arguments.map (Argument.binding id)) name =
      (arguments.find? fun a => decide (a.name = name)).map fun a => (.argument id, a.type) := by
  unfold first?
  rw [List.find?_map, Option.map_map]
  rfl

/-- The variables of a map are found under their names. -/
theorem first?_values {m : OrderedMap String Variable}
    (hm : ∀ name v, m.get? name = some v → v.name = name) (name : String) :
    first? (m.values.map Variable.binding) name =
      (m.get? name).map fun v => (v.scope, v.type) := by
  have hkeys : m.entries.find? (fun e => decide (e.2.name = name)) =
      m.entries.find? fun e => decide (e.1 = name) := by
    refine List.find?_congr fun e he => ?_
    rw [hm e.1 e.2 (OrderedMap.get?_eq_some_iff.mpr he)]
  unfold first? OrderedMap.get? OrderedMap.values
  rw [List.map_map, List.find?_map, Option.map_map, Option.map_map, ← hkeys]
  rfl

namespace SymbolTable

variable {t u : SymbolTable}

theorem Housed.first?_bindingsIn (h : t.Housed) (home : VariableScope) (name : String) :
    first? (t.bindingsIn home) name =
      ((t.variablesIn home).get? name).map fun v => (v.scope, v.type) :=
  first?_values (fun n v hv => (h home n v hv).1) name

theorem Housed.first?_bindingsOf (h : t.Housed) (id : AutomatonId) (name : String) :
    first? (t.bindingsOf id) name =
      ((t.automaton? id).bind fun a => a.variableNamed? name).map fun v => (v.scope, v.type) := by
  rw [bindingsOf, first?_append, h.first?_bindingsIn, h.first?_bindingsIn]
  simp only [variablesIn]
  cases ha : t.automaton? id with
  | none => rfl
  | some a =>
    simp only [Option.map_some, Option.getD_some, Option.bind_some, Automaton.variableNamed?]
    cases a.instanceVariables.get? name <;> rfl

theorem Housed.first?_automata (h : t.Housed) (ids : List AutomatonId) (name : String) :
    first? (ids.flatMap t.bindingsOf ++ t.bindingsIn .global) name =
      ((ids.findSome? fun id => (t.automaton? id).bind fun a => a.variableNamed? name).or
        (t.global? name)).map fun v => (v.scope, v.type) := by
  have hautomata : (ids.findSome? fun id => first? (t.bindingsOf id) name) =
      (ids.findSome? fun id => (t.automaton? id).bind fun a => a.variableNamed? name).map
        fun v => (v.scope, v.type) := by
    rw [List.map_findSome?]
    exact congrArg (List.findSome? · ids) (funext fun id => h.first?_bindingsOf id name)
  rw [first?_append, first?_flatMap, hautomata, h.first?_bindingsIn]
  simp only [variablesIn, global?]
  cases ids.findSome? fun id => (t.automaton? id).bind fun a => a.variableNamed? name <;> rfl

/-- The owner and the target are told apart by name or by number alike. -/
theorem WellFormed.workplaces_eq (hw : t.WellFormed) {id : OperationId} {o : Operation}
    (ho : t.operation? id = some o) :
    (t.bodyScope id).automata = o.workplaces.filterMap t.automatonId? := by
  obtain ⟨owner, howner⟩ := hw.owner_known o (List.mem_of_getElem? ho)
  simp only [bodyScope, ho, Option.bind_some, Scope.inOperation, Scope.automata, howner,
    Option.toList_some, Operation.workplaces]
  by_cases hsame : o.target = o.owner
  · rw [if_pos hsame, hsame, howner]
    simp [howner]
  · rw [if_neg hsame]
    cases htarget : t.automatonId? o.target with
    | none => simp [howner, htarget]
    | some target =>
      have hne : target ≠ owner := by
        rintro rfl
        obtain ⟨a, ha, haname⟩ := (hw.automatonId?_iff _ _).mp howner
        obtain ⟨b, hb, hbname⟩ := (hw.automatonId?_iff _ _).mp htarget
        rw [ha] at hb
        cases hb
        exact hsame (hbname.symm.trans haname)
      simp [howner, htarget, hne]

/-- The place is the one that is being looked at: the body has come so far and no further. -/
def Current (t : SymbolTable) : Place → Prop
  | .library | .automaton _ => True
  | .contract id _ => ∃ o, t.operation? id = some o ∧ o.Laid ∧ o.statements = []
  | .statement id n => ∃ o, t.operation? id = some o ∧ o.Laid ∧ o.statements.length = n

theorem lookup?_inside (hw : t.WellFormed) (h : t.Housed) {id : OperationId} {o : Operation}
    (ho : t.operation? id = some o) (hlaid : o.Laid) {scope : Scope}
    (hs : scope.operation = some id) (ha : scope.automata = (t.bodyScope id).automata)
    (name : String) :
    scope.lookup? t name = first? (t.bindingsInside o o.statements.length) name := by
  have hid : o.id = id := hw.operation_id id o ho
  have hlocals : ∀ n v, o.locals.get? n = some v → v.name = n := by
    intro n v hv
    refine (h (.body id) n v ?_).1
    simpa only [variablesIn, ho, Option.map_some, Option.getD_some] using hv
  rw [Scope.lookup?_inOperation (hid ▸ hs) (hid ▸ ho), bindingsInside, Operation.bindingsBefore,
    first?_append, first?_append, first?_arguments, ← hlaid.locals, first?_values hlocals,
    h.first?_automata, ← hw.workplaces_eq ho, ha]
  rfl

/-- A name stands for the first of the visible bindings that has it. -/
theorem Current.lookup?_eq_first? {place : Place} (hc : t.Current place) (hw : t.WellFormed)
    (h : t.Housed) (name : String) :
    (place.scope t).lookup? t name = first? (t.visible place) name := by
  cases place with
  | library => exact (h.first?_automata [] name).symm
  | automaton id =>
    have hone := h.first?_automata [id] name
    rw [List.flatMap_singleton] at hone
    exact hone.symm
  | contract id kind =>
    obtain ⟨o, ho, hlaid, hnil⟩ := hc
    have hinside : ((t.bodyScope id).inContract kind).lookup? t name =
        first? (t.bindingsInside o o.statements.length) name :=
      lookup?_inside hw h ho hlaid rfl rfl name
    rw [hnil, List.length_nil] at hinside
    rw [visible, ho]
    exact hinside
  | statement id n =>
    obtain ⟨o, ho, hlaid, rfl⟩ := hc
    rw [visible, ho]
    exact lookup?_inside hw h ho hlaid rfl rfl name

/-! ## Bindings that stay -/

/-- The second table has everything of the first, and the same variables outside of operations; only
the values that these start from may have been added. -/
structure Settles (t u : SymbolTable) : Prop where
  grows : t.GrowsTo u
  bindingsIn : ∀ home, home.OutsideOperations → u.bindingsIn home = t.bindingsIn home

namespace Settles

theorem refl (t : SymbolTable) : t.Settles t := ⟨.refl t, fun _ _ => rfl⟩

theorem trans {v : SymbolTable} (h : t.Settles u) (h' : u.Settles v) : t.Settles v :=
  ⟨h.grows.trans h'.grows, fun home hh => (h'.bindingsIn home hh).trans (h.bindingsIn home hh)⟩

theorem of_reflTransGen {S : SymbolTable → SymbolTable → Prop} (h : Relation.ReflTransGen S t u)
    (hS : ∀ t u, S t u → t.Settles u) : t.Settles u := by
  induction h with
  | refl => exact refl t
  | tail _ h ih => exact ih.trans (hS _ _ h)

theorem bindingsOf (h : t.Settles u) (id : AutomatonId) : u.bindingsOf id = t.bindingsOf id := by
  rw [SymbolTable.bindingsOf, SymbolTable.bindingsOf, h.bindingsIn (.automaton id) trivial,
    h.bindingsIn (.constructorParameter id) trivial]

theorem visible_library (h : t.Settles u) : u.visible .library = t.visible .library :=
  h.bindingsIn .global trivial

theorem visible_automaton (h : t.Settles u) (id : AutomatonId) :
    u.visible (.automaton id) = t.visible (.automaton id) := by
  rw [visible, visible, h.bindingsOf, h.bindingsIn .global trivial]

theorem of_variablesIn (hg : t.GrowsTo u)
    (hu : ∀ home, home.OutsideOperations → u.variablesIn home = t.variablesIn home) :
    t.Settles u :=
  ⟨hg, fun home hh => by rw [SymbolTable.bindingsIn, SymbolTable.bindingsIn, hu home hh]⟩

end Settles

end SymbolTable

variable {t u : SymbolTable}

theorem Interns.settles (h : Interns t u) : t.Settles u := by
  refine .of_variablesIn h.growsTo fun home _ => ?_
  cases h
  cases home <;> rfl

theorem Signs.variablesIn_outside (h : Signs t u) {home : VariableScope}
    (hh : home.OutsideOperations) : u.variablesIn home = t.variablesIn home := by
  cases h with
  | array _ => cases home <;> rfl
  | @operation _ _ s _ _ _ _ h =>
    rw [SymbolTable.withResult, SymbolTable.variablesIn_outside_modifyOperation _ _ _ hh]
    obtain ⟨owner, -, ⟨-, -, rfl⟩ | ⟨id, declared, -, -, -, -, -, rfl⟩⟩ :=
      SymbolTable.registerOperation_cases h
    · have hautomata := t.variablesIn_addToAutomaton owner s.kind ⟨t.operations.length⟩ home
      cases home <;> first | exact hautomata | exact hh.elim
    · exact SymbolTable.variablesIn_outside_modifyOperation _ _ _ hh

theorem Signs.settles (h : Signs t u) : t.Settles u :=
  .of_variablesIn h.growsTo fun _ => h.variablesIn_outside

theorem Elaborates.settles (h : Elaborates t u) : t.Settles u := by
  refine ⟨h.growsTo, fun home hh => ?_⟩
  have hheads := congrArg (List.map Variable.binding) (h.agrees.collections home hh)
  rwa [List.map_map, List.map_map] at hheads

/-- No name is registered any more. -/
theorem Elaborates.names (h : Elaborates t u) :
    u.automatonIds = t.automatonIds ∧ u.operationIds = t.operationIds := by
  cases h with
  | @initial _ _ _ home => cases home <;> exact ⟨rfl, rfl⟩
  | localVariable _ _ hv _ _ _ h =>
    obtain ⟨-, -, rfl⟩ := SymbolTable.registerVariable_eq_ok.mp h
    rw [hv]
    exact ⟨rfl, rfl⟩
  | array | shift | contract | statement => exact ⟨rfl, rfl⟩

theorem Elaborates.automatonId? (h : Elaborates t u) : u.automatonId? = t.automatonId? := by
  funext name
  rw [SymbolTable.automatonId?, SymbolTable.automatonId?, h.names.1]

/-- A variable of the body is not the one for the returned value. -/
theorem Operation.result?_insert {o : Operation} {v : Variable} (hv : v.scope.isResult = false)
    (hnew : o.locals.contains v.name = false) :
    Operation.result? { o with locals := o.locals.insert v.name v } = o.result? := by
  simp only [Operation.result?, OrderedMap.get?_insert]
  by_cases hname : resultName = v.name
  · -- neither is there one of that name before
    rw [OrderedMap.contains, Option.isSome_eq_false_iff, Option.isNone_iff_eq_none] at hnew
    rw [if_pos hname, hname, hnew]
    simp [hv]
  · rw [if_neg hname]

/-- The variables of a body that are there stay the first ones. -/
theorem Operation.Elaborated.localsBefore {id : OperationId} {o p : Operation}
    (h : o.Elaborated t id p) {n : Nat} (hn : n ≤ o.statements.length) :
    p.localsBefore n = o.localsBefore n := by
  cases h with
  | same => rfl
  | contract _ _ => rfl
  | statement _ _ _ _ =>
    simp only [Operation.localsBefore, List.take_append_of_le_length hn]
    rfl
  | @localVariable _ v _ _ hv _ _ _ hnew =>
    have hresult : Operation.result? { o with locals := o.locals.insert v.name v } = o.result? :=
      Operation.result?_insert (by rw [hv]; rfl) hnew
    simp only [Operation.localsBefore, hresult]

theorem Operation.Elaborated.statements {id : OperationId} {o p : Operation}
    (h : o.Elaborated t id p) : o.statements <+: p.statements := by
  cases h with
  | statement _ _ _ _ => exact List.prefix_append _ _
  | _ => exact List.prefix_rfl

/-- The place has been reached: its operation is there, and the body has come so far. -/
def SymbolTable.Reached (t : SymbolTable) : Place → Prop
  | .library | .automaton _ => True
  | .contract id _ => ∃ o, t.operation? id = some o
  | .statement id n => ∃ o, t.operation? id = some o ∧ n ≤ o.statements.length

theorem SymbolTable.Current.reached {place : Place} (h : t.Current place) : t.Reached place := by
  cases place with
  | library => trivial
  | automaton id => trivial
  | contract id kind =>
    obtain ⟨o, ho, -⟩ := h
    exact ⟨o, ho⟩
  | statement id n =>
    obtain ⟨o, ho, -, rfl⟩ := h
    exact ⟨o, ho, le_rfl⟩

theorem Elaborates.bindingsInside (h : Elaborates t u) {id : OperationId} {o : Operation}
    (ho : t.operation? id = some o) :
    ∃ p, u.operation? id = some p ∧ o.statements <+: p.statements ∧
      ∀ n ≤ o.statements.length, u.bindingsInside p n = t.bindingsInside o n := by
  obtain ⟨p, hp, -⟩ := h.growsTo.operation? ho
  obtain ⟨o', ho', hchange⟩ := h.operation? hp
  rw [ho] at ho'
  cases ho'
  obtain ⟨o', ho', hid, hsignature⟩ := h.signature hp
  rw [ho] at ho'
  cases ho'
  refine ⟨p, hp, hchange.statements, fun n hn => ?_⟩
  have hbindings : u.bindingsOf = t.bindingsOf := funext h.settles.bindingsOf
  have hbefore : p.bindingsBefore n = o.bindingsBefore n := by
    rw [Operation.bindingsBefore, Operation.bindingsBefore, hchange.localsBefore hn, hid, hsignature]
  have hplaces : p.workplaces = o.workplaces := by
    rw [Operation.workplaces, Operation.workplaces, hsignature]
  rw [SymbolTable.bindingsInside, SymbolTable.bindingsInside, hbefore, hplaces, h.automatonId?, hbindings,
    h.settles.bindingsIn .global trivial]

/-- A place that has been reached stays so, and what can be named there stays the same. -/
theorem Elaborates.visible_eq (h : Elaborates t u) {place : Place} (hp : t.Reached place) :
    u.Reached place ∧ u.visible place = t.visible place := by
  cases place with
  | library => exact ⟨trivial, h.settles.visible_library⟩
  | automaton id => exact ⟨trivial, h.settles.visible_automaton id⟩
  | contract id kind =>
    obtain ⟨o, ho⟩ := hp
    obtain ⟨p, hp, -, hinside⟩ := h.bindingsInside ho
    refine ⟨⟨p, hp⟩, ?_⟩
    rw [SymbolTable.visible, SymbolTable.visible, ho, hp, Option.map_some, Option.map_some,
      hinside 0 (Nat.zero_le _)]
  | statement id n =>
    obtain ⟨o, ho, hn⟩ := hp
    obtain ⟨p, hp, hprefix, hinside⟩ := h.bindingsInside ho
    refine ⟨⟨p, hp, hn.trans hprefix.length_le⟩, ?_⟩
    rw [SymbolTable.visible, SymbolTable.visible, ho, hp, Option.map_some, Option.map_some,
      hinside n hn]

theorem SymbolTable.Reached.visible_eq {place : Place} (hp : t.Reached place)
    (h : Relation.ReflTransGen Elaborates t u) :
    u.Reached place ∧ u.visible place = t.visible place := by
  induction h with
  | refl => exact ⟨hp, rfl⟩
  | tail _ hstep ih =>
    obtain ⟨hreached, hvisible⟩ := ih
    obtain ⟨hreached', hvisible'⟩ := hstep.visible_eq hreached
    exact ⟨hreached', hvisible'.trans hvisible⟩

end LibraryContract
