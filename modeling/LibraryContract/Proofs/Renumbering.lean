import LibraryContract.Proofs.Interface

/-!
# Other numbers

Automata and operations are numbered in the order of their registration, and resolved values, contracts
and shifts point at them by number. A `Renumbering` gives them other numbers, and everything that points
at them follows.

Two tables with one interface may have the same automata and operations under different numbers. A name
then stands for the same variable in both, up to the numbers.

* `Value.renumber`, `Operation.renumber`, `Shift.renumber`: what becomes of a value, of an operation and
  of a shift;
* `Scope.Matches`: two places from which the same names can be seen, under other numbers;
* `Scope.Matches.lookup?`: what a name stands for in two such places.
-/

namespace LibraryContract

open SyntaxTree

/-- Other numbers for automata and operations. -/
structure Renumbering where
  automaton : AutomatonId → AutomatonId
  operation : OperationId → OperationId

/-- Other numbers for operations, while automata keep theirs. -/
def Renumbering.ofOperations (f : OperationId → OperationId) : Renumbering := ⟨id, f⟩

variable (ρ : Renumbering)

/-! ## Resolved entities -/

def VariableScope.renumber : VariableScope → VariableScope
  | .global => .global
  | .automaton owner => .automaton (ρ.automaton owner)
  | .constructorParameter owner => .constructorParameter (ρ.automaton owner)
  | .argument owner => .argument (ρ.operation owner)
  | .body owner => .body (ρ.operation owner)
  | .result owner => .result (ρ.operation owner)

mutual

def Value.renumber : Value → Value
  | .literal value => .literal value
  | .access location => .access location.renumber
  | .old location => .old location.renumber
  | .unary operator operand => .unary operator operand.renumber
  | .binary operator left right => .binary operator left.renumber right.renumber
termination_by structural v => v

def Access.renumber : Access → Access
  | ⟨head, rest⟩ => ⟨head.renumber, Link.renumberAll rest⟩
termination_by structural a => a

def Link.renumber : Link → Link
  | .name name type scope => .name name type (scope.map (VariableScope.renumber ρ))
  | .index index element => .index index.renumber element
  | .getter automaton argument type => .getter (ρ.automaton automaton) argument type
termination_by structural l => l

def Link.renumberAll : List Link → List Link
  | [] => []
  | link :: rest => link.renumber :: Link.renumberAll rest
termination_by structural links => links

end

def Variable.renumber (v : Variable) : Variable :=
  { v with scope := v.scope.renumber ρ, initial := v.initial.map (Value.renumber ρ) }

def AnnotationUse.renumber (use : AnnotationUse) : AnnotationUse :=
  { use with arguments := use.arguments.map (Value.renumber ρ) }

def Argument.renumber (a : Argument) : Argument :=
  { a with annotations := a.annotations.map (AnnotationUse.renumber ρ) }

def Contract.renumber (c : Contract) : Contract :=
  { c with expression := c.expression.renumber ρ }

def ConstructorArgument.renumber (a : ConstructorArgument) : ConstructorArgument :=
  { a with value := a.value.renumber ρ }

def ConstructorCall.renumber (call : ConstructorCall) : ConstructorCall :=
  { call with
    automaton := ρ.automaton call.automaton
    arguments := call.arguments.map (ConstructorArgument.renumber ρ) }

def AssignedValue.renumber : AssignedValue → AssignedValue
  | .value v => .value (v.renumber ρ)
  | .constructed call => .constructed (call.renumber ρ)

def Statement.renumber : Statement → Statement
  | .assignment target value span => .assignment (target.renumber ρ) (value.renumber ρ) span
  | .action name arguments span => .action name (arguments.map (Value.renumber ρ)) span
  | .declaration declared => .declaration (declared.renumber ρ)

def Signature.renumber (s : Signature) : Signature :=
  { s with
    arguments := s.arguments.map (Argument.renumber ρ)
    annotations := s.annotations.map (AnnotationUse.renumber ρ) }

/-- The operation under other numbers. What tells it apart, its name, its kind, its owner and the types
of its arguments, stays as it is. -/
def Operation.renumber (o : Operation) : Operation where
  toSignature := o.toSignature.renumber ρ
  id := ρ.operation o.id
  contracts := o.contracts.map (Contract.renumber ρ)
  statements := o.statements.map (Statement.renumber ρ)
  locals := o.locals.map (Variable.renumber ρ)

/-- The shift, caused by the same operations under other numbers. -/
def Shift.renumber (s : Shift) : Shift := { s with functions := s.functions.map ρ.operation }

variable {ρ}

@[simp] theorem VariableScope.isResult_renumber (home : VariableScope) :
    (home.renumber ρ).isResult = home.isResult := by
  cases home <;> rfl

variable {V : Interface} {t t' : SymbolTable}

/-! ## Automata of one name -/

/-- The other numbers of automata are those of the automata of the same name. -/
def Renumbering.TakesAutomata (ρ : Renumbering) (t t' : SymbolTable) : Prop :=
  ∀ id id', SameAutomaton t t' id id' → ρ.automaton id = id'

/-- The names tell how to number the automata. -/
theorem SymbolTable.Shows.exists_renumbering (h' : t'.Shows V) (t : SymbolTable)
    (f : OperationId → OperationId) : ∃ ρ : Renumbering, ρ.TakesAutomata t t' ∧ ρ.operation = f := by
  refine ⟨⟨fun id => ((t.automaton? id).bind fun a => t'.automatonId? a.name).getD id, f⟩, ?_, rfl⟩
  rintro id id' ⟨a, a', ha, ha', hname, -⟩
  have hid' := (h'.wellFormed.automatonId?_iff a.name id').mpr ⟨a', ha', hname.symm⟩
  simp only [ha, Option.bind_some, hid', Option.getD_some]

/-! ## Scopes -/

/-- The operations have arguments and variables of the same names and types, in the same order. -/
structure Operation.Resembles (o o' : Operation) : Prop where
  arguments : o.arguments.map (fun a => (a.name, a.type)) =
    o'.arguments.map fun a => (a.name, a.type)
  locals : o.locals.map (fun v => (v.scope.isResult, v.type)) =
    o'.locals.map fun v => (v.scope.isResult, v.type)

theorem Operation.Resembles.argument? {o o' : Operation} (h : o.Resembles o') (name : String) :
    (o.argument? name).map Argument.type = (o'.argument? name).map Argument.type := by
  have hfind : ∀ arguments : List Argument,
      (arguments.find? fun a => decide (a.name = name)).map Argument.type =
        ((arguments.map fun a => (a.name, a.type)).find? fun p => decide (p.1 = name)).map
          Prod.snd := by
    intro arguments
    simp only [List.find?_map, Option.map_map, Function.comp_def]
  rw [Signature.argument?, Signature.argument?, hfind, hfind, h.arguments]

theorem Operation.Resembles.contains {o o' : Operation} (h : o.Resembles o') (name : String) :
    o.locals.contains name = o'.locals.contains name := by
  rw [← OrderedMap.contains_map fun v : Variable => (v.scope.isResult, v.type), h.locals,
    OrderedMap.contains_map]

/-- Two numbers that stand for operations that are related. -/
def Paired (Q : Operation → Operation → Prop) (t t' : SymbolTable) (id id' : OperationId) : Prop :=
  ∃ o o', t.operation? id = some o ∧ t'.operation? id' = some o' ∧ Q o o'

/-- Two places in two tables from which the same names can be seen, under the numbers that `ρ` gives. -/
structure Scope.Matches (ρ : Renumbering) (t t' : SymbolTable) (s s' : Scope) : Prop where
  automaton : Option.Rel (SameAutomaton t t') s.automaton s'.automaton
  target : Option.Rel (SameAutomaton t t') s.target s'.target
  operation : Option.Rel (Paired Operation.Resembles t t') s.operation s'.operation
  contract : s.contract = s'.contract
  takes : ρ.TakesAutomata t t'
  inside : s'.operation = s.operation.map ρ.operation

/-- Where a variable of an operation belongs, by whether it holds the returned value. -/
def VariableScope.ofOperation (id : OperationId) (isResult : Bool) : VariableScope :=
  if isResult then .result id else .body id

theorem VariableScope.renumber_ofOperation (id : OperationId) (isResult : Bool) :
    (ofOperation id isResult).renumber ρ = ofOperation (ρ.operation id) isResult := by
  cases isResult <;> rfl

theorem SymbolTable.Housed.operation_home (h : t.Housed) {id : OperationId} {o : Operation}
    (ho : t.operation? id = some o) {name : String} {v : Variable} (hv : o.locals.get? name = some v) :
    v.scope = .ofOperation id v.scope.isResult := by
  have hstored : (t.variablesIn (.body id)).get? name = some v := by
    simp only [SymbolTable.variablesIn, ho, Option.map_some, Option.getD_some]
    exact hv
  have hs := (h _ _ _ hstored).2
  cases hscope : v.scope <;> rw [hscope] at hs <;> cases hs <;> rfl

/-- A variable found, under other numbers. -/
def Scope.renumberFound (ρ : Renumbering) (found : VariableScope × String) : VariableScope × String :=
  (found.1.renumber ρ, found.2)

/-- What a name stands for in an operation depends on the number of the operation and on the names and
types of its arguments and variables. -/
theorem Scope.variableOf?_eq (h : t.Housed) {id : OperationId} {o : Operation}
    (ho : t.operation? id = some o) (name : String) :
    Scope.variableOf? o id name =
      (((o.argument? name).map Argument.type).map fun type => (VariableScope.argument id, type)).or
        (((o.locals.map fun v => (v.scope.isResult, v.type)).get? name).map fun p =>
          (VariableScope.ofOperation id p.1, p.2)) := by
  rw [Scope.variableOf?, Option.map_map, OrderedMap.get?_map, Option.map_map]
  refine congrArg _ (Option.map_congr fun v hv => ?_)
  rw [Function.comp_apply, ← h.operation_home ho hv]

theorem Scope.variableOf?_renumber (h : t.Housed) (h' : t'.Housed) {id : OperationId}
    {o o' : Operation} (ho : t.operation? id = some o)
    (ho' : t'.operation? (ρ.operation id) = some o') (hlike : o.Resembles o') (name : String) :
    Scope.variableOf? o' (ρ.operation id) name =
      (Scope.variableOf? o id name).map (renumberFound ρ) := by
  have hlocal : (renumberFound ρ ∘ fun p : Bool × String => (VariableScope.ofOperation id p.1, p.2)) =
      fun p => (VariableScope.ofOperation (ρ.operation id) p.1, p.2) := by
    funext p
    rw [Function.comp_apply, renumberFound, VariableScope.renumber_ofOperation]
  rw [variableOf?_eq h ho, variableOf?_eq h' ho', hlike.argument?, hlike.locals, Option.map_or,
    Option.map_map (renumberFound ρ), Option.map_map (renumberFound ρ), hlocal]
  rfl

/-- What a name stands for in an automaton depends on the number of the automaton and on its face. -/
theorem Automaton.variableNamed?_eq (h : t.Housed) {id : AutomatonId} {a : Automaton}
    (ha : t.automaton? id = some a) (name : String) :
    (a.variableNamed? name).map (fun v => (v.scope, v.type)) =
      ((a.face.instanceVariables.get? name).map fun type => (VariableScope.automaton id, type)).or
        ((a.face.constructorVariables.get? name).map fun type =>
          (VariableScope.constructorParameter id, type)) := by
  have hhome : ∀ home name v, (t.variablesIn home).get? name = some v →
      v.scope.collection = home.collection := fun home name v hv => (h home name v hv).2
  have hinstance := hhome (.automaton id)
  have hconstructor := hhome (.constructorParameter id)
  simp only [SymbolTable.variablesIn, ha, Option.map_some, Option.getD_some] at hinstance hconstructor
  rw [variableNamed?, Option.map_or, face, OrderedMap.get?_map, OrderedMap.get?_map, Option.map_map,
    Option.map_map]
  congr 1
  · refine Option.map_congr fun v hv => ?_
    have hs := hinstance name v hv
    cases hscope : v.scope <;> rw [hscope] at hs <;> cases hs
    rfl
  · refine Option.map_congr fun v hv => ?_
    have hs := hconstructor name v hv
    cases hscope : v.scope <;> rw [hscope] at hs <;> cases hs
    rfl

theorem SameAutomaton.variable_renumber (h : t.Housed) (h' : t'.Housed) (hρ : ρ.TakesAutomata t t')
    {id id' : AutomatonId} (hid : SameAutomaton t t' id id') (name : String) :
    ((t'.automaton? id').bind fun a => a.variableNamed? name).map (fun v => (v.scope, v.type)) =
      (((t.automaton? id).bind fun a => a.variableNamed? name).map fun v => (v.scope, v.type)).map
        (Scope.renumberFound ρ) := by
  have hnumber := hρ id id' hid
  obtain ⟨a, a', ha, ha', -, hface⟩ := hid
  rw [ha, ha', Option.bind_some, Option.bind_some, a.variableNamed?_eq h ha, a'.variableNamed?_eq h' ha',
    Option.map_or, Option.map_map, Option.map_map, hface, ← hnumber]
  rfl

namespace Scope.Matches

variable {s s' : Scope}

theorem automata (h : t.Shows V) (h' : t'.Shows V) (hs : s.Matches ρ t t' s') :
    List.Forall₂ (SameAutomaton t t') s.automata s'.automata := by
  rcases s with ⟨owner, target, operation, contract⟩
  rcases s' with ⟨owner', target', operation', contract'⟩
  have hautomaton : Option.Rel (SameAutomaton t t') owner owner' := hs.automaton
  have htarget : Option.Rel (SameAutomaton t t') target target' := hs.target
  rcases hautomaton with hautomaton | _ <;> rcases htarget with htarget | _
  · rename_i i i' j j'
    have hiff := h.id_eq_iff h' htarget hautomaton
    by_cases hij : j = i
    · simpa [Scope.automata, Option.filter, hij, hiff.mp hij] using hautomaton
    · have hij' : ¬j' = i' := fun heq => hij (hiff.mpr heq)
      simpa [Scope.automata, Option.filter, hij, hij'] using ⟨hautomaton, htarget⟩
  · simpa [Scope.automata] using hautomaton
  · simpa [Scope.automata, Option.filter] using htarget
  · exact .nil

/-- A name stands for the same variable in two places that match. -/
theorem lookup? (h : t.Shows V) (h' : t'.Shows V) (hs : s.Matches ρ t t' s') (name : String) :
    s'.lookup? t' name = (s.lookup? t name).map (renumberFound ρ) := by
  have hinside : (s'.operation.bind fun id => (t'.operation? id).bind fun o =>
        Scope.variableOf? o id name) =
      (s.operation.bind fun id => (t.operation? id).bind fun o =>
        Scope.variableOf? o id name).map (renumberFound ρ) := by
    have hoperation := hs.operation
    rw [hs.inside] at hoperation ⊢
    cases hid : s.operation with
    | none => rfl
    | some id =>
      rw [hid] at hoperation
      rcases hoperation with ⟨o, o', ho, ho', hlike⟩
      simp only [Option.map_some, Option.bind_some, ho, ho']
      exact Scope.variableOf?_renumber h.housed h'.housed ho ho' hlike name
  have hfind : ∀ {ids ids' : List AutomatonId}, List.Forall₂ (SameAutomaton t t') ids ids' →
      (ids'.findSome? fun id => (t'.automaton? id).bind fun a => a.variableNamed? name).map
          (fun v => (v.scope, v.type)) =
        ((ids.findSome? fun id => (t.automaton? id).bind fun a => a.variableNamed? name).map
          fun v => (v.scope, v.type)).map (renumberFound ρ) := by
    intro ids ids' hids
    simp only [List.map_findSome?]
    induction hids with
    | nil => rfl
    | cons hid _ ih =>
      simp only [List.findSome?_cons, Function.comp, hid.variable_renumber h.housed h'.housed hs.takes, ih]
  have hhome : ∀ {v : SymbolTable}, v.Shows V → (v.global? name).map (fun w => (w.scope, w.type)) =
      (V.global? name).map fun type => (.global, type) := by
    intro v hv
    rw [← hv.interface_eq, SymbolTable.interface, Option.map_map]
    refine Option.map_congr fun w hw => ?_
    rw [Function.comp_apply, hv.housed.global_home hw]
  have hglobal : (t'.global? name).map (fun w => (w.scope, w.type)) =
      ((t.global? name).map fun w => (w.scope, w.type)).map (renumberFound ρ) := by
    rw [hhome h', hhome h, Option.map_map]
    rfl
  simp only [Scope.lookup?, Option.map_or, hinside, hfind (hs.automata h h'), hglobal]

/-- Of a table, scopes see only the automata and the operation around them. -/
theorem of_tables {u u' : SymbolTable} (hs : s.Matches ρ t t' s') (ha : u.automata = t.automata)
    (ha' : u'.automata = t'.automata)
    (ho : Option.Rel (Paired Operation.Resembles u u') s.operation s'.operation) :
    s.Matches ρ u u' s' := by
  have hautomaton : SameAutomaton t t' = SameAutomaton u u' := by
    funext i i'
    simp only [SameAutomaton, SymbolTable.automaton?, ha, ha']
  obtain ⟨hs₁, hs₂, -, hs₄, hs₅, hs₆⟩ := hs
  rw [Renumbering.TakesAutomata, hautomaton] at hs₅
  rw [hautomaton] at hs₁ hs₂
  exact ⟨hs₁, hs₂, ho, hs₄, hs₅, hs₆⟩

end Scope.Matches

end LibraryContract
