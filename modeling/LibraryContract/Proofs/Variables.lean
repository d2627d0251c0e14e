import LibraryContract.Proofs.Lifecycle

/-!
# Variables stay where they belong

A variable is stored under its own name in the collection that its scope names; the variable for
what an operation returns stands among the variables of the body.

* `analyze_housed`: this holds of every analysed library;
* `lookup?_result_iff`: a name stands for what an operation returns exactly when it is the reserved
  name, the operation returns something and no argument takes that name.
-/

namespace LibraryContract

open SyntaxTree

/-- The scope by which the collection of a variable is named. -/
def VariableScope.collection : VariableScope → VariableScope
  | .result owner => .body owner
  | scope => scope

/-- Only the variables of an operation share a collection. -/
theorem VariableScope.eq_of_collection {home scope : VariableScope} (h : home.collection = scope)
    (hs : ∀ owner, scope ≠ .body owner) : home = scope := by
  cases home with
  | result owner => exact (hs owner h.symm).elim
  | _ => exact h

/-- Variables are stored under their names in the collections that their scopes name. -/
def SymbolTable.Housed (t : SymbolTable) : Prop :=
  ∀ scope name v, (t.variablesIn scope).get? name = some v →
    v.name = name ∧ v.scope.collection = scope.collection

namespace SymbolTable

variable {t u : SymbolTable}

theorem variablesIn_collection (t : SymbolTable) (home : VariableScope) :
    t.variablesIn home.collection = t.variablesIn home := by
  cases home <;> rfl

theorem map_automaton?_modifyAutomaton {β : Type} (t : SymbolTable) (id owner : AutomatonId)
    {f : Automaton → Automaton} {part : Automaton → β} (h : ∀ a, part (f a) = part a) :
    ((t.modifyAutomaton id f).automaton? owner).map part = (t.automaton? owner).map part := by
  rw [automaton?_modifyAutomaton]
  split
  · rw [Option.map_map]
    exact congrArg (Option.map · (t.automaton? owner)) (funext h)
  · rfl

theorem variablesIn_modifyAutomaton (t : SymbolTable) (id : AutomatonId)
    {f : Automaton → Automaton} (hi : ∀ a, (f a).instanceVariables = a.instanceVariables)
    (hc : ∀ a, (f a).constructorVariables = a.constructorVariables) (scope : VariableScope) :
    (t.modifyAutomaton id f).variablesIn scope = t.variablesIn scope := by
  cases scope with
  | automaton owner =>
    exact congrArg (Option.getD · _) (t.map_automaton?_modifyAutomaton id owner hi)
  | constructorParameter owner =>
    exact congrArg (Option.getD · _) (t.map_automaton?_modifyAutomaton id owner hc)
  | _ => rfl

/-- An automaton that gets an operation keeps its variables. -/
theorem variablesIn_addToAutomaton (t : SymbolTable) (id : AutomatonId) (kind : OperationKind)
    (operation : OperationId) (scope : VariableScope) :
    (t.modifyAutomaton id fun a => a.addOperation kind operation).variablesIn scope =
      t.variablesIn scope := by
  refine t.variablesIn_modifyAutomaton id (fun a => ?_) (fun a => ?_) scope
  · cases kind <;> rfl
  · cases kind <;> rfl

theorem variablesIn_modifyOperation (t : SymbolTable) (id : OperationId)
    {f : Operation → Operation} (hf : ∀ o, (f o).locals = o.locals) (scope : VariableScope) :
    (t.modifyOperation id f).variablesIn scope = t.variablesIn scope := by
  have hlocals : ∀ owner, ((t.modifyOperation id f).operation? owner).map Operation.locals =
      (t.operation? owner).map Operation.locals := by
    intro owner
    rw [operation?_modifyOperation]
    split
    · cases t.operation? owner <;> simp [hf]
    · rfl
  cases scope with
  | body owner => exact congrArg (Option.getD · _) (hlocals owner)
  | result owner => exact congrArg (Option.getD · _) (hlocals owner)
  | _ => rfl

/-- An update of one item, seen through a part of it. -/
theorem getD_map_ite {α β : Type} {c : Prop} [Decidable c] {item : Option α} {update : α → α}
    {part : α → β} {f : β → β} (hf : ∀ a, part (update a) = f (part a)) (default : β) :
    ((if c then item.map update else item).map part).getD default = (item.map part).getD default ∨
      c ∧ ((if c then item.map update else item).map part).getD default =
        f ((item.map part).getD default) := by
  split
  · rename_i hc
    cases item with
    | none => exact Or.inl rfl
    | some a => exact Or.inr ⟨hc, hf a⟩
  · exact Or.inl rfl

section Part

variable {β : Type} {f : β → β}

theorem part_modifyAutomaton {update : Automaton → Automaton} (t : SymbolTable)
    (id owner : AutomatonId) (part : Automaton → β) (hf : ∀ a, part (update a) = f (part a))
    (default : β) :
    (((t.modifyAutomaton id update).automaton? owner).map part).getD default =
        ((t.automaton? owner).map part).getD default ∨
      owner = id ∧ (((t.modifyAutomaton id update).automaton? owner).map part).getD default =
        f (((t.automaton? owner).map part).getD default) := by
  rw [automaton?_modifyAutomaton]
  exact getD_map_ite hf default

theorem part_modifyOperation {update : Operation → Operation} (t : SymbolTable)
    (id owner : OperationId) (part : Operation → β) (hf : ∀ o, part (update o) = f (part o))
    (default : β) :
    (((t.modifyOperation id update).operation? owner).map part).getD default =
        ((t.operation? owner).map part).getD default ∨
      owner = id ∧ (((t.modifyOperation id update).operation? owner).map part).getD default =
        f (((t.operation? owner).map part).getD default) := by
  rw [operation?_modifyOperation]
  exact getD_map_ite hf default

end Part

/-- An update of one collection leaves the others alone. -/
theorem variablesIn_modifyVariables (t : SymbolTable) (scope scope' : VariableScope)
    (f : OrderedMap String Variable → OrderedMap String Variable) :
    (t.modifyVariables scope f).variablesIn scope' = t.variablesIn scope' ∨
      scope'.collection = scope.collection ∧
        (t.modifyVariables scope f).variablesIn scope' = f (t.variablesIn scope') := by
  cases scope with
  | global =>
    cases scope' with
    | global => exact Or.inr ⟨rfl, rfl⟩
    | _ => exact Or.inl rfl
  | automaton owner =>
    cases scope' with
    | automaton owner' =>
      exact (t.part_modifyAutomaton owner owner' (f := f) Automaton.instanceVariables
        (fun _ => rfl) .empty).imp_right (And.imp_left (congrArg VariableScope.automaton))
    | constructorParameter owner' =>
      refine Or.inl (congrArg (Option.getD · _) ?_)
      exact t.map_automaton?_modifyAutomaton owner owner' fun _ => rfl
    | _ => exact Or.inl rfl
  | constructorParameter owner =>
    cases scope' with
    | constructorParameter owner' =>
      exact (t.part_modifyAutomaton owner owner' (f := f) Automaton.constructorVariables
        (fun _ => rfl) .empty).imp_right
          (And.imp_left (congrArg VariableScope.constructorParameter))
    | automaton owner' =>
      refine Or.inl (congrArg (Option.getD · _) ?_)
      exact t.map_automaton?_modifyAutomaton owner owner' fun _ => rfl
    | _ => exact Or.inl rfl
  | argument owner => exact Or.inl rfl
  | body owner | result owner =>
    cases scope' with
    | body owner' | result owner' =>
      exact (t.part_modifyOperation owner owner' (f := f) Operation.locals
        (fun _ => rfl) .empty).imp_right (And.imp_left (congrArg VariableScope.body))
    | _ => exact Or.inl rfl

/-- A new automaton has no variables yet. -/
theorem variablesIn_registerAutomaton {name type : String} {span : Span} {id : AutomatonId}
    (hu : t.registerAutomaton name type span = .ok (id, u)) (scope : VariableScope) :
    u.variablesIn scope = t.variablesIn scope := by
  obtain ⟨-, -, rfl⟩ := registerAutomaton_eq_ok.mp hu
  have hnew : ∀ (owner : AutomatonId) (g : Automaton → OrderedMap String Variable),
      g (.skeleton ⟨t.automata.length⟩ name type span) = .empty →
        (((t.automata ++ [.skeleton ⟨t.automata.length⟩ name type span])[owner.index]?).map g).getD
          .empty = ((t.automaton? owner).map g).getD .empty := by
    intro owner g hg
    cases hb : (t.automata ++ [Automaton.skeleton ⟨t.automata.length⟩ name type span])[owner.index]? with
    | none =>
      have hnone : t.automaton? owner = none := by
        rw [List.getElem?_eq_none_iff, List.length_append] at hb
        exact List.getElem?_eq_none (by omega)
      rw [hnone]
    | some b =>
      rcases getElem?_concat_eq_some.mp hb with ha | ⟨hlast, rfl⟩
      · rw [show t.automaton? owner = some b from ha]
      · have hnone : t.automaton? owner = none := List.getElem?_eq_none (by omega)
        rw [hnone]
        exact hg
  cases scope with
  | automaton owner => exact hnew owner _ rfl
  | constructorParameter owner => exact hnew owner _ rfl
  | _ => rfl

/-- A new operation has no variables yet. -/
theorem variablesIn_addOperation (t : SymbolTable) (owner : AutomatonId) (s : Signature)
    (scope : VariableScope) :
    (t.addOperation owner s).2.variablesIn scope = t.variablesIn scope := by
  have hnew : ∀ id : OperationId,
      (((t.operations ++ [.ofSignature ⟨t.operations.length⟩ s])[id.index]?).map
        Operation.locals).getD .empty = ((t.operation? id).map Operation.locals).getD .empty := by
    intro id
    cases hp : (t.operations ++ [Operation.ofSignature ⟨t.operations.length⟩ s])[id.index]? with
    | none =>
      have hnone : t.operation? id = none := by
        rw [List.getElem?_eq_none_iff, List.length_append] at hp
        exact List.getElem?_eq_none (by omega)
      rw [hnone]
    | some p =>
      rcases getElem?_concat_eq_some.mp hp with ho | ⟨hlast, rfl⟩
      · rw [show t.operation? id = some p from ho]
      · have hnone : t.operation? id = none := List.getElem?_eq_none (by omega)
        rw [hnone]
        rfl
  have hautomata := t.variablesIn_addToAutomaton owner s.kind ⟨t.operations.length⟩
  cases scope with
  | automaton owner' => exact hautomata (.automaton owner')
  | constructorParameter owner' => exact hautomata (.constructorParameter owner')
  | body id => exact hnew id
  | result id => exact hnew id
  | _ => rfl

namespace Housed

theorem empty : SymbolTable.empty.Housed := by
  intro scope name v hv
  cases scope <;> cases hv

theorem of_variablesIn (h : t.Housed) (hu : ∀ scope, u.variablesIn scope = t.variablesIn scope) :
    u.Housed := by
  intro scope name v hv
  rw [hu] at hv
  exact h scope name v hv

theorem modifyVariables (h : t.Housed) {scope : VariableScope}
    {f : OrderedMap String Variable → OrderedMap String Variable}
    (hf : ∀ m name v, (f m).get? name = some v →
      (∃ w, m.get? name = some w ∧ v.name = w.name ∧ v.scope = w.scope) ∨
        v.name = name ∧ v.scope.collection = scope.collection) :
    (t.modifyVariables scope f).Housed := by
  intro scope' name v hv
  rcases t.variablesIn_modifyVariables scope scope' f with heq | ⟨hcollection, heq⟩
  · rw [heq] at hv
    exact h scope' name v hv
  · rw [heq] at hv
    rcases hf _ _ _ hv with ⟨w, hw, hname, hscope⟩ | ⟨hname, hscope⟩
    · obtain ⟨hn, hs⟩ := h scope' name w hw
      exact ⟨hname.trans hn, by rw [hscope, hs]⟩
    · exact ⟨hname, hscope.trans hcollection.symm⟩

theorem insert (h : t.Housed) (scope : VariableScope) {v : Variable}
    (hv : v.scope.collection = scope.collection) :
    (t.modifyVariables scope fun m => m.insert v.name v).Housed := by
  refine h.modifyVariables fun m name w hw => ?_
  rw [OrderedMap.get?_insert] at hw
  split at hw
  · rename_i hn
    cases hw
    exact Or.inr ⟨hn.symm, hv⟩
  · exact Or.inl ⟨w, hw, rfl, rfl⟩

theorem registerVariable (h : t.Housed) {v : Variable} (hu : t.registerVariable v = .ok u) :
    u.Housed := by
  obtain ⟨-, -, rfl⟩ := registerVariable_eq_ok.mp hu
  exact h.insert v.scope rfl

theorem registerAutomaton (h : t.Housed) {name type : String} {span : Span} {id : AutomatonId}
    (hu : t.registerAutomaton name type span = .ok (id, u)) : u.Housed :=
  h.of_variablesIn (variablesIn_registerAutomaton hu)

theorem addOperation (h : t.Housed) (owner : AutomatonId) (s : Signature) :
    (t.addOperation owner s).2.Housed :=
  h.of_variablesIn (t.variablesIn_addOperation owner s)

theorem withResult (h : t.Housed) (id : OperationId) (span : Span) :
    (t.withResult id span).Housed := by
  rcases t.withResult_cases id span with hsame | ⟨o, type, -, -, -, hresult⟩
  · rw [hsame]
    exact h
  · rw [hresult]
    exact h.insert (.result id) (v := ⟨resultName, type, .result id, none, span⟩) rfl

theorem registerOperation (h : t.Housed) {s : Signature} {r : Registration}
    (hu : t.registerOperation s = .ok (r, u)) : u.Housed := by
  obtain ⟨owner, -, ⟨-, -, rfl⟩ | ⟨id, declared, -, -, -, -, -, rfl⟩⟩ :=
    registerOperation_cases hu
  · exact h.addOperation owner s
  · exact h.of_variablesIn (t.variablesIn_modifyOperation id fun _ => rfl)

theorem setInitial (h : t.Housed) (scope : VariableScope) (name : String) (value : Value) :
    (t.setInitial scope name value).Housed := by
  refine h.modifyVariables fun m n v hv => Or.inl ?_
  rw [OrderedMap.get?_modify] at hv
  split at hv
  · obtain ⟨w, hw, rfl⟩ := Option.map_eq_some_iff.mp hv
    exact ⟨w, hw, rfl, rfl⟩
  · exact ⟨v, hv, rfl, rfl⟩

end Housed

end SymbolTable

/-! ## Runs -/

variable {t u : SymbolTable}

theorem Furnishes.housed (h : Furnishes t u) (ht : t.Housed) : u.Housed := by
  cases h with
  | interns hu =>
    obtain ⟨_⟩ := hu
    exact ht.of_variablesIn fun scope => by cases scope <;> rfl
  | annotationType _ hu =>
    obtain ⟨-, rfl⟩ := SymbolTable.registerAnnotationType_eq_ok.mp hu
    exact ht.of_variablesIn fun scope => by cases scope <;> rfl
  | state => exact ht.of_variablesIn (t.variablesIn_modifyAutomaton _ (fun _ => rfl) fun _ => rfl)
  | «variable» _ _ _ hu => exact ht.registerVariable hu

theorem Declares.housed (h : Declares t u) (ht : t.Housed) : u.Housed := by
  cases h with
  | array => exact ht.of_variablesIn fun scope => by cases scope <;> rfl
  | type hu =>
    obtain ⟨-, rfl⟩ := SymbolTable.registerType_eq_ok.mp hu
    exact ht.of_variablesIn fun scope => by cases scope <;> rfl
  | automaton hu => exact ht.registerAutomaton hu
  | furnishes hu => exact hu.housed ht

theorem Signs.housed (h : Signs t u) (ht : t.Housed) : u.Housed := by
  cases h with
  | array => exact ht.of_variablesIn fun scope => by cases scope <;> rfl
  | operation _ hu => exact (ht.registerOperation hu).withResult _ _

theorem Elaborates.housed (h : Elaborates t u) (ht : t.Housed) : u.Housed := by
  cases h with
  | array => exact ht.of_variablesIn fun scope => by cases scope <;> rfl
  | initial => exact ht.setInitial _ _ _
  | shift => exact ht.of_variablesIn (t.variablesIn_modifyAutomaton _ (fun _ => rfl) fun _ => rfl)
  | localVariable _ _ _ _ _ _ hu => exact ht.registerVariable hu
  | contract | statement =>
    exact ht.of_variablesIn (t.variablesIn_modifyOperation _ fun _ => rfl)

namespace Run

theorem withAutomata_housed (library : SyntaxTree.Library) :
    (withAutomata library).2.table.Housed :=
  keeps_of_reflTransGen (withAutomata_declares library) (fun _ _ => Declares.housed) .empty

theorem withSignatures_housed (options : Options) (library : SyntaxTree.Library) :
    (withSignatures options library).2.table.Housed :=
  keeps_of_reflTransGen (registerSignatures_signs _ _ _ _) (fun _ _ => Signs.housed)
    (withAutomata_housed library)

/-- Every variable of an analysed library is stored where its scope says. -/
theorem analyze_housed (options : Options) (library : SyntaxTree.Library) :
    (analyze options library).table.Housed :=
  keeps_of_reflTransGen (analyze_elaborates options library) (fun _ _ => Elaborates.housed)
    (withSignatures_housed options library)

end Run

/-! ## The name of what an operation returns -/

/-- Where the body of an operation stands. -/
def Operation.bodyScope (t : SymbolTable) (o : Operation) : Scope :=
  .inOperation (t.automatonId? o.owner) (t.automatonId? o.target) o.id

theorem SymbolTable.Housed.automaton_home (h : t.Housed) {id : AutomatonId} {a : Automaton}
    (ha : t.automaton? id = some a) {name : String} {v : Variable}
    (hv : a.variableNamed? name = some v) :
    v.scope = .automaton id ∨ v.scope = .constructorParameter id := by
  rw [Automaton.variableNamed?, Option.or_eq_some_iff] at hv
  rcases hv with hv | ⟨-, hv⟩
  · have hstored : (t.variablesIn (.automaton id)).get? name = some v := by
      simp only [SymbolTable.variablesIn, ha, Option.map_some, Option.getD_some]
      exact hv
    exact Or.inl (VariableScope.eq_of_collection (h _ _ _ hstored).2 (by simp))
  · have hstored : (t.variablesIn (.constructorParameter id)).get? name = some v := by
      simp only [SymbolTable.variablesIn, ha, Option.map_some, Option.getD_some]
      exact hv
    exact Or.inr (VariableScope.eq_of_collection (h _ _ _ hstored).2 (by simp))

theorem SymbolTable.Housed.global_home (h : t.Housed) {name : String} {v : Variable}
    (hv : t.global? name = some v) : v.scope = .global :=
  VariableScope.eq_of_collection (h .global name v hv).2 (by simp)

theorem Scope.lookup?_inOperation {scope : Scope} {o : Operation} (hs : scope.operation = some o.id)
    (ho : t.operation? o.id = some o) (name : String) :
    scope.lookup? t name =
      (((o.argument? name).map fun a => (VariableScope.argument o.id, a.type)).or
          ((o.locals.get? name).map fun v => (v.scope, v.type))).or
        (((scope.automata.findSome? fun id => (t.automaton? id).bind fun a =>
          a.variableNamed? name).or (t.global? name)).map fun v => (v.scope, v.type)) := by
  rw [Scope.lookup?, hs, Option.bind_some, ho, Option.bind_some, variableOf?]

/-- Only the variable for what the operation returns is found under the scope of such a variable. -/
theorem SymbolTable.Housed.lookup?_isResult (h : t.Housed) {scope : Scope} {o : Operation}
    (hs : scope.operation = some o.id) (ho : t.operation? o.id = some o) (hr : o.HoldsResult)
    {name type : String} {home : VariableScope} (hlookup : scope.lookup? t name = some (home, type))
    (hresult : home.isResult = true) :
    name = resultName ∧ home = .result o.id ∧ o.argument? resultName = none ∧
      o.returnType = some type := by
  rw [Scope.lookup?_inOperation hs ho, Option.or_eq_some_iff, Option.or_eq_some_iff] at hlookup
  rcases hlookup with (harg | ⟨hnone, hlocals⟩) | ⟨-, houtside⟩
  · obtain ⟨a, -, heq⟩ := Option.map_eq_some_iff.mp harg
    cases heq
    cases hresult
  · obtain ⟨v, hv, heq⟩ := Option.map_eq_some_iff.mp hlocals
    cases heq
    rcases hr.home name v hv with hbody | ⟨rfl, hhome, hreturn⟩
    · rw [hbody] at hresult
      cases hresult
    · exact ⟨rfl, hhome, Option.map_eq_none_iff.mp hnone, hreturn⟩
  · obtain ⟨v, hv, heq⟩ := Option.map_eq_some_iff.mp houtside
    cases heq
    rcases Option.or_eq_some_iff.mp hv with hv | ⟨-, hv⟩
    · obtain ⟨id, -, hid⟩ := List.exists_of_findSome?_eq_some hv
      obtain ⟨a, ha, hva⟩ := Option.bind_eq_some_iff.mp hid
      rcases h.automaton_home ha hva with hv | hv <;> rw [hv] at hresult <;> cases hresult
    · rw [h.global_home hv] at hresult
      cases hresult

/-- A name stands for what the operation returns exactly when it is the reserved name, no argument
takes it, and the operation returns something. -/
theorem SymbolTable.Housed.lookup?_result_iff (h : t.Housed) {scope : Scope} {o : Operation}
    (hs : scope.operation = some o.id) (ho : t.operation? o.id = some o) (hr : o.HoldsResult)
    {name type : String} :
    scope.lookup? t name = some (.result o.id, type) ↔
      name = resultName ∧ o.argument? resultName = none ∧ o.returnType = some type := by
  constructor
  · intro hlookup
    obtain ⟨hname, -, harg, hreturn⟩ := h.lookup?_isResult hs ho hr hlookup rfl
    exact ⟨hname, harg, hreturn⟩
  · rintro ⟨rfl, harg, hreturn⟩
    obtain ⟨v, hv, hscope, rfl⟩ := hr.result type hreturn
    rw [Scope.lookup?_inOperation hs ho, harg, hv, ← hscope]
    rfl

end LibraryContract
