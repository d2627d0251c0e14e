import LibraryContract.Proofs.Filling

/-!
# What resolves once resolves for good

A table that grows keeps what is in it (`SymbolTable.GrowsTo`). Here this is taken further, to what
names stand for: a reference to a type, an automaton, an annotation or an operation with given
argument types leads to the same thing in the larger table, and a variable keeps the value that it
starts from.

* `SymbolTable.PersistsIn`: all of this at once;
* `SymbolTable.Leads`: a well-formed table persists in another one, which is well formed again. Every
  change leads on, but that of a value: a variable must not have one yet (`leads_setInitial`).
-/

namespace LibraryContract

open SyntaxTree Build

variable {t u v : SymbolTable}

/-! ## References -/

namespace SymbolTable

/-- The value that a variable starts from. -/
def initial? (t : SymbolTable) (home : VariableScope) (name : String) : Option Value :=
  ((t.variablesIn home).get? name).bind Variable.initial

/-- Everything in `t` is in `u`, and is found there under the same references. -/
structure PersistsIn (t u : SymbolTable) : Prop extends t.GrowsTo u where
  initial : ∀ home name value, t.initial? home name = some value → u.initial? home name = some value
  resolveType : ∀ name type, t.resolveType name = .ok type → u.resolveType name = .ok type
  resolveAutomaton : ∀ name id, t.resolveAutomaton name = .ok id → u.resolveAutomaton name = .ok id
  resolveAnnotationType : ∀ name a,
    t.resolveAnnotationType name = .ok a → u.resolveAnnotationType name = .ok a
  resolveOperation : ∀ name automaton types id,
    t.resolveOperation name automaton (some types) = .ok id →
      u.resolveOperation name automaton (some types) = .ok id

theorem PersistsIn.trans (h : t.PersistsIn u) (h' : u.PersistsIn v) : t.PersistsIn v where
  toGrowsTo := h.toGrowsTo.trans h'.toGrowsTo
  initial home name value ht := h'.initial home name value (h.initial home name value ht)
  resolveType name type ht := h'.resolveType name type (h.resolveType name type ht)
  resolveAutomaton name id ht := h'.resolveAutomaton name id (h.resolveAutomaton name id ht)
  resolveAnnotationType name a ht :=
    h'.resolveAnnotationType name a (h.resolveAnnotationType name a ht)
  resolveOperation name automaton types id ht :=
    h'.resolveOperation name automaton types id (h.resolveOperation name automaton types id ht)

theorem GrowsTo.resolveType (h : t.GrowsTo u) {name : String} {type : DataType}
    (ht : t.resolveType name = .ok type) : u.resolveType name = .ok type := by
  unfold SymbolTable.resolveType at ht ⊢
  cases hname : t.type? name with
  | none => simp [hname] at ht
  | some found =>
    rw [h.type? hname]
    rwa [hname] at ht

theorem GrowsTo.resolveAutomaton (h : t.GrowsTo u) {name : String} {id : AutomatonId}
    (ht : t.resolveAutomaton name = .ok id) : u.resolveAutomaton name = .ok id := by
  unfold SymbolTable.resolveAutomaton at ht ⊢
  cases hname : t.automatonId? name with
  | none => simp [hname] at ht
  | some found =>
    rw [h.automatonId? hname]
    rwa [hname] at ht

theorem GrowsTo.resolveAnnotationType (h : t.GrowsTo u) {name : String} {a : Annotation}
    (ht : t.resolveAnnotationType name = .ok a) : u.resolveAnnotationType name = .ok a := by
  unfold SymbolTable.resolveAnnotationType at ht ⊢
  cases hname : t.annotation? name with
  | none => simp [hname] at ht
  | some found =>
    rw [h.annotation? hname]
    rwa [hname] at ht

/-- An operation keeps its argument types, so they tell it apart from the others as before. -/
theorem GrowsTo.hasArgumentTypes (h : t.GrowsTo u) {id : OperationId} {o : Operation}
    (ho : t.operation? id = some o) (types : List String) :
    u.hasArgumentTypes types id = t.hasArgumentTypes types id := by
  obtain ⟨p, hp, hop⟩ := h.operation? ho
  unfold SymbolTable.hasArgumentTypes
  rw [ho, hp]
  dsimp only
  rw [hop.argumentTypes]

theorem GrowsTo.candidates (h : t.GrowsTo u) (name automaton : String) :
    (t.operationIds.get? (automaton, name)).getD [] <+:
      (u.operationIds.get? (automaton, name)).getD [] := by
  cases hids : t.operationIds.get? (automaton, name) with
  | none => exact List.nil_prefix
  | some ids =>
    obtain ⟨ids', hids', hprefix⟩ := h.operationIds.get? hids
    rw [hids']
    exact hprefix

/-- Operations that come later stand behind the one that was found. -/
theorem GrowsTo.resolveOperation (h : t.GrowsTo u) (hw : t.WellFormed) {name automaton : String}
    {types : List String} {id : OperationId}
    (hid : t.resolveOperation name automaton (some types) = .ok id) :
    u.resolveOperation name automaton (some types) = .ok id := by
  have hfound : ((t.operationIds.get? (automaton, name)).getD []).find? (t.hasArgumentTypes types) =
      some id := by
    unfold SymbolTable.resolveOperation lookupOperation at hid
    dsimp only at hid
    generalize ((t.operationIds.get? (automaton, name)).getD []).find? _ = found at hid ⊢
    cases found <;> simp_all
  obtain ⟨more, hmore⟩ := h.candidates name automaton
  have hsame : ((t.operationIds.get? (automaton, name)).getD []).find? (u.hasArgumentTypes types) =
      some id := by
    rw [← hfound]
    refine List.find?_congr fun id' hid' => ?_
    obtain ⟨o, ho, -⟩ := hw.indexed_owner hid'
    exact h.hasArgumentTypes ho types
  unfold SymbolTable.resolveOperation lookupOperation
  dsimp only
  rw [← hmore, List.find?_append, hsame]
  rfl

/-! ## Variables -/

/-- Every variable stays as it is. -/
def KeepsVariables (t u : SymbolTable) : Prop :=
  ∀ home name v, (t.variablesIn home).get? name = some v → (u.variablesIn home).get? name = some v

namespace KeepsVariables

theorem refl (t : SymbolTable) : t.KeepsVariables t := fun _ _ _ h => h

theorem trans (h : t.KeepsVariables u) (h' : u.KeepsVariables v) : t.KeepsVariables v :=
  fun home name w ht => h' home name w (h home name w ht)

theorem of_variablesIn (h : ∀ home, u.variablesIn home = t.variablesIn home) :
    t.KeepsVariables u := by
  intro home name w ht
  rw [h home]
  exact ht

/-- A new variable takes the place of no other. -/
theorem insert {scope : VariableScope} {w : Variable}
    (hnew : (t.variablesIn scope).contains w.name = false) :
    t.KeepsVariables (t.modifyVariables scope fun m => m.insert w.name w) := by
  intro home name v ht
  rcases t.variablesIn_modifyVariables scope home (fun m => m.insert w.name w) with
    hsame | ⟨hcollection, hchanged⟩
  · rw [hsame]
    exact ht
  · have hne : name ≠ w.name := by
      rintro rfl
      rw [← t.variablesIn_collection, ← hcollection, t.variablesIn_collection] at hnew
      rw [OrderedMap.contains, ht] at hnew
      cases hnew
    rw [hchanged, OrderedMap.get?_insert, if_neg hne]
    exact ht

theorem registerVariable {w : Variable} (h : t.registerVariable w = .ok u) : t.KeepsVariables u := by
  obtain ⟨-, hnew, rfl⟩ := registerVariable_eq_ok.mp h
  exact insert hnew

theorem registerOperation {s : Signature} {r : Registration}
    (h : t.registerOperation s = .ok (r, u)) : t.KeepsVariables u := by
  obtain ⟨owner, -, ⟨-, -, rfl⟩ | ⟨id, declared, -, -, -, -, -, rfl⟩⟩ := registerOperation_cases h
  · exact of_variablesIn (t.variablesIn_addOperation owner s)
  · exact of_variablesIn (t.variablesIn_modifyOperation id fun _ => rfl)

theorem withResult (t : SymbolTable) (id : OperationId) (span : Span) :
    t.KeepsVariables (t.withResult id span) := by
  rcases t.withResult_cases id span with hsame | ⟨o, type, ho, -, hnew, hresult⟩
  · rw [hsame]
    exact refl t
  · rw [hresult]
    refine insert (w := ⟨resultName, type, .result id, none, span⟩) ?_
    simp only [variablesIn, ho, Option.map_some, Option.getD_some]
    exact hnew

theorem initial? (h : t.KeepsVariables u) {home : VariableScope} {name : String} {value : Value}
    (ht : t.initial? home name = some value) : u.initial? home name = some value := by
  obtain ⟨v, hv, hvalue⟩ := Option.bind_eq_some_iff.mp ht
  exact Option.bind_eq_some_iff.mpr ⟨v, h home name v hv, hvalue⟩

end KeepsVariables

/-! ## Changes -/

/-- A well-formed table persists in the second one, which is well formed again. -/
def Leads (t u : SymbolTable) : Prop := t.WellFormed → u.WellFormed ∧ t.PersistsIn u

namespace Leads

theorem of_growsTo (hw : t.WellFormed → u.WellFormed) (hg : t.GrowsTo u)
    (hv : ∀ home name value, t.initial? home name = some value → u.initial? home name = some value) :
    t.Leads u := by
  refine fun ht => ⟨hw ht, { hg with
    initial := hv
    resolveType := fun _ _ => hg.resolveType
    resolveAutomaton := fun _ _ => hg.resolveAutomaton
    resolveAnnotationType := fun _ _ => hg.resolveAnnotationType
    resolveOperation := fun _ _ _ _ => hg.resolveOperation ht }⟩

theorem refl (t : SymbolTable) : t.Leads t := of_growsTo id (.refl t) fun _ _ _ h => h

theorem trans (h : t.Leads u) (h' : u.Leads v) : t.Leads v := by
  intro ht
  obtain ⟨hu, htu⟩ := h ht
  obtain ⟨hv, huv⟩ := h' hu
  exact ⟨hv, htu.trans huv⟩

theorem of_reflTransGen {S : SymbolTable → SymbolTable → Prop} (h : Relation.ReflTransGen S t u)
    (hS : ∀ t u, S t u → t.Leads u) : t.Leads u := by
  induction h with
  | refl => exact refl t
  | tail _ hstep ih => exact ih.trans (hS _ _ hstep)

end Leads

/-- The table leads to the second one, and no operation has been registered in between. -/
structure LeadsOn (t u : SymbolTable) : Prop where
  leads : t.Leads u
  operationIds : u.operationIds = t.operationIds

namespace LeadsOn

theorem refl (t : SymbolTable) : t.LeadsOn t := ⟨.refl t, rfl⟩

theorem trans (h : t.LeadsOn u) (h' : u.LeadsOn v) : t.LeadsOn v :=
  ⟨h.leads.trans h'.leads, h'.operationIds.trans h.operationIds⟩

theorem of_reflTransGen {S : SymbolTable → SymbolTable → Prop} (h : Relation.ReflTransGen S t u)
    (hS : ∀ t u, S t u → t.LeadsOn u) : t.LeadsOn u := by
  induction h with
  | refl => exact refl t
  | tail _ hstep ih => exact ih.trans (hS _ _ hstep)

end LeadsOn

end SymbolTable

theorem Interns.variablesIn (h : Interns t u) (home : VariableScope) :
    u.variablesIn home = t.variablesIn home := by
  cases h
  cases home <;> rfl

theorem Connects.variablesIn (h : Connects t u) (home : VariableScope) :
    u.variablesIn home = t.variablesIn home := by
  rcases h with h | @⟨id, s, -⟩
  · exact h.variablesIn home
  · exact t.variablesIn_addShifts id [s] home

theorem Furnishes.keepsVariables (h : Furnishes t u) : t.KeepsVariables u := by
  rcases h with h | ⟨-, h⟩ | _ | ⟨-, -, -, h⟩
  · exact .of_variablesIn h.variablesIn
  · obtain ⟨-, rfl⟩ := SymbolTable.registerAnnotationType_eq_ok.mp h
    exact .of_variablesIn fun home => by cases home <;> rfl
  · exact .of_variablesIn (t.variablesIn_modifyAutomaton _ (fun _ => rfl) fun _ => rfl)
  · exact .registerVariable h

theorem Declares.keepsVariables (h : Declares t u) : t.KeepsVariables u := by
  rcases h with _ | h | h | h
  · exact .of_variablesIn fun home => by cases home <;> rfl
  · obtain ⟨-, rfl⟩ := SymbolTable.registerType_eq_ok.mp h
    exact .of_variablesIn fun home => by cases home <;> rfl
  · exact .of_variablesIn (SymbolTable.variablesIn_registerAutomaton h)
  · exact h.keepsVariables

theorem Signs.keepsVariables (h : Signs t u) : t.KeepsVariables u := by
  rcases h with _ | ⟨-, h⟩
  · exact .of_variablesIn fun home => by cases home <;> rfl
  · exact (SymbolTable.KeepsVariables.registerOperation h).trans (.withResult _ _ _)

theorem Declares.leads (h : Declares t u) : t.Leads u :=
  .of_growsTo h.wellFormed h.growsTo fun _ _ _ => h.keepsVariables.initial?

theorem Signs.leads (h : Signs t u) : t.Leads u :=
  .of_growsTo h.wellFormed h.growsTo fun _ _ _ => h.keepsVariables.initial?

/-- What is looked at after the registration of the operations leads on if it keeps the variables. -/
theorem leadsOn_of_elaborates (h : Relation.ReflTransGen Elaborates t u) (hv : t.KeepsVariables u) :
    t.LeadsOn u := by
  refine ⟨.of_growsTo (keeps_of_reflTransGen h fun _ _ => Elaborates.wellFormed) ?_ ?_, ?_⟩
  · exact .of_reflTransGen h fun _ _ => Elaborates.growsTo
  · exact fun _ _ _ => hv.initial?
  · refine keeps_of_reflTransGen (P := fun u => u.operationIds = t.operationIds) h ?_ rfl
    exact fun _ _ hstep hids => hstep.names.2.trans hids

theorem Interns.leadsOn (h : Relation.ReflTransGen Interns t u) : t.LeadsOn u :=
  .of_reflTransGen h fun _ _ hstep =>
    leadsOn_of_elaborates (.single hstep.elaborates) (.of_variablesIn hstep.variablesIn)

theorem Connects.leadsOn (h : Connects t u) : t.LeadsOn u :=
  leadsOn_of_elaborates (.single h.elaborates) (.of_variablesIn h.variablesIn)

/-- A variable that has no value yet may gain one. -/
theorem leadsOn_setInitial {home : VariableScope} {name : String}
    (hnone : t.initial? home name = none) (value : Value) :
    t.LeadsOn (t.setInitial home name value) := by
  have hgrows := t.setInitial_growsTo home name value
  refine ⟨.of_growsTo (fun h => h.modifyVariables home _) hgrows ?_, ?_⟩
  · intro home' name' value' ht
    rcases t.variablesIn_modifyVariables home home'
      (fun m => m.modify name fun v => { v with initial := some value }) with
        hsame | ⟨hcollection, hchanged⟩
    · rw [SymbolTable.initial?, SymbolTable.setInitial, hsame]
      exact ht
    · have hne : name' ≠ name := by
        rintro rfl
        rw [SymbolTable.initial?, ← t.variablesIn_collection, hcollection,
          t.variablesIn_collection] at ht
        rw [SymbolTable.initial?, ht] at hnone
        cases hnone
      rw [SymbolTable.initial?, SymbolTable.setInitial, hchanged, OrderedMap.get?_modify, if_neg hne]
      exact ht
  · cases home <;> rfl

namespace SyntaxTree

/-- A statement that is looked at adds at most a variable. -/
theorem Statement.elaborate_leadsOn {scope : Scope} {id : OperationId}
    (hs : scope.operation = some id) (hc : scope.contract = none) {d : Statement}
    {s : LibraryContract.Statement} (h : (d.elaborate scope id).Yields t s u) : t.LeadsOn u := by
  refine leadsOn_of_elaborates (h.reaches (d.elaborate_within hs hc t)) ?_
  rcases Statement.elaborate_cases h with ⟨-, rfl⟩ | ⟨v, types, -, -, hnew, rfl⟩
  · exact .refl _
  · refine .trans (.of_variablesIn (t.variablesIn_setTypes types)) (.insert ?_)
    rw [t.variablesIn_setTypes]
    exact hnew

namespace FunctionDecl

variable {scope : Scope} {id : OperationId}

theorem elaborateContracts_leadsOn (hs : scope.operation = some id) (ds : List ContractDecl)
    (t : SymbolTable) : (elaborateContracts scope id ds).Within SymbolTable.LeadsOn t := by
  induction ds generalizing t with
  | nil => exact within_pure _
  | cons d rest ih =>
    rw [elaborateContracts]
    refine within_bind (within_attempt (within_ofCheck _)) fun contract u hu => ?_
    cases contract with
    | none => exact ih u
    | some contract =>
      obtain ⟨hd, rfl⟩ := yields_ofCheck.mp (yields_attempt_some.mp hu)
      refine within_bind (within_modify ?_) fun _ v _ => ih v
      refine leadsOn_of_elaborates (.single (.contract hs hd)) ?_
      exact .of_variablesIn (t.variablesIn_modifyOperation id fun _ => rfl)

theorem elaborateBody_leadsOn (hs : scope.operation = some id) (hc : scope.contract = none)
    (ds : List Statement) (t : SymbolTable) :
    (elaborateBody scope id ds).Within SymbolTable.LeadsOn t := by
  induction ds generalizing t with
  | nil => exact within_pure _
  | cons d rest ih =>
    have hgivesUp := d.elaborate_givesUp scope id t
    rw [elaborateBody]
    refine within_attempt_bind (fun e he => ?_) (fun s u hd => ?_) fun u _ => ih u
    · exact .single (Interns.leadsOn (hgivesUp e he))
    · have hadd : u.LeadsOn
          (u.modifyOperation id fun o => { o with statements := o.statements ++ [s] }) := by
        refine leadsOn_of_elaborates (.single (.statement hs hc hd (Statement.elaborate_stays hd))) ?_
        exact .of_variablesIn (u.variablesIn_modifyOperation id fun _ => rfl)
      exact .head (Statement.elaborate_leadsOn hs hc hd) (.head hadd (ih _))

theorem elaborate_leadsOn (id : OperationId) (d : FunctionDecl) (t : SymbolTable) :
    (d.elaborate id).Within SymbolTable.LeadsOn t := by
  refine within_bind (within_liftM _) fun scope u hu => ?_
  obtain ⟨hscope, rfl⟩ := yields_liftM.mp hu
  obtain ⟨hs, hc⟩ := bodyScope_inside hscope
  refine within_bind (elaborateContracts_leadsOn hs _ t) fun _ v _ => ?_
  exact elaborateBody_leadsOn hs hc _ v

end FunctionDecl

end SyntaxTree

end LibraryContract
