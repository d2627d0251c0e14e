import LibraryContract.Proofs.Declarations
import LibraryContract.Proofs.Overload
import LibraryContract.Proofs.SameSteps

/-!
# The same operations in tables with one interface

When two tables have operations with the same keys, in whatever order, an operation can be found in
both or in none. Shifts and initial values that are looked at without an error in one table are then
looked at without an error in the other.

* `SameKeys.resolveOperation`: looking up operations by name and argument types;
* `ShiftDecl.carries_elaborate`: the shifts of an automaton;
* `Run.carries_completeAutomaton`: everything that an automaton has left for later.
-/

namespace LibraryContract

open SyntaxTree

variable {V : Interface} {t u t' u' : SymbolTable}

/-- The tables have operations with the same keys, perhaps in another order. -/
def SymbolTable.SameKeys (t t' : SymbolTable) : Prop :=
  (t.operations.map fun o => o.key).Perm (t'.operations.map fun o => o.key)

namespace SymbolTable

theorem SameKeys.operationsNamed (h : t.SameKeys t') (automaton name : String) :
    ((t.operationsNamed automaton name).map fun o => o.key).Perm
      ((t'.operationsNamed automaton name).map fun o => o.key) := by
  have hkeys : ∀ v : SymbolTable, ((v.operationsNamed automaton name).map fun o => o.key) =
      (v.operations.map fun o => o.key).filter fun k =>
        decide (k.2.2.1 = automaton ∧ k.2.1 = some name) := by
    intro v
    rw [List.filter_map]
    rfl
  rw [hkeys, hkeys]
  exact h.filter _

theorem SameKeys.overloads (h : t.SameKeys t') (automaton name : String) (types : List String) :
    ((t.overloads automaton name types).map fun o => o.key).Perm
      ((t'.overloads automaton name types).map fun o => o.key) := by
  have hkeys : ∀ v : SymbolTable, ((v.overloads automaton name types).map fun o => o.key) =
      ((v.operationsNamed automaton name).map fun o => o.key).filter fun k =>
        decide (k.2.2.2 = types) := by
    intro v
    rw [List.filter_map]
    rfl
  rw [hkeys, hkeys]
  exact (h.operationsNamed automaton name).filter _

/-- Argument types find an operation exactly when one has them, and a name alone when it is the only
one of that name. -/
theorem WellFormed.resolveOperation_iff (hw : t.WellFormed) (name automaton : String)
    (types : Option (List String)) :
    (∃ id, t.resolveOperation name automaton types = .ok id) ↔
      (∀ ts ∈ types, (t.overloads automaton name ts).length ≠ 0) ∧
        (types = none → (t.operationsNamed automaton name).length = 1) := by
  cases types with
  | some types =>
    rw [resolveOperation, hw.lookupOperation_eq]
    cases hfound : t.overloads automaton name types <;> simp [hfound]
  | none =>
    rw [resolveOperation, lookupOperation, hw.indexed]
    rcases t.operationsNamed automaton name with _ | ⟨o, _ | ⟨p, rest⟩⟩ <;> simp

theorem SameKeys.resolveOperation (h : t.SameKeys t') (hw : t.WellFormed) (hw' : t'.WellFormed)
    {name automaton : String} {types : Option (List String)} {id : OperationId}
    (hid : t.resolveOperation name automaton types = .ok id) :
    ∃ id', t'.resolveOperation name automaton types = .ok id' := by
  have hfound := (hw.resolveOperation_iff name automaton types).mp ⟨id, hid⟩
  have hnamed := (h.operationsNamed automaton name).length_eq
  have hoverloads := fun ts => (h.overloads automaton name ts).length_eq
  simp only [List.length_map] at hnamed hoverloads
  rw [hw'.resolveOperation_iff, ← hnamed]
  simpa only [← hoverloads] using hfound

end SymbolTable

/-- Once operations are registered, the list of their signatures stays. -/
theorem signatures_of_elaborates (h : Relation.ReflTransGen Elaborates t u) :
    (u.operations.map fun o => o.toSignature) = t.operations.map fun o => o.toSignature := by
  refine List.ext_getElem? fun i => ?_
  rw [List.getElem?_map, List.getElem?_map]
  show (u.operation? ⟨i⟩).map _ = (t.operation? ⟨i⟩).map _
  cases ho : t.operation? ⟨i⟩ with
  | some o =>
    have hgrows : t.GrowsTo u := .of_reflTransGen h fun _ _ => Elaborates.growsTo
    obtain ⟨p, hp, -⟩ := hgrows.operation? ho
    obtain ⟨q, hq, -, hsignature⟩ := signature_of_elaborates h hp
    rw [ho] at hq
    cases hq
    rw [hp, Option.map_some, Option.map_some, hsignature]
  | none =>
    cases hp : u.operation? ⟨i⟩ with
    | none => rfl
    | some p =>
      obtain ⟨o, ho', -⟩ := signature_of_elaborates h hp
      rw [ho] at ho'
      cases ho'

theorem SymbolTable.keys_of_signatures
    (h : (u.operations.map fun o => o.toSignature) = t.operations.map fun o => o.toSignature) :
    (u.operations.map fun o => o.key) = t.operations.map fun o => o.key := by
  have hkeys := congrArg (List.map Signature.key) h
  rwa [List.map_map, List.map_map] at hkeys

/-- Two tables that answer alike to names, with operations under the same keys. -/
structure SymbolTable.Alike (V : Interface) (t t' : SymbolTable) : Prop where
  left : t.Shows V
  right : t'.Shows V
  keys : t.SameKeys t'

theorem SymbolTable.Alike.elaborates (h : t.Alike V t') (hu : Relation.ReflTransGen Elaborates t u)
    (hu' : Relation.ReflTransGen Elaborates t' u') : u.Alike V u' := by
  refine ⟨h.left.elaborates hu, h.right.elaborates hu', ?_⟩
  rw [SymbolTable.SameKeys, SymbolTable.keys_of_signatures (signatures_of_elaborates hu),
    SymbolTable.keys_of_signatures (signatures_of_elaborates hu')]
  exact h.keys

theorem SymbolTable.Alike.interns (h : t.Alike V t') (hu : BothIntern t t' u u') : u.Alike V u' :=
  h.elaborates (Relation.ReflTransGen.mono (fun _ _ => Interns.elaborates) _ _ hu.left)
    (Relation.ReflTransGen.mono (fun _ _ => Interns.elaborates) _ _ hu.right)

theorem SameAutomaton.elaborates {id id' : AutomatonId} (h : SameAutomaton t t' id id')
    (hu : Relation.ReflTransGen Elaborates t u) (hu' : Relation.ReflTransGen Elaborates t' u')
    (ht : u.Alike V u') : SameAutomaton u u' id id' :=
  h.grows (.of_reflTransGen hu fun _ _ => Elaborates.growsTo)
    (.of_reflTransGen hu' fun _ _ => Elaborates.growsTo) ht.left ht.right

/-! ## Shifts -/

section Shifts

open Build

theorem SameAutomaton.modifyAutomaton {id id' : AutomatonId} (h : SameAutomaton t t' id id')
    {f g : Automaton → Automaton} (hf : ∀ a, (f a).name = a.name ∧ (f a).face = a.face)
    (hg : ∀ a, (g a).name = a.name ∧ (g a).face = a.face) :
    SameAutomaton (t.modifyAutomaton id f) (t'.modifyAutomaton id' g) id id' := by
  obtain ⟨a, a', ha, ha', hname, hface⟩ := h
  refine ⟨f a, g a', ?_, ?_, ?_, ?_⟩
  · rw [SymbolTable.automaton?_modifyAutomaton, if_pos rfl, ha, Option.map_some]
  · rw [SymbolTable.automaton?_modifyAutomaton, if_pos rfl, ha', Option.map_some]
  · rw [(hf a).1, (hg a').1, hname]
  · rw [(hf a).2, (hg a').2, hface]

namespace SyntaxTree

theorem Trigger.carries_resolve (h : t.Alike V t') (automaton : String) (trigger : Trigger)
    (hfree : ∀ e ∈ trigger.typeExprs, BracketFree e.innermost.name) :
    Carries t t' (fun _ u _ u' => BothIntern t t' u u') (trigger.resolve automaton)
      (trigger.resolve automaton) := by
  have htypes : Carries t t' (fun ts u ts' u' => ts = ts' ∧ BothIntern t t' u u')
      (trigger.argumentTypes.mapM fun types => types.mapM fun e : TypeExpr => e.resolve)
      (trigger.argumentTypes.mapM fun types => types.mapM fun e : TypeExpr => e.resolve) := by
    cases htypes : trigger.argumentTypes with
    | none => exact carries_pure ⟨rfl, .refl t t'⟩
    | some types =>
      rw [Trigger.typeExprs, htypes, Option.getD_some] at hfree
      refine carries_bind (TypeExpr.carries_mapM_resolve h.left h.right hfree) ?_
      rintro names u _ u' ⟨rfl, hu⟩
      exact carries_pure ⟨rfl, hu⟩
  refine carries_bind htypes ?_
  rintro types u _ u' ⟨rfl, hu⟩
  refine carries_look_bind ?_
  have halike := h.interns hu
  cases hfound : u.resolveOperation trigger.name.name automaton types with
  | error e => cases e <;> exact carries_fail _ _ _ _
  | ok id =>
    obtain ⟨id', hid'⟩ := halike.keys.resolveOperation halike.left.wellFormed
      halike.right.wellFormed hfound
    rw [hid']
    exact carries_pure hu

theorem ShiftDecl.carries_resolveTriggers (h : t.Alike V t') (automaton : String) (d : ShiftDecl)
    (hfree : ∀ e ∈ d.typeExprs, BracketFree e.innermost.name) :
    Carries t t' (fun _ u _ u' => BothIntern t t' u u') (d.resolveTriggers automaton)
      (d.resolveTriggers automaton) := by
  refine carries_ite Iff.rfl (fun _ => carries_fail _ _ _ _) fun _ => ?_
  refine (carries_mapM (I := fun u u' => BothIntern t t' u u') (R := fun _ _ => True) ?_
    (.refl t t')).mono fun _ _ _ _ hu => hu.2
  intro trigger hmem u u' hu
  have htrigger : ∀ e ∈ trigger.typeExprs, BracketFree e.innermost.name :=
    fun e he => hfree e (List.mem_flatMap.mpr ⟨trigger, hmem, he⟩)
  refine (trigger.carries_resolve (h.interns hu) automaton htrigger).mono fun _ v _ v' hv => ?_
  exact ⟨trivial, hu.trans hv⟩

theorem ShiftDecl.carries_addShifts {id id' : AutomatonId} (hid : SameAutomaton t t' id id')
    (target : Endpoint) (functions functions' : List OperationId) (span : Span)
    (names : List Identifier) :
    Carries t t' (fun _ _ _ _ => True) (addShifts id target functions span names)
      (addShifts id' target functions' span names) := by
  induction names generalizing t t' with
  | nil => exact carries_pure trivial
  | cons name rest ih =>
    rw [addShifts, addShifts]
    have hsource := carries_ofCheck (name.carries_resolveSource hid)
    refine carries_attempt_bind (candid_ofCheck (name.candid_resolveSource id)) hsource ?_
    rintro source _ _ _ ⟨rfl, rfl, rfl⟩
    refine carries_bind (P := fun _ u _ u' => SameAutomaton u u' id id') ?_ fun _ _ _ _ hu => ih hu
    exact carries_modify (hid.modifyAutomaton (fun _ => ⟨rfl, rfl⟩) fun _ => ⟨rfl, rfl⟩)

theorem ShiftDecl.carries_elaborate (h : t.Alike V t') {id id' : AutomatonId}
    (hid : SameAutomaton t t' id id') (d : ShiftDecl)
    (hfree : ∀ e ∈ d.typeExprs, BracketFree e.innermost.name) :
    Carries t t' (fun _ _ _ _ => True) (d.elaborate id) (d.elaborate id') := by
  unfold ShiftDecl.elaborate
  cases d.target with
  | none => exact carries_reject _ _ _
  | some target =>
    refine carries_ite Iff.rfl (fun _ => carries_reject _ _ _) fun _ => ?_
    refine carries_look_bind ?_
    rw [hid.name_eq]
    refine carries_liftM_bind (target.carries_resolveTarget hid) ?_
    rintro endpoint _ rfl
    refine carries_bind (d.carries_resolveTriggers h _ hfree) fun functions u functions' u' hu => ?_
    have hu₁ : SameAutomaton u u' id id' := by
      obtain ⟨_, rfl⟩ := Interns.types_only hu.left
      obtain ⟨_, rfl⟩ := Interns.types_only hu.right
      exact hid
    exact ShiftDecl.carries_addShifts hu₁ _ _ _ _ _

end SyntaxTree

/-! ## What automata leave for later -/

/-- The same value is left for a variable outside of operations. -/
structure PendingInitializer.Twins (p p' : PendingInitializer) : Prop where
  value : p.value = p'.value
  left : p.scope.OutsideOperations
  right : p'.scope.OutsideOperations

theorem SyntaxTree.VariableDecl.twins_pending (home home' : VariableScope)
    (hh : home.OutsideOperations) (hh' : home'.OutsideOperations) (ds : List VariableDecl) :
    List.Forall₂ PendingInitializer.Twins (ds.filterMap (VariableDecl.pending home))
      (ds.filterMap (VariableDecl.pending home')) := by
  induction ds with
  | nil => exact .nil
  | cons d rest ih =>
    rw [List.filterMap_cons, List.filterMap_cons, VariableDecl.pending, VariableDecl.pending]
    cases d.initializer with
    | none => exact ih
    | some value => exact .cons ⟨rfl, hh, hh'⟩ ih

theorem PendingInitializer.Twins.carries_elaborate {p p' : PendingInitializer} (hp : p.Twins p')
    (h : t.Alike V t') {ρ : Renumbering} {s s' : Scope} (hs : s.Matches ρ t t' s')
    (ho : s.operation = none ∧ s.contract = none) (ho' : s'.operation = none ∧ s'.contract = none) :
    Carries t t' (fun _ u _ u' => Relation.ReflTransGen Elaborates t u ∧
      Relation.ReflTransGen Elaborates t' u') (p.elaborate s) (p'.elaborate s') := by
  refine (PendingInitializer.carries_elaborate h.left h.right hs hp.value).yields.mono ?_
  rintro _ u _ u' ⟨-, hu, hu'⟩
  exact ⟨hu.reaches (elaborateInitializer_within ho.1 ho.2 hp.left t),
    hu'.reaches (elaborateInitializer_within ho'.1 ho'.2 hp.right t')⟩

theorem Run.carries_completeAutomaton (h : t.Alike V t') {id id' : AutomatonId}
    (hid : SameAutomaton t t' id id') (d : AutomatonDecl)
    (hfree : ∀ e ∈ d.shifts.flatMap ShiftDecl.typeExprs, BracketFree e.innermost.name) :
    Carries t t' (fun _ _ _ _ => True) (completeAutomaton (d.pending id))
      (completeAutomaton (d.pending id')) := by
  have hpending : List.Forall₂ PendingInitializer.Twins (d.pending id).initializers
      (d.pending id').initializers :=
    List.rel_append
      (VariableDecl.twins_pending (.constructorParameter id) (.constructorParameter id') trivial
        trivial _)
      (VariableDecl.twins_pending (.automaton id) (.automaton id') trivial trivial _)
  have hstays : ∀ {u u' v v' : SymbolTable}, u.Alike V u' ∧ SameAutomaton u u' id id' →
      Relation.ReflTransGen Elaborates u v → Relation.ReflTransGen Elaborates u' v' →
        v.Alike V v' ∧ SameAutomaton v v' id id' := fun hu hv hv' =>
    ⟨hu.1.elaborates hv hv', hu.2.elaborates hv hv' (hu.1.elaborates hv hv')⟩
  refine carries_bind (carries_mapM₂ (R := fun _ _ => True)
    (I := fun u u' => u.Alike V u' ∧ SameAutomaton u u' id id') hpending ?_ ⟨h, hid⟩) ?_
  · intro p p' hp u u' hu
    obtain ⟨ρ, hρ, -⟩ := hu.1.right.exists_renumbering u fun i => i
    have hs : (Scope.inAutomaton id).Matches ρ u u' (.inAutomaton id') :=
      ⟨.some hu.2, .none, .none, rfl, hρ, rfl⟩
    refine (hp.carries_elaborate hu.1 hs ⟨rfl, rfl⟩ ⟨rfl, rfl⟩).mono ?_
    rintro _ v _ v' ⟨hv, hv'⟩
    exact ⟨trivial, hstays hu hv hv'⟩
  rintro _ u _ u' ⟨-, hu⟩
  refine carries_bind (carries_mapM (R := fun _ _ => True)
    (I := fun u u' => u.Alike V u' ∧ SameAutomaton u u' id id') ?_ hu) ?_
  · intro shift hmem u u' hu
    have hshift : ∀ e ∈ shift.typeExprs, BracketFree e.innermost.name :=
      fun e he => hfree e (List.mem_flatMap.mpr ⟨shift, hmem, he⟩)
    refine (shift.carries_elaborate hu.1 hu.2 hshift).yields.mono ?_
    rintro _ v _ v' ⟨-, hv, hv'⟩
    have hconnects := fun t u => @Connects.elaborates t u
    exact ⟨trivial, hstays hu (hv.reaches ((shift.elaborate_within id u).mono hconnects))
      (hv'.reaches ((shift.elaborate_within id' u').mono hconnects))⟩
  · exact fun _ _ _ _ _ => carries_pure trivial

end Shifts

end LibraryContract
