import LibraryContract.Proofs.Filling

/-!
# What a failed step leaves behind

A step of the analysis may have looked up half of what it needs before it gives up. None of that
stays: the only traces are arrays of types that exist, and these are worth having anyway. In the
other direction, a step that ends with a value has had nothing to complain about.

* `SymbolTable.GainsArrays`: the tables are the same but for array types;
* `Build.Strict`: the step ends with a value only if it has found no error, with one lemma for each
  way of building a step;
* `Build.AllOrNothing`: what can be said of a step however it ends;
* `steps_all_or_nothing`: this holds of signatures, contracts, statements and variables, in every
  table.

Signatures are the hardest of these, since the operation is in the table before the variable for its
result is. That variable is never refused (`FunctionDecl.run_declareResult`).
-/

namespace LibraryContract

open SyntaxTree Build

/-! ## Array types -/

/-- The registry `s` is `r` with arrays added, each of a type that is registered. -/
def TypeRegistry.GainsArrays (r s : TypeRegistry) : Prop :=
  ∃ elements : List String,
    s.types.entries =
      r.types.entries ++ elements.map (fun e => (DataType.arrayName e, DataType.array e)) ∧
    ∀ e ∈ elements, s.contains e = true

/-- The table `u` is `t` with arrays of known types added, and nothing else. -/
structure SymbolTable.GainsArrays (t u : SymbolTable) : Prop where
  rest : u = { t with types := u.types }
  types : t.types.GainsArrays u.types

theorem TypeRegistry.GainsArrays.internArray {r s : TypeRegistry} {element : String}
    (h : r.GainsArrays s) (helement : s.contains element = true) :
    r.GainsArrays (s.internArray element) := by
  unfold TypeRegistry.internArray TypeRegistry.insert?
  split
  · exact h
  · rename_i hnew
    obtain ⟨elements, hentries, hknown⟩ := h
    have hcontains : ∀ name, s.contains name = true →
        (s.types.insert (DataType.array element).name (.array element)).contains name = true := by
      intro name hname
      rw [OrderedMap.contains_insert, Bool.or_eq_true]
      exact Or.inr hname
    refine ⟨elements ++ [element], ?_, ?_⟩
    · rw [Option.getD_some, OrderedMap.entries_insert_of_not_contains (eq_false_of_ne_true hnew),
        hentries, List.map_append, List.append_assoc]
      rfl
    · rw [List.forall_mem_append, List.forall_mem_singleton]
      exact ⟨fun e he => hcontains e (hknown e he), hcontains element helement⟩

theorem Interns.gainsArrays {t u : SymbolTable} (h : Relation.ReflTransGen Interns t u) :
    t.GainsArrays u := by
  induction h with
  | refl => exact ⟨rfl, [], by simp⟩
  | @tail v w _ hstep ih =>
    cases hstep with
    | @array element helement =>
      obtain ⟨hrest, htypes⟩ := ih
      refine ⟨?_, htypes.internArray (SymbolTable.knows_iff_contains.mp helement)⟩
      rw [SymbolTable.internArray, hrest]

/-! ## Steps that end well -/

variable {α β : Type}

/-- A step that ends with a value has found no error. -/
def Check.Strict (c : Check α) : Prop :=
  ∀ t a, c.Yields t a → (c.run t).diagnostics.hasErrors = false

/-- A step that ends with a value has found no error. -/
def Build.Strict (b : Build α) : Prop := ∀ t a u, b.Yields t a u → b.Clean t a u

namespace Check

theorem Warnless.strict {c : Check α} (h : c.Warnless) : c.Strict := by
  intro t a ha
  rw [h.silent ha]
  rfl

theorem strict_warn (kind : DiagnosticKind) (message : String) (span : Span) :
    (warn kind message span).Strict := by
  intro t a _
  rfl

theorem strict_bind {c : Check α} {f : α → Check β} (hc : c.Strict) (hf : ∀ a, (f a).Strict) :
    (c >>= f).Strict := by
  intro t b hb
  obtain ⟨a, ha, hb⟩ := yields_bind.mp hb
  show ((bind c f).run t).diagnostics.hasErrors = false
  rw [run_bind_of_ok ha, Diagnostics.hasErrors_append, hc t a ha, hf a t b hb, Bool.or_false]

theorem strict_ite {p : Prop} [Decidable p] {c d : Check α} (hc : c.Strict) (hd : d.Strict) :
    (if p then c else d).Strict := by
  split
  · exact hc
  · exact hd

end Check

namespace Build

theorem strict_pure (a : α) : (Pure.pure a : Build α).Strict := by
  intro t b u h
  exact clean_pure.mpr (yields_pure.mp h)

theorem strict_bind {b : Build α} {f : α → Build β} (hb : b.Strict) (hf : ∀ a, (f a).Strict) :
    (b >>= f).Strict := by
  intro t c u h
  obtain ⟨a, s, ha, hc⟩ := yields_bind.mp h
  exact clean_bind.mpr ⟨a, s, hb t a s ha, hf a s c u hc⟩

theorem strict_liftM {c : Check α} (hc : c.Strict) : (liftM c : Build α).Strict := by
  intro t a u h
  exact ⟨h, hc t a (yields_liftM.mp h).1⟩

theorem strict_modify (f : SymbolTable → SymbolTable) : (modify f).Strict := by
  intro t a u h
  exact clean_modify.mpr (yields_modify.mp h)

theorem strict_register (f : SymbolTable → Except RegistrationError (α × SymbolTable))
    (span : Span) : (Build.register f span).Strict := by
  intro t a u h
  exact clean_register.mpr (yields_register.mp h)

theorem strict_registerUnit (f : SymbolTable → Except RegistrationError SymbolTable)
    (span : Span) : (registerUnit f span).Strict := strict_register _ span

theorem strict_ite {p : Prop} [Decidable p] {b c : Build α} (hb : b.Strict) (hc : c.Strict) :
    (if p then b else c).Strict := by
  split
  · exact hb
  · exact hc

/-- An error may be reported first. -/
theorem strict_guard {p : Prop} [Decidable p] {b : Build α} {c : Build β} (hb : b.Strict)
    (hc : c.Strict) : (if p then b >>= fun _ => c else c).Strict :=
  strict_ite (strict_bind hb fun _ => hc) hc

theorem strict_mapM {f : α → Build β} (hf : ∀ a, (f a).Strict) (items : List α) :
    (items.mapM f).Strict := by
  induction items with
  | nil => exact strict_pure _
  | cons a rest ih =>
    rw [List.mapM_cons]
    exact strict_bind (hf a) fun b => strict_bind ih fun bs => strict_pure _

theorem strict_optionMapM {f : α → Build β} (hf : ∀ a, (f a).Strict) (item : Option α) :
    (item.mapM f).Strict := by
  cases item with
  | none => exact strict_pure _
  | some a => exact strict_bind (hf a) fun b => strict_pure _

end Build

/-! ## The steps of an analysis -/

namespace SyntaxTree

theorem TypeExpr.strict_resolve (e : TypeExpr) : e.resolve.Strict := by
  induction e with
  | named name =>
    refine strict_bind (strict_liftM (Check.Warnless.look _).strict) fun known => ?_
    exact strict_ite (strict_pure _) (strict_liftM (Check.Warnless.fail _ _ _).strict)
  | array element ih =>
    exact strict_bind ih fun inner => strict_bind (strict_modify _) fun _ => strict_pure _

theorem Parameter.strict_resolve (scope : Scope) (index : Nat) (p : Parameter) :
    (p.resolve scope index).Strict := by
  refine strict_bind (strict_liftM (warnless_resolveAnnotations _ _).strict) fun annotations => ?_
  refine strict_ite ?_ (strict_bind p.type.strict_resolve fun type => strict_pure _)
  refine strict_bind (strict_liftM p.warnless_resolveTarget.strict) fun target => ?_
  exact strict_bind (strict_liftM (Check.Warnless.look _).strict) fun type => strict_pure _

theorem Parameter.strict_resolveAll (scope : Scope) (words : String) (seen : List String)
    (index : Nat) (ps : List Parameter) :
    (Parameter.resolveAll scope words seen index ps).Strict := by
  induction ps generalizing seen index with
  | nil => exact strict_pure _
  | cons p rest ih =>
    refine strict_guard (strict_liftM (Check.Warnless.fail _ _ _).strict) ?_
    refine strict_bind (p.strict_resolve scope index) fun argument => ?_
    exact strict_bind (ih _ _) fun _ => strict_pure _

namespace FunctionDecl

theorem strict_resolveOwner (options : Options) (d : FunctionDecl)
    (enclosing : Option AutomatonId) : (d.resolveOwner options enclosing).Strict := by
  unfold resolveOwner
  split
  · refine Check.strict_bind (Check.Warnless.look _).strict fun name => ?_
    refine Check.strict_ite ?_ (Check.Warnless.fail _ _ _).strict
    exact Check.strict_bind (Check.strict_warn _ _ _) fun _ => (Check.Warnless.pure _).strict
  · exact (Identifier.warnless_resolveAutomaton _).strict
  · exact (Check.Warnless.pure _).strict
  · exact (Check.Warnless.fail _ _ _).strict

theorem strict_signature (d : FunctionDecl) (owner : AutomatonId) : (d.signature owner).Strict := by
  refine strict_bind (strict_liftM (Check.Warnless.look _).strict) fun name => ?_
  refine strict_bind (strict_liftM (warnless_resolveAnnotations _ _).strict) fun annotations => ?_
  refine strict_bind (Parameter.strict_resolveAll _ _ _ _ _) fun arguments => ?_
  refine strict_bind (strict_optionMapM (fun e => e.strict_resolve) _) fun returnType => ?_
  exact strict_bind (strict_liftM (Check.Warnless.look _).strict) fun _ => strict_pure _

theorem strict_declareResult (id : OperationId) (span : Span) : (declareResult id span).Strict := by
  intro t a u h
  refine ⟨h, ?_⟩
  rw [run_declareResult]
  rfl

theorem strict_register (options : Options) (d : FunctionDecl) (enclosing : Option AutomatonId) :
    (d.register options enclosing).Strict := by
  refine strict_bind (strict_liftM (d.strict_resolveOwner options enclosing)) fun owner => ?_
  refine strict_bind (d.strict_signature owner) fun s => ?_
  refine strict_bind (Build.strict_register _ _) fun r => ?_
  exact strict_bind (strict_declareResult _ _) fun _ => strict_pure _

end FunctionDecl

theorem VariableDecl.strict_declare (scope : VariableScope) (d : VariableDecl) :
    (d.declare scope).Strict :=
  strict_bind d.type.strict_resolve fun _ => strict_registerUnit _ _

theorem VariableDecl.strict_declareLocal (scope : Scope) (id : OperationId) (d : VariableDecl) :
    (d.declareLocal scope id).Strict := by
  refine strict_bind (strict_liftM (Check.Warnless.look _).strict) fun operation => ?_
  refine strict_guard (strict_liftM (Check.Warnless.fail _ _ _).strict) ?_
  refine strict_bind d.type.strict_resolve fun type => ?_
  refine strict_bind (strict_optionMapM (fun e => ?_) _) fun initial => ?_
  · exact strict_liftM (e.warnless_elaborate scope).strict
  · exact strict_bind (strict_registerUnit _ _) fun _ => strict_pure _

theorem Statement.strict_elaborate (scope : Scope) (id : OperationId) (s : Statement) :
    (s.elaborate scope id).Strict := by
  cases s with
  | assignment target value call span =>
    cases value with
    | none =>
      cases call with
      | none => exact strict_liftM (Check.Warnless.reject _ _).strict
      | some call =>
        refine strict_bind (strict_liftM (target.warnless_resolve scope).strict) fun target => ?_
        exact strict_bind (strict_liftM (call.warnless_resolve scope).strict) fun _ => strict_pure _
    | some value =>
      cases call with
      | none =>
        refine strict_bind (strict_liftM (target.warnless_resolve scope).strict) fun target => ?_
        exact strict_bind (strict_liftM (value.warnless_elaborate scope).strict) fun _ => strict_pure _
      | some call => exact strict_liftM (Check.Warnless.reject _ _).strict
  | action name arguments span =>
    refine strict_bind (strict_mapM (fun e => ?_) _) fun _ => strict_pure _
    exact strict_liftM (e.warnless_elaborate scope).strict
  | «variable» declaration => exact declaration.strict_declareLocal scope id

theorem VariableDecl.declare_givesUp (scope : VariableScope) (d : VariableDecl) (t : SymbolTable) :
    (d.declare scope).GivesUpWithin Interns t :=
  givesUpWithin_bind (d.type.resolve_within t) fun _ _ _ => givesUpWithin_register _ _

end SyntaxTree

/-! ## However a step ends -/

/-- A step that fails adds nothing but arrays of known types, and says so unless the tree is
malformed. A step that ends with a value has found no error. -/
structure Build.AllOrNothing (b : Build α) (t : SymbolTable) : Prop where
  keeps : ∀ e, (b.run t).1.result = .error e → t.GainsArrays (b.run t).2
  reports : (b.run t).1.result = .error .reported → (b.run t).1.diagnostics.hasErrors = true
  ends : ∀ a, (b.run t).1.result = .ok a → (b.run t).1.diagnostics.hasErrors = false

theorem Build.GivesUpWithin.allOrNothing {b : Build α} {t : SymbolTable}
    (h : b.GivesUpWithin Interns t) (hcandid : b.Candid) (hstrict : b.Strict) :
    b.AllOrNothing t where
  keeps := fun e he => Interns.gainsArrays (h e he)
  reports := hcandid t
  ends := fun a ha => (hstrict t a _ ⟨ha, rfl⟩).2

/-- Signatures, contracts, statements and variables come into the table whole or not at all. -/
theorem steps_all_or_nothing (t : SymbolTable) :
    (∀ options (d : FunctionDecl) enclosing, (d.register options enclosing).AllOrNothing t) ∧
    (∀ scope (d : ContractDecl), (Build.ofCheck (d.elaborate scope)).AllOrNothing t) ∧
    (∀ scope id (s : SyntaxTree.Statement), (s.elaborate scope id).AllOrNothing t) ∧
    (∀ scope (d : VariableDecl), (d.declare scope).AllOrNothing t) ∧
    (∀ v span, (Build.registerUnit (fun t => t.registerVariable v) span).AllOrNothing t) := by
  refine ⟨fun options d enclosing => ?_, fun scope d => ?_, fun scope id s => ?_,
    fun scope d => ?_, fun v span => ?_⟩
  · exact (d.register_givesUp options enclosing t).allOrNothing
      (d.candid_register options enclosing) (d.strict_register options enclosing)
  · have hgivesUp : (Build.ofCheck (d.elaborate scope)).GivesUpWithin Interns t :=
      fun _ _ => within_ofCheck _
    exact hgivesUp.allOrNothing (d.candid_elaborate scope)
      (strict_liftM (d.warnless_elaborate scope).strict)
  · exact (s.elaborate_givesUp scope id t).allOrNothing (s.candid_elaborate scope id)
      (s.strict_elaborate scope id)
  · exact (d.declare_givesUp scope t).allOrNothing (d.candid_declare scope) (d.strict_declare scope)
  · exact (givesUpWithin_register _ span).allOrNothing (candid_register _ span)
      (strict_registerUnit _ span)

end LibraryContract
