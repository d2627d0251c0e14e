import LibraryContract.Proofs.Origin
import LibraryContract.Proofs.Passage

/-!
# The history of an analysis

The history of an analysis is the list of the tables that it goes through, from the empty one to
that of the library. What is found in one of them is found in all later ones, so it does not matter
at which time a reference is resolved.

* `Run.history`: the tables of an analysis;
* `Run.follows_naming`, `Run.follows_elaborating`: each table leads on to the next;
* `Run.resolution_stable`: each table persists in all later ones.
-/

namespace LibraryContract

open SyntaxTree Build

variable {α β : Type}

namespace Run

/-- The declarations of types that are looked at a second time. -/
def acceptedTypes (library : SyntaxTree.Library) : List TypeDecl :=
  (start.collect (fun d => do d.declare; return d) library.types).1

/-- The registration of all names. -/
def naming (options : Options) (library : SyntaxTree.Library) : List Passage :=
  library.types.map (fun d => Passage.once d.declare) ++
    (acceptedTypes library).map (fun d => Passage.once d.validate) ++
    library.annotations.map (fun d => Passage.once d.declare) ++
    library.globals.map (fun d => Passage.once (d.declare .global)) ++
    library.automata.map (fun d => Passage.stepwise d.parts fun k => (d.upTo k).declare) ++
    (placed library).map (fun item => Passage.once (item.1.register options item.2))

/-- What is looked at when all names are registered. -/
def elaborating (options : Options) (library : SyntaxTree.Library) : List Passage :=
  (withGlobals library).1.map (fun p => Passage.once (p.elaborate .global)) ++
    (withAutomata library).1.flatMap (fun a =>
      a.initializers.map (fun p => Passage.once (p.elaborate (.inAutomaton a.id))) ++
        a.declaration.shifts.map fun shift => Passage.once (shift.elaborate a.id)) ++
    (withSignatures options library).1.map fun o =>
      Passage.stepwise o.declaration.parts fun k => (o.declaration.upTo k).elaborate o.id

/-- The tables up to the registration of the last operation. -/
def namingHistory (options : Options) (library : SyntaxTree.Library) : List SymbolTable :=
  .empty :: Passage.all (naming options library) .empty

/-- The tables after that. -/
def elaboratingHistory (options : Options) (library : SyntaxTree.Library) : List SymbolTable :=
  Passage.all (elaborating options library) (withSignatures options library).2.table

/-- The tables of an analysis, from the first to the last. -/
def history (options : Options) (library : SyntaxTree.Library) : List SymbolTable :=
  namingHistory options library ++ elaboratingHistory options library

/-! ## Where an analysis ends -/

variable (options : Options) (library : SyntaxTree.Library)

theorem last_performAll (step : α → Build β) (items : List α) (r : Run) :
    (Passage.all (items.map fun a => .once (step a))).last r.table =
      (r.performAll step items).table := by
  have hstep : ∀ (r : Run) (a : α),
      (Passage.once (step a)).last r.table = (r.perform (step a)).table :=
    fun r a => (table_settle (step a) r).symm
  exact Passage.last_all_map hstep items r

theorem last_collect {f : α → Passage} {step : α → Build β}
    (h : ∀ a t, (f a).last t = ((step a).run t).2) (items : List α) (r : Run) :
    (Passage.all (items.map f)).last r.table = (r.collect step items).2.table := by
  induction items generalizing r with
  | nil => rfl
  | cons a rest ih =>
    rw [List.map_cons, Passage.last_all_cons, h, ← table_settle, ih, collect_cons]

/-- Steps that are run for their items leave the same tables. -/
theorem last_collect_return (step : α → Build β) (items : List α) (r : Run) :
    (Passage.all (items.map fun a => .once (step a))).last r.table =
      (r.collect (fun a => do let _ ← step a; return a) items).2.table := by
  have hstep : ∀ a t, (Passage.once (step a)).last t =
      ((step a >>= fun _ => (Pure.pure a : Build α)).run t).2 :=
    fun a t => (run_bind_pure_snd (step a) (fun _ => a) t).symm
  exact last_collect hstep items r

theorem last_registerSignatures (items : List Placed) (state : List PendingOperation × Run) :
    (Passage.all (items.map fun item => .once (item.1.register options item.2))).last
        state.2.table = (items.foldl (registerSignature options) state).2.table := by
  have hstep : ∀ (state : List PendingOperation × Run) (item : Placed),
      (Passage.once (item.1.register options item.2)).last state.2.table =
        (registerSignature options state item).2.table := by
    intro state item
    rw [registerSignature_snd, table_settle]
    rfl
  exact Passage.last_all_map hstep items state

/-- The registration of the names ends with the table in which all are registered. -/
theorem last_naming :
    (Passage.all (naming options library)).last .empty =
      (withSignatures options library).2.table := by
  have htypes := last_collect_return TypeDecl.declare library.types start
  have hvalidated : _ = (withTypes library).table :=
    last_performAll TypeDecl.validate (acceptedTypes library) _
  have hannotations : _ = (withAnnotations library).table :=
    last_performAll AnnotationDecl.declare library.annotations _
  have hglobals : _ = (withGlobals library).2.table :=
    last_collect_return (VariableDecl.declare .global) library.globals _
  have hwhole : ∀ (d : AutomatonDecl) t,
      (Passage.stepwise d.parts fun k => (d.upTo k).declare).last t = (d.declare.run t).2 := by
    intro d t
    rw [Passage.last_stepwise, d.upTo_parts]
  have hautomata : _ = (withAutomata library).2.table :=
    last_collect hwhole library.automata (withGlobals library).2
  have hsignatures : _ = (withSignatures options library).2.table :=
    last_registerSignatures options (placed library) ([], (withAutomata library).2)
  unfold naming
  simp only [Passage.last_all_append]
  rw [← hsignatures, ← hautomata, ← hglobals, ← hannotations, ← hvalidated, ← htypes]
  rfl

theorem last_elaborateAutomata (automata : List PendingAutomaton) (r : Run) :
    (Passage.all (automata.flatMap fun a =>
        a.initializers.map (fun p => .once (p.elaborate (.inAutomaton a.id))) ++
          a.declaration.shifts.map fun shift => .once (shift.elaborate a.id))).last r.table =
      (automata.foldl elaborateAutomaton r).table := by
  induction automata generalizing r with
  | nil => rfl
  | cons a rest ih =>
    rw [List.flatMap_cons, Passage.last_all_append, Passage.last_all_append, last_performAll,
      last_performAll]
    exact ih _

theorem last_elaborating :
    (Passage.all (elaborating options library)).last (withSignatures options library).2.table =
      (analyze options library).table := by
  have hinitials : _ = (withInitials options library).table :=
    last_performAll (PendingInitializer.elaborate .global) (withGlobals library).1 _
  have hshifts : _ = (withShifts options library).table :=
    last_elaborateAutomata (withAutomata library).1 (withInitials options library)
  have hwhole : ∀ (r : Run) (o : PendingOperation),
      (Passage.stepwise o.declaration.parts fun k => (o.declaration.upTo k).elaborate o.id).last
        r.table = (r.perform (o.declaration.elaborate o.id)).table := by
    intro r o
    rw [Passage.last_stepwise, o.declaration.upTo_parts]
    exact (table_settle _ r).symm
  have hbodies : _ = (analyze options library).table :=
    Passage.last_all_map hwhole (withSignatures options library).1 (withShifts options library)
  unfold elaborating
  simp only [Passage.last_all_append]
  rw [← hbodies, ← hshifts, ← hinitials]

/-! ## Steps of an analysis -/

/-- Every registration leads on. -/
theorem follows_naming (t : SymbolTable) :
    (Passage.all (naming options library)).Follows SymbolTable.Leads t := by
  have hdeclares : ∀ (b : Build Unit) t, b.Within Declares t →
      (Passage.once b).Follows SymbolTable.Leads t :=
    fun b t h => Passage.follows_once (.of_reflTransGen h fun _ _ => Declares.leads)
  have hglobal : VariableScope.global.OutsideOperations := trivial
  refine Passage.follows_all ?_ t
  simp only [naming, List.forall_mem_append, List.forall_mem_map]
  refine ⟨⟨⟨⟨⟨fun d _ t => ?_, fun d _ t => ?_⟩, fun d _ t => ?_⟩, fun d _ t => ?_⟩,
    fun d _ t => ?_⟩, fun item _ t => ?_⟩
  · exact hdeclares _ t (d.declare_within t)
  · exact hdeclares _ t ((d.validate_within t).mono fun _ _ => Interns.declares)
  · exact hdeclares _ t ((d.declare_within t).mono fun _ _ => .furnishes)
  · exact hdeclares _ t ((d.declare_within hglobal t).mono fun _ _ => .furnishes)
  · refine Passage.follows_stepwise ?_ fun k _ => d.declare_upTo k t
    exact .of_reflTransGen ((d.upTo 0).declare_within t) fun _ _ => Declares.leads
  · refine Passage.follows_once (.of_reflTransGen ?_ fun _ _ => Signs.leads)
    exact item.1.register_within options item.2 t

/-! ### Values and shifts -/

/-- The variables whose values are still to come have none. -/
def Awaits (ps : List PendingInitializer) (t : SymbolTable) : Prop :=
  ∀ p ∈ ps, p.scope.OutsideOperations ∧ t.initial? p.scope p.name = none

/-- The table leads on, and the variables of these values are left alone. -/
structure Spares (ps : List PendingInitializer) (t u : SymbolTable) : Prop where
  leadsOn : t.LeadsOn u
  awaits : Awaits ps t → Awaits ps u

theorem Spares.of_reflTransGen {ps : List PendingInitializer}
    {S : SymbolTable → SymbolTable → Prop} {t u : SymbolTable}
    (h : Relation.ReflTransGen S t u) (hS : ∀ t u, S t u → Spares ps t u) : Spares ps t u := by
  induction h with
  | refl => exact ⟨.refl t, id⟩
  | tail _ hstep ih =>
    have hnext := hS _ _ hstep
    exact ⟨ih.leadsOn.trans hnext.leadsOn, fun h => hnext.awaits (ih.awaits h)⟩

theorem spares_of_connects {ps : List PendingInitializer} {t u : SymbolTable} (h : Connects t u) :
    Spares ps t u := by
  refine ⟨h.leadsOn, fun hps p hp => ?_⟩
  obtain ⟨hscope, hnone⟩ := hps p hp
  refine ⟨hscope, ?_⟩
  rw [SymbolTable.initial?, h.variablesIn]
  exact hnone

/-- A variable gains its value once, and the other variables wait for theirs. -/
theorem spares_value {p : PendingInitializer} {rest : List PendingInitializer} {t : SymbolTable}
    (hapart : ∀ q ∈ rest, p.Apart q) (h : Awaits (p :: rest) t) (scope : Scope) :
    Spares rest t ((p.elaborate scope).run t).2 := by
  obtain ⟨hscope, hnone⟩ := h p List.mem_cons_self
  refine .of_reflTransGen (S := Spares rest) ?_ fun _ _ h => h
  refine within_bind (within_liftM _) fun value u hu => ?_
  obtain ⟨-, rfl⟩ := yields_liftM.mp hu
  refine within_modify ⟨leadsOn_setInitial hnone value, fun hrest q hq => ?_⟩
  obtain ⟨hscopes, hother⟩ := hrest q hq
  refine ⟨hscopes, ?_⟩
  rw [SymbolTable.initial?, SymbolTable.get?_setInitial t hscopes hscope, if_neg ?_]
  · exact hother
  · rintro ⟨hsame, hname⟩
    exact hapart q hq hsame hname.symm

theorem follows_values {ps rest : List PendingInitializer} {t : SymbolTable}
    (hapart : (ps ++ rest).Pairwise PendingInitializer.Apart) (h : Awaits (ps ++ rest) t)
    (scope : Scope) :
    (Passage.all (ps.map fun p => .once (p.elaborate scope))).Follows SymbolTable.LeadsOn t ∧
      Awaits rest ((Passage.all (ps.map fun p => .once (p.elaborate scope))).last t) := by
  induction ps generalizing t with
  | nil => exact ⟨.singleton t, h⟩
  | cons p ps ih =>
    obtain ⟨hfirst, hothers⟩ := List.pairwise_cons.mp hapart
    have hstep := spares_value hfirst h scope
    obtain ⟨hfollows, hrest⟩ := ih hothers
      (hstep.awaits fun q hq => h q (List.mem_cons_of_mem p hq))
    refine ⟨Passage.follows_all_cons (Passage.follows_once hstep.leadsOn) hfollows, ?_⟩
    rw [List.map_cons, Passage.last_all_cons]
    exact hrest

theorem follows_shifts {rest : List PendingInitializer} {t : SymbolTable} (h : Awaits rest t)
    (id : AutomatonId) (shifts : List ShiftDecl) :
    (Passage.all (shifts.map fun s => .once (s.elaborate id))).Follows SymbolTable.LeadsOn t ∧
      Awaits rest ((Passage.all (shifts.map fun s => .once (s.elaborate id))).last t) := by
  induction shifts generalizing t with
  | nil => exact ⟨.singleton t, h⟩
  | cons s shifts ih =>
    have hstep : Spares rest t ((s.elaborate id).run t).2 :=
      .of_reflTransGen (s.elaborate_within id t) fun _ _ => spares_of_connects
    obtain ⟨hfollows, hrest⟩ := ih (hstep.awaits h)
    refine ⟨Passage.follows_all_cons (Passage.follows_once hstep.leadsOn) hfollows, ?_⟩
    rw [List.map_cons, Passage.last_all_cons]
    exact hrest

theorem follows_automata {automata : List PendingAutomaton} {t : SymbolTable}
    (hapart : (automata.flatMap PendingAutomaton.initializers).Pairwise PendingInitializer.Apart)
    (h : Awaits (automata.flatMap PendingAutomaton.initializers) t) :
    (Passage.all (automata.flatMap fun a =>
      a.initializers.map (fun p => .once (p.elaborate (.inAutomaton a.id))) ++
        a.declaration.shifts.map fun shift => .once (shift.elaborate a.id))).Follows
          SymbolTable.LeadsOn t := by
  induction automata generalizing t with
  | nil => exact .singleton t
  | cons a rest ih =>
    rw [List.flatMap_cons] at hapart h ⊢
    obtain ⟨hvalues, hrest⟩ := follows_values hapart h (.inAutomaton a.id)
    obtain ⟨hshifts, hrest⟩ := follows_shifts hrest a.id a.declaration.shifts
    refine Passage.follows_all_append (Passage.follows_all_append hvalues hshifts) ?_
    rw [Passage.last_all_append]
    exact ih (List.pairwise_append.mp hapart).2.1 hrest

theorem follows_operation (o : PendingOperation) (t : SymbolTable) :
    (Passage.stepwise o.declaration.parts fun k =>
      (o.declaration.upTo k).elaborate o.id).Follows SymbolTable.LeadsOn t := by
  refine Passage.follows_stepwise ?_ fun k _ => o.declaration.elaborate_upTo o.id k t
  exact .of_reflTransGen ((o.declaration.upTo 0).elaborate_leadsOn o.id t) fun _ _ h => h

/-- Every value, shift, contract and statement leads on. -/
theorem follows_elaborating :
    (Passage.all (elaborating options library)).Follows SymbolTable.LeadsOn
      (withSignatures options library).2.table := by
  have hapart := valuesLeft_apart library
  have hawaits : Awaits (valuesLeft library) (withSignatures options library).2.table := by
    intro p hp
    obtain ⟨hscope, -⟩ := valuesLeft_belongs library p hp
    refine ⟨hscope, ?_⟩
    cases hv : ((withSignatures options library).2.table.variablesIn p.scope).get? p.name with
    | none => rw [SymbolTable.initial?, hv, Option.bind_none]
    | some v =>
      rw [SymbolTable.initial?, hv, Option.bind_some]
      exact withSignatures_uninitialized options library p.scope hscope p.name v hv
  obtain ⟨hglobals, hrest⟩ := follows_values hapart hawaits .global
  refine Passage.follows_all_append (Passage.follows_all_append hglobals ?_) ?_
  · exact follows_automata (List.pairwise_append.mp hapart).2.1 hrest
  · refine Passage.follows_all ?_ _
    exact List.forall_mem_map.mpr fun o _ => follows_operation o

/-! ## The whole history -/

theorem getLast?_namingHistory :
    (namingHistory options library).getLast? = some (withSignatures options library).2.table := by
  rw [namingHistory, List.getLast?_cons, ← List.getLastD_eq_getLast?]
  exact congrArg some (last_naming options library)

theorem getLast?_history :
    (history options library).getLast? = some (analyze options library).table := by
  have hlast : (Passage.all (naming options library) .empty).getLastD .empty =
      (withSignatures options library).2.table := last_naming options library
  rw [history, namingHistory, List.cons_append, List.getLast?_cons, ← List.getLastD_eq_getLast?,
    Passage.getLastD_append, hlast]
  exact congrArg some (last_elaborating options library)

theorem isChain_history : List.IsChain SymbolTable.Leads (history options library) := by
  have hlast : (Passage.all (naming options library) .empty).getLastD .empty =
      (withSignatures options library).2.table := last_naming options library
  refine Passage.isChain_cons_append (follows_naming options library .empty) ?_
  rw [hlast]
  exact (follows_elaborating options library).imp fun _ _ h => h.leads

/-- Everything in a table of the history is in all later ones, and is found there under the same
references. When all operations are registered, even the name of an operation on its own leads to
the same result for good. -/
theorem resolution_stable :
    (history options library).head? = some .empty ∧
      (namingHistory options library).getLast? = some (withSignatures options library).2.table ∧
      (history options library).getLast? = some (analyze options library).table ∧
      (history options library).Pairwise SymbolTable.PersistsIn ∧
      ∀ t ∈ elaboratingHistory options library, ∀ name automaton,
        t.lookupOperation name automaton none =
          (withSignatures options library).2.table.lookupOperation name automaton none := by
  refine ⟨rfl, getLast?_namingHistory options library, getLast?_history options library, ?_, ?_⟩
  · have hleads : (history options library).Pairwise SymbolTable.Leads :=
      (isChain_history options library).pairwise
    -- the first table is well formed, and so all are
    have hwell : ∀ t ∈ history options library, t.WellFormed := by
      rw [history, namingHistory, List.cons_append] at hleads ⊢
      refine List.forall_mem_cons.mpr ⟨.empty, fun t ht => ?_⟩
      exact ((List.pairwise_cons.mp hleads).1 t ht .empty).1
    exact hleads.imp_of_mem fun ht _ h => (h (hwell _ ht)).2
  · intro t ht name automaton
    have hleads := (follows_elaborating options library).pairwise
    have hids := ((List.pairwise_cons.mp hleads).1 t ht).operationIds
    unfold SymbolTable.lookupOperation
    rw [hids]

end Run

end LibraryContract
