import LibraryContract.Proofs.Completion
import LibraryContract.Proofs.Requests
import LibraryContract.Proofs.TypesInTurn

/-!
# How a declaration of shifts expands

One declaration stands for several shifts, one from each of its sources. Everything but the sources
is its head: the target and the operations that cause the shifts. Without a good head there is no
shift at all, and one error; with it there is a shift from each good source, and an error for each
other one, both in the order of the sources.

* `Automaton.source?`, `Automaton.target?`: what a name stands for at either end of a shift. The
  words for every state and for the present one win over states of these names;
* `ShiftDecl.Leads`: the head is good;
* `ShiftDecl.perform_of_leads`, `ShiftDecl.perform_of_not_leads`: what a declaration does;
* `shifts_expand`: this, and that a declaration does the same as one declaration for each source.
-/

namespace LibraryContract

open SyntaxTree Build
open TypeExpr (KnownInTurn internAll)

variable {t u : SymbolTable} {id : AutomatonId} {a : Automaton} {d : ShiftDecl} {r : Run}

namespace Automaton

/-- The start of a shift that a name stands for. -/
def source? (a : Automaton) (name : String) : Option Endpoint :=
  if name = Endpoint.anyWord then some .any
  else if name = Endpoint.stayWord then none
  else if (a.state? name).isSome then some (.state name) else none

/-- The end of a shift that a name stands for. -/
def target? (a : Automaton) (name : String) : Option Endpoint :=
  if name = Endpoint.stayWord then some .stay
  else if name = Endpoint.anyWord then none
  else if (a.state? name).isSome then some (.state name) else none

/-- What is reported about a name that stands for no start. -/
def sourceFault (a : Automaton) (name : Identifier) : Diagnostic :=
  if name.name = Endpoint.stayWord then
    .error .invalidShift "'self' cannot be the source of a shift" name.span
  else
    .error .unknownState s!"unknown state '{name.name}' in automaton '{a.name}'" name.span

/-- The shifts from the names that stand for a start. -/
def shiftsFrom (a : Automaton) (target : Endpoint) (functions : List OperationId) (span : Span)
    (sources : List Identifier) : List Shift :=
  (sources.filterMap fun name => a.source? name.name).map fun source =>
    ⟨source, target, functions, span⟩

/-- What is reported about the names that stand for none. -/
def sourceFaults (a : Automaton) (sources : List Identifier) : Diagnostics :=
  (sources.filter fun name => (a.source? name.name).isNone).map a.sourceFault

theorem shiftsFrom_cons (a : Automaton) (target : Endpoint) (functions : List OperationId)
    (span : Span) (name : Identifier) (rest : List Identifier) :
    a.shiftsFrom target functions span (name :: rest) =
      a.shiftsFrom target functions span [name] ++ a.shiftsFrom target functions span rest := by
  simp only [shiftsFrom, ← List.map_append, ← List.filterMap_append, List.singleton_append]

theorem sourceFaults_cons (a : Automaton) (name : Identifier) (rest : List Identifier) :
    a.sourceFaults (name :: rest) = a.sourceFaults [name] ++ a.sourceFaults rest := by
  simp only [sourceFaults, ← List.map_append, ← List.filter_append, List.singleton_append]

theorem source?_state {name n : String} (h : a.source? name = some (.state n)) :
    (a.state? n).isSome = true ∧ n ≠ Endpoint.anyWord ∧ n ≠ Endpoint.stayWord := by
  unfold source? at h
  split_ifs at h with hany hstay hstate
  · cases h
  · cases h
    exact ⟨hstate, hany, hstay⟩

theorem target?_state {name n : String} (h : a.target? name = some (.state n)) :
    (a.state? n).isSome = true ∧ n ≠ Endpoint.anyWord ∧ n ≠ Endpoint.stayWord := by
  unfold target? at h
  split_ifs at h with hstay hany hstate
  · cases h
  · cases h
    exact ⟨hstate, hany, hstay⟩

/-- The shifts connect declared states, none of which has a name that stands for something else. -/
theorem shiftsFrom_endpoints {name : String} {target : Endpoint} (a : Automaton)
    (htarget : a.target? name = some target) (functions : List OperationId) (span : Span)
    (sources : List Identifier) :
    ∀ s ∈ a.shiftsFrom target functions span sources,
      ∀ n, s.source = .state n ∨ s.target = .state n →
      (a.state? n).isSome = true ∧ n ≠ Endpoint.anyWord ∧ n ≠ Endpoint.stayWord := by
  intro s hs n hn
  obtain ⟨source, hsource, rfl⟩ := List.mem_map.mp hs
  obtain ⟨name, -, hname⟩ := List.mem_filterMap.mp hsource
  rcases hn with rfl | rfl
  · exact source?_state hname
  · exact target?_state htarget

theorem addShifts_addShifts (a : Automaton) (new more : List Shift) :
    (a.addShifts new).addShifts more = a.addShifts (new ++ more) := by
  simp only [addShifts, List.append_assoc]

theorem addShifts_nil (a : Automaton) : a.addShifts [] = a := by
  simp only [addShifts, List.append_nil]

end Automaton

namespace SyntaxTree

/-! ## Names of states -/

theorem Identifier.run_resolveState (ha : t.automaton? id = some a) (name : Identifier) :
    (name.resolveState id).run t =
      if (a.state? name.name).isSome then ⟨.ok name.name, []⟩
      else ⟨.error .reported,
        [.error .unknownState s!"unknown state '{name.name}' in automaton '{a.name}'"
          name.span]⟩ := by
  refine (Check.run_look_bind _ _ t).trans ?_
  rw [ha]
  simp only [Option.bind_some, Option.map_some, Option.getD_some]
  split <;> rfl

/-- A source stands for a start, or it is reported. -/
theorem Identifier.run_resolveSource (ha : t.automaton? id = some a) (name : Identifier) :
    (name.resolveSource id).run t =
      match a.source? name.name with
      | some source => ⟨.ok source, []⟩
      | none => ⟨.error .reported, [a.sourceFault name]⟩ := by
  unfold Identifier.resolveSource Automaton.source? Automaton.sourceFault
  by_cases hany : name.name = Endpoint.anyWord
  · rw [if_pos hany, if_pos hany]
    rfl
  by_cases hstay : name.name = Endpoint.stayWord
  · simp only [if_neg hany, if_pos hstay]
    rfl
  simp only [if_neg hany, if_neg hstay]
  rw [Check.run_map, name.run_resolveState ha]
  split <;> rfl

theorem Identifier.inTurn_resolveTarget (ha : t.automaton? id = some a) (name : Identifier) :
    (liftM (name.resolveTarget id) : Build Endpoint).InTurn []
      (a.target? name.name = some ·) t := by
  unfold Identifier.resolveTarget Automaton.target?
  by_cases hstay : name.name = Endpoint.stayWord
  · rw [if_pos hstay, if_pos hstay]
    exact (inTurn_pure Endpoint.stay).congr fun target => by rw [Option.some.injEq]
  by_cases hany : name.name = Endpoint.anyWord
  · simp only [if_neg hstay, if_pos hany]
    exact (inTurn_fail _ _ _).congr fun target => by simp
  simp only [if_neg hstay, if_neg hany]
  have hrun := Check.run_map (name.resolveState id) Endpoint.state t
  rw [name.run_resolveState ha] at hrun
  by_cases hstate : (a.state? name.name).isSome = true
  · rw [if_pos hstate] at hrun ⊢
    exact (inTurn_of_ok hrun).congr fun target => by rw [Option.some.injEq]
  · rw [if_neg hstate] at hrun ⊢
    exact (inTurn_of_fault hrun rfl).congr fun target => by simp

namespace ShiftDecl

/-! ## Heads -/

/-- The head of the declaration is good: the target is there and stands for an end, and there are
triggers, which name operations by known types. -/
structure Leads (t : SymbolTable) (a : Automaton) (d : ShiftDecl) (target : Endpoint)
    (functions : List OperationId) : Prop where
  endpoint : ∃ name, d.target = some name ∧ a.target? name.name = some target
  functions_ne_nil : d.functions ≠ []
  types : KnownInTurn t d.typeExprs
  names : List.Forall₂ (Trigger.Names t a.name) d.functions functions

/-- Looks at everything but the sources. -/
def resolveHead (id : AutomatonId) (target : Identifier) (d : ShiftDecl) :
    Build (Endpoint × List OperationId) := do
  let automaton ← Check.look fun t => ((t.automaton? id).map Automaton.name).getD ""
  let target ← target.resolveTarget id
  let functions ← d.resolveTriggers automaton
  return (target, functions)

theorem elaborate_eq {name : Identifier} (htarget : d.target = some name)
    (hsources : d.sources ≠ []) :
    d.elaborate id = d.resolveHead id name >>= fun head =>
      addShifts id head.1 head.2 d.span d.sources := by
  unfold elaborate resolveHead
  rw [htarget]
  simp only [List.isEmpty_iff, if_neg hsources, bind_assoc, pure_bind]

theorem inTurn_resolveTriggers (automaton : String) (d : ShiftDecl) (t : SymbolTable) :
    (d.resolveTriggers automaton).InTurn d.typeExprs (fun functions =>
      d.functions ≠ [] ∧ List.Forall₂ (Trigger.Names t automaton) d.functions functions) t := by
  unfold resolveTriggers typeExprs
  by_cases hnil : d.functions = []
  · simp only [hnil, List.isEmpty_nil, if_true]
    exact (inTurn_fail _ _ _).congr fun functions => by simp
  · rw [if_neg (List.isEmpty_iff.not.mpr hnil)]
    have hall : (d.functions.mapM fun trigger : Trigger => trigger.resolve automaton).InTurn
        (d.functions.flatMap Trigger.typeExprs)
        (List.Forall₂ (Trigger.Names t automaton) d.functions) t :=
      inTurn_mapM fun trigger seen => trigger.inTurn_resolve automaton t seen
    exact hall.congr fun functions => (and_iff_right hnil).symm

theorem inTurn_resolveHead (ha : t.automaton? id = some a) (target : Identifier) (d : ShiftDecl) :
    (d.resolveHead id target).InTurn d.typeExprs (fun head =>
      a.target? target.name = some head.1 ∧ d.functions ≠ [] ∧
        List.Forall₂ (Trigger.Names t a.name) d.functions head.2) t := by
  have hname : ((t.automaton? id).map Automaton.name).getD "" = a.name := by rw [ha]; rfl
  unfold resolveHead
  refine inTurn_look_bind ?_
  rw [hname]
  have hboth := (target.inTurn_resolveTarget ha).bind fun target _ =>
    (d.inTurn_resolveTriggers a.name t).map fun functions => (target, functions)
  refine hboth.congr fun head => ?_
  constructor
  · rintro ⟨target, htarget, functions, hfunctions, rfl⟩
    exact ⟨htarget, hfunctions⟩
  · rintro ⟨htarget, hfunctions⟩
    exact ⟨head.1, htarget, head.2, hfunctions, rfl⟩

/-! ## Sources -/

theorem run_attempt_resolveSource (ha : t.automaton? id = some a) (name : Identifier) :
    (Build.ofCheck (name.resolveSource id)).attempt.run t =
      (⟨.ok (a.source? name.name), a.sourceFaults [name]⟩, t) := by
  have hrun := name.run_resolveSource ha
  simp only [attempt, ofCheck, hrun, Automaton.sourceFaults, List.filter_cons, List.filter_nil]
  cases a.source? name.name <;> rfl

theorem run_addShifts (ha : t.automaton? id = some a) (target : Endpoint)
    (functions : List OperationId) (span : Span) (sources : List Identifier) :
    (addShifts id target functions span sources).run t =
      (⟨.ok (), a.sourceFaults sources⟩, t.modifyAutomaton id
        (Automaton.addShifts (a.shiftsFrom target functions span sources))) := by
  induction sources generalizing t a with
  | nil =>
    have hnil : a.shiftsFrom target functions span [] = [] := rfl
    rw [hnil, t.addShifts_nil]
    rfl
  | cons name rest ih =>
    have hattempt := run_attempt_resolveSource ha name
    rw [addShifts]
    refine (run_bind_of_ok (a := a.source? name.name) (by rw [hattempt])).trans ?_
    rw [hattempt, a.sourceFaults_cons name rest, a.shiftsFrom_cons _ _ _ name rest]
    cases hsource : a.source? name.name with
    | none =>
      have hnone : a.shiftsFrom target functions span [name] = [] := by
        simp only [Automaton.shiftsFrom, List.filterMap_cons, hsource, List.filterMap_nil,
          List.map_nil]
      rw [hnone, List.nil_append]
      simp only [ih ha]
    | some source =>
      have hone : a.shiftsFrom target functions span [name] =
          [⟨source, target, functions, span⟩] := by
        simp only [Automaton.shiftsFrom, List.filterMap_cons, hsource, List.filterMap_nil,
          List.map_cons, List.map_nil]
      have hset : (t.modifyAutomaton id (Automaton.addShifts
          [⟨source, target, functions, span⟩])).automaton? id =
            some (a.addShifts [⟨source, target, functions, span⟩]) := by
        rw [SymbolTable.automaton?_modifyAutomaton, if_pos rfl, ha, Option.map_some]
      -- The rest adds its shifts to an automaton that has this one already.
      have hrest := ih hset
      rw [SymbolTable.addShifts_addShifts] at hrest
      rw [hone]
      have hadd : (Build.modify (fun t => t.modifyAutomaton id fun a =>
          { a with shifts := a.shifts ++ [⟨source, target, functions, span⟩] }) >>= fun _ =>
            addShifts id target functions span rest).run t = _ :=
        (run_modify_bind _ _ t).trans hrest
      dsimp only
      rw [hadd]
      rfl

/-! ## Whole declarations -/

variable {target : Endpoint} {functions : List OperationId}

theorem run_elaborate_of_leads (ha : t.automaton? id = some a) (hsources : d.sources ≠ [])
    (h : d.Leads t a target functions) :
    (d.elaborate id).run t = (⟨.ok (), a.sourceFaults d.sources⟩,
      (internAll d.typeExprs t).modifyAutomaton id
        (Automaton.addShifts (a.shiftsFrom target functions d.span d.sources))) := by
  obtain ⟨name, hname, htarget⟩ := h.endpoint
  have hhead := inTurn_resolveHead ha name d
  have hyields := (hhead.yields (target, functions) _).mpr
    ⟨h.types, ⟨htarget, h.functions_ne_nil, h.names⟩, rfl⟩
  rw [elaborate_eq hname hsources]
  rw [run_bind_of_silent (hhead.run_eq hyields)]
  exact run_addShifts ((TypeExpr.automaton?_internAll d.typeExprs t id).trans ha) _ _ _ _

/-- Without a good head or without a source, there is a malformed tree or one error. Some of the
types may have been looked at. -/
theorem run_elaborate_of_not_leads (ha : t.automaton? id = some a)
    (h : d.sources = [] ∨ ¬∃ target functions, d.Leads t a target functions) :
    (∃ m, (d.elaborate id).run t = (⟨.error (.malformed m), []⟩, t)) ∨
      ∃ seen e, seen <+: d.typeExprs ∧ KnownInTurn t seen ∧ e.isError = true ∧
        (d.elaborate id).run t = (⟨.error .reported, [e]⟩, internAll seen t) := by
  cases htarget : d.target with
  | none =>
    refine Or.inl ⟨⟨"shift declaration has no target state", d.span⟩, ?_⟩
    rw [elaborate, htarget]
    rfl
  | some name =>
    by_cases hsources : d.sources = []
    · refine Or.inl ⟨⟨"shift declaration has no source state", d.span⟩, ?_⟩
      rw [elaborate, htarget]
      simp only [hsources, List.isEmpty_nil, if_true]
      rfl
    · refine Or.inr ?_
      have hhead := inTurn_resolveHead ha name d
      have hno : ¬∃ head u, (d.resolveHead id name).Yields t head u := by
        rintro ⟨head, u, hyields⟩
        obtain ⟨hknown, ⟨hend, hnil, hnames⟩, -⟩ := (hhead.yields head u).mp hyields
        exact h.resolve_left hsources ⟨head.1, head.2, ⟨name, htarget, hend⟩, hnil, hknown, hnames⟩
      obtain ⟨seen, e, hseen, hknown, he, hrun⟩ := hhead.fails hno
      refine ⟨seen, e, hseen, hknown, he, ?_⟩
      rw [elaborate_eq htarget hsources]
      exact run_bind_of_abort hrun

theorem perform_of_leads (ha : r.table.automaton? id = some a) (hsources : d.sources ≠ [])
    (h : d.Leads r.table a target functions) :
    r.perform (d.elaborate id) = { r with
      table := (internAll d.typeExprs r.table).modifyAutomaton id
        (Automaton.addShifts (a.shiftsFrom target functions d.span d.sources))
      diagnostics := r.diagnostics ++ a.sourceFaults d.sources } := by
  simp only [Run.perform, Run.settle, run_elaborate_of_leads ha hsources h]

theorem automaton?_perform_of_leads (ha : r.table.automaton? id = some a) (hsources : d.sources ≠ [])
    (h : d.Leads r.table a target functions) :
    (r.perform (d.elaborate id)).table.automaton? id =
      some (a.addShifts (a.shiftsFrom target functions d.span d.sources)) := by
  rw [perform_of_leads ha hsources h, SymbolTable.automaton?_modifyAutomaton, if_pos rfl,
    TypeExpr.automaton?_internAll, ha]
  rfl

theorem perform_of_not_leads (ha : r.table.automaton? id = some a)
    (h : d.sources = [] ∨ ¬∃ target functions, d.Leads r.table a target functions) :
    ∃ seen e, seen <+: d.typeExprs ∧ KnownInTurn r.table seen ∧ e.isError = true ∧
      (r.perform (d.elaborate id)).table = internAll seen r.table ∧
      (r.perform (d.elaborate id)).diagnostics = r.diagnostics ++ [e] := by
  rcases run_elaborate_of_not_leads ha h with ⟨m, hrun⟩ | ⟨seen, e, hseen, hknown, he, hrun⟩
  · refine ⟨[], .error .malformedTree m.message m.span, List.nil_prefix, trivial, rfl, ?_, ?_⟩
    · simp only [Run.perform, Run.settle, hrun]
      rfl
    · simp only [Run.perform, Run.settle, hrun, List.append_nil]
  · refine ⟨seen, e, hseen, hknown, he, ?_, ?_⟩
    · simp only [Run.perform, Run.settle, hrun]
    · simp only [Run.perform, Run.settle, hrun]

/-! ## One declaration for each source -/

/-- The same declaration from other sources. -/
def withSources (d : ShiftDecl) (sources : List Identifier) : ShiftDecl :=
  { d with sources := sources }

/-- The same declaration, once for each of its sources. -/
def singles (d : ShiftDecl) : List ShiftDecl :=
  d.sources.map fun source => d.withSources [source]

/-- The sources are no part of the head. -/
theorem leads_withSources {sources : List Identifier} :
    (d.withSources sources).Leads t a target functions ↔ d.Leads t a target functions :=
  ⟨fun h => ⟨h.endpoint, h.functions_ne_nil, h.types, h.names⟩,
    fun h => ⟨h.endpoint, h.functions_ne_nil, h.types, h.names⟩⟩

/-- What was good stays good when shifts and types are added. -/
theorem Leads.mono {new : List Shift} (h : d.Leads t a target functions) :
    d.Leads ((internAll d.typeExprs t).modifyAutomaton id (Automaton.addShifts new))
      (a.addShifts new) target functions where
  endpoint := h.endpoint
  functions_ne_nil := h.functions_ne_nil
  types := h.types.mono fun _ hname =>
    (TypeExpr.internAll_growsTo d.typeExprs t).knows hname
  names := h.names.imp fun _ _ hnames =>
    (TypeExpr.lookupOperation_internAll d.typeExprs t _ _ _).trans hnames

/-- What was not good stays so when some of the types have been looked at. -/
theorem Leads.of_internAll {seen : List TypeExpr} (hbefore : seen <+: d.typeExprs)
    (hseen : KnownInTurn t seen) (h : d.Leads (internAll seen t) a target functions) :
    d.Leads t a target functions where
  endpoint := h.endpoint
  functions_ne_nil := h.functions_ne_nil
  types := .again hbefore hseen h.types
  names := h.names.imp fun _ _ hnames =>
    (TypeExpr.lookupOperation_internAll seen t _ _ _).symm.trans hnames

/-- With a good head, the declarations for single sources add their shifts one after the other. -/
theorem automaton?_singles_of_leads (ha : r.table.automaton? id = some a)
    (h : d.Leads r.table a target functions) (sources : List Identifier) :
    (r.performAll (fun d => d.elaborate id)
      (d.withSources sources).singles).table.automaton? id =
        some (a.addShifts (a.shiftsFrom target functions d.span sources)) := by
  induction sources generalizing r a with
  | nil => exact ha.trans (congrArg some a.addShifts_nil.symm)
  | cons source rest ih =>
    have hone : (d.withSources [source]).Leads r.table a target functions :=
      leads_withSources.mpr h
    have hset := automaton?_perform_of_leads ha (List.cons_ne_nil source []) hone
    have hleads : d.Leads (r.perform ((d.withSources [source]).elaborate id)).table
        (a.addShifts (a.shiftsFrom target functions d.span [source])) target functions := by
      rw [perform_of_leads ha (List.cons_ne_nil source []) hone]
      exact h.mono
    -- Shifts do not change what a name stands for.
    refine (ih hset hleads).trans ?_
    rw [Automaton.shiftsFrom_cons, ← Automaton.addShifts_addShifts]
    rfl

/-- Without a good head, none of them adds a shift. -/
theorem automaton?_singles_of_not_leads (ha : r.table.automaton? id = some a)
    (h : ¬∃ target functions, d.Leads r.table a target functions) (sources : List Identifier) :
    (r.performAll (fun d => d.elaborate id)
      (d.withSources sources).singles).table.automaton? id = some a := by
  induction sources generalizing r with
  | nil => exact ha
  | cons source rest ih =>
    have hhead : ¬∃ target functions,
        (d.withSources [source]).Leads r.table a target functions := by
      simpa only [leads_withSources] using h
    obtain ⟨seen, -, hbefore, hseen, -, htable, -⟩ := perform_of_not_leads ha (Or.inr hhead)
    refine ih (r := r.perform ((d.withSources [source]).elaborate id)) ?_ ?_
    · rw [htable, TypeExpr.automaton?_internAll]
      exact ha
    · rw [htable]
      rintro ⟨target, functions, hleads⟩
      exact h ⟨target, functions, hleads.of_internAll hbefore hseen⟩

/-! ## The expansion -/

/-- What the declaration does with an automaton of the table. -/
structure Expands (r : Run) (id : AutomatonId) (a : Automaton) (d : ShiftDecl) : Prop where
  /-- With a good head, there is a shift from each good source and an error for each other one. -/
  expands : d.sources ≠ [] → ∀ target functions, d.Leads r.table a target functions →
    (r.perform (d.elaborate id)).table.automaton? id =
        some (a.addShifts (a.shiftsFrom target functions d.span d.sources)) ∧
      (r.perform (d.elaborate id)).diagnostics = r.diagnostics ++ a.sourceFaults d.sources
  /-- Otherwise there is no shift and one error. -/
  drops : (d.sources = [] ∨ ¬∃ target functions, d.Leads r.table a target functions) →
    (r.perform (d.elaborate id)).table.automaton? id = some a ∧
      ∃ e, e.isError = true ∧ (r.perform (d.elaborate id)).diagnostics = r.diagnostics ++ [e]
  /-- Other automata stay as they are. -/
  others : ∀ j, j ≠ id → (r.perform (d.elaborate id)).table.automaton? j = r.table.automaton? j
  /-- The shifts connect declared states, none of which is named by a word of another meaning. -/
  endpoints : ∃ new, (r.perform (d.elaborate id)).table.automaton? id = some (a.addShifts new) ∧
    ∀ s ∈ new, ∀ n, s.source = .state n ∨ s.target = .state n →
      (a.state? n).isSome = true ∧ n ≠ Endpoint.anyWord ∧ n ≠ Endpoint.stayWord
  /-- One declaration for each source does the same to the automaton. -/
  separately : d.sources ≠ [] →
    (r.performAll (fun d => d.elaborate id) d.singles).table.automaton? id =
      (r.perform (d.elaborate id)).table.automaton? id

/-- A declaration of shifts expands to one shift from each source that stands for a start, all with
its head, and reports each of the other sources; or its head is not good, and it reports this
alone. -/
theorem shifts_expand (ha : r.table.automaton? id = some a) : d.Expands r id a := by
  by_cases hgood : d.sources ≠ [] ∧ ∃ target functions, d.Leads r.table a target functions
  · obtain ⟨hsources, target, functions, hleads⟩ := hgood
    have hset := automaton?_perform_of_leads ha hsources hleads
    refine
      { expands := fun _ target functions hleads =>
          ⟨automaton?_perform_of_leads ha hsources hleads, ?_⟩
        drops := fun hbad => (hbad.elim hsources fun hno => hno ⟨target, functions, hleads⟩).elim
        others := fun j hj => ?_
        endpoints := ⟨_, hset, ?_⟩
        separately := fun _ => ?_ }
    · rw [perform_of_leads ha hsources hleads]
    · rw [perform_of_leads ha hsources hleads, SymbolTable.automaton?_modifyAutomaton, if_neg hj,
        TypeExpr.automaton?_internAll]
    · obtain ⟨name, -, htarget⟩ := hleads.endpoint
      exact a.shiftsFrom_endpoints htarget functions d.span d.sources
    · exact (automaton?_singles_of_leads ha hleads d.sources).trans hset.symm
  · have hbad : d.sources = [] ∨ ¬∃ target functions, d.Leads r.table a target functions := by
      rwa [not_and_or, not_ne_iff] at hgood
    obtain ⟨seen, e, -, -, he, htable, hdiagnostics⟩ := perform_of_not_leads ha hbad
    have hset : ∀ j, (r.perform (d.elaborate id)).table.automaton? j = r.table.automaton? j := by
      intro j
      rw [htable, TypeExpr.automaton?_internAll]
    exact
      { expands := fun hsources target functions hleads =>
          (hgood ⟨hsources, target, functions, hleads⟩).elim
        drops := fun _ => ⟨(hset id).trans ha, e, he, hdiagnostics⟩
        others := fun j _ => hset j
        endpoints := ⟨[], (hset id).trans (ha.trans (congrArg some a.addShifts_nil.symm)),
          fun _ hs => (List.not_mem_nil hs).elim⟩
        separately := fun hsources =>
          (automaton?_singles_of_not_leads ha (hbad.resolve_left hsources) d.sources).trans
            ((hset id).trans ha).symm }

/-- The automaton `A` with a function `f` and three states, two of which nothing can name. -/
def wordStates : Run :=
  let table := SymbolTable.empty.entered
    [.type (.simple "Int"), .automaton "A" "Int" (.onLine 1),
      .operation (Overload.onNumber .function)]
  let states : List StateDecl :=
    ["idle", "any", "self"].map fun name => ⟨⟨name, .onLine 2⟩, .simple⟩
  (⟨table, [], none⟩ : Run).perform (AutomatonDecl.declareStates ⟨0⟩ "A" [] states)

/-- Shifts on `f` that stay in the state, with two sources that stand for no start. -/
def staying : ShiftDecl where
  sources := ["idle", "self", "any", "busy", "idle"].map fun name => ⟨name, .onLine 3⟩
  target := some ⟨"self", .onLine 3⟩
  functions := [⟨⟨"f", .onLine 3⟩, some [.named ⟨"Int", .onLine 3⟩]⟩]
  span := .onLine 3

theorem staying_expands :
    ∃ a, wordStates.table.automaton? ⟨0⟩ = some a ∧
      staying.sources ≠ [] ∧ staying.Leads wordStates.table a .stay [⟨0⟩] ∧
      staying.Expands wordStates ⟨0⟩ a ∧
      (a.shiftsFrom .stay [⟨0⟩] staying.span staying.sources).map Shift.source =
        [.state "idle", .any, .state "idle"] ∧
      (a.sourceFaults staying.sources).map Diagnostic.kind = [.invalidShift, .unknownState] := by
  refine ⟨_, rfl, by decide, ⟨⟨_, rfl, by decide +kernel⟩, by decide, ⟨?_, trivial⟩, .cons ?_ .nil⟩,
    shifts_expand rfl, by decide +kernel, by decide +kernel⟩
  · exact Option.isSome_iff_exists.mp (by decide +kernel)
  · exact (by decide +kernel : wordStates.table.lookupOperation "f" "A" (some ["Int"]) = .found ⟨0⟩)

end ShiftDecl

end SyntaxTree

end LibraryContract
