import LibraryContract.Proofs.Completion
import Mathlib.Data.List.Induction
import Mathlib.Data.List.Nodup

/-!
# Nothing is lost

A library that compiles mirrors its tree: each declaration has its counterpart in the table, and the
table has nothing else. Since nothing is given up in silence (`Run.clean_of_compile`), every
declaration was registered, everything that it left for later was looked at, and no step took
anything away.

* `RunsCleanly.completed`: at the end, everything left for later has been looked at;
* `filter_recordOperations`: the bodies looked at are those of the last declarations;
* `compile_mirrors`: a library that compiles mirrors its tree.
-/

namespace LibraryContract

open SyntaxTree Build

/-! ## Bodies that are looked at -/

namespace Run

/-- The operations in which the entries take effect. -/
def recordOperations (entries : List LedgerEntry) : List PendingOperation :=
  entries.foldl (fun operations e => recordOperation operations e.1 e.2.1) []

theorem filter_concat_pending {operations : List PendingOperation} {i : OperationId}
    (d : FunctionDecl) (id : OperationId)
    (hnone : operations.filter (fun o => decide (o.id = i)) = []) :
    (operations ++ [(⟨i, d⟩ : PendingOperation)]).filter (fun o => decide (o.id = id)) =
      if i = id then [⟨id, d⟩] else operations.filter fun o => decide (o.id = id) := by
  rw [List.filter_append]
  by_cases hid : i = id
  · subst hid
    rw [if_pos rfl, hnone]
    simp
  · rw [if_neg hid]
    simp [hid]

/-- The earlier declaration is replaced, wherever it stands. -/
theorem filter_replace_pending {operations : List PendingOperation} {o : PendingOperation}
    (ho : o ∈ operations) (d : FunctionDecl) (id : OperationId)
    (hone : (operations.filter fun p => decide (p.id = id)).length ≤ 1) :
    (operations.map fun p => if p.id = o.id then (⟨o.id, d⟩ : PendingOperation) else p).filter
        (fun p => decide (p.id = id)) =
      if o.id = id then [⟨id, d⟩] else operations.filter fun p => decide (p.id = id) := by
  have hkeeps : ∀ p : PendingOperation,
      (if p.id = o.id then (⟨o.id, d⟩ : PendingOperation) else p).id = p.id := by
    intro p
    split
    · rename_i hid
      exact hid.symm
    · rfl
  have hcommutes : ((fun p : PendingOperation => decide (p.id = id)) ∘ fun p =>
      if p.id = o.id then (⟨o.id, d⟩ : PendingOperation) else p) = fun p => decide (p.id = id) :=
    funext fun p => by rw [Function.comp_apply, hkeeps]
  rw [List.filter_map, hcommutes]
  by_cases hid : o.id = id
  · subst hid
    have hmem : o ∈ operations.filter fun p => decide (p.id = o.id) :=
      List.mem_filter.mpr ⟨ho, decide_eq_true rfl⟩
    obtain ⟨p, hp⟩ := List.length_eq_one_iff.mp
      (Nat.le_antisymm hone (List.length_pos_of_mem hmem))
    rw [hp, List.mem_singleton] at hmem
    subst hmem
    rw [hp, if_pos rfl, List.map_singleton, if_pos rfl]
  · rw [if_neg hid]
    refine (List.map_congr_left fun p hp => ?_).trans (List.map_id _)
    have hpid := of_decide_eq_true (List.mem_filter.mp hp).2
    rw [if_neg fun h => hid (h.symm.trans hpid)]
    rfl

theorem filter_recordOperation {operations : List PendingOperation} {r : Registration}
    (d : FunctionDecl) (id : OperationId)
    (hnew : ∀ i, r = .new i → operations.filter (fun o => decide (o.id = i)) = [])
    (hone : (operations.filter fun o => decide (o.id = id)).length ≤ 1) :
    (recordOperation operations r d).filter (fun o => decide (o.id = id)) =
      if r.id = id then [⟨id, d⟩] else operations.filter fun o => decide (o.id = id) := by
  cases r with
  | new i => exact filter_concat_pending d id (hnew i rfl)
  | completed i =>
    have hcompleted : (Registration.completed i).id = i := rfl
    unfold recordOperation
    by_cases hany : (operations.any fun o => decide (o.id = i)) = true
    · obtain ⟨o, ho, hoi⟩ := List.any_eq_true.mp hany
      obtain rfl := of_decide_eq_true hoi
      simp only [hany, if_true, hcompleted]
      exact filter_replace_pending ho d id hone
    · simp only [hany]
      refine filter_concat_pending d id (List.filter_eq_nil_iff.mpr fun o ho hi => hany ?_)
      exact List.any_eq_true.mpr ⟨o, ho, hi⟩

/-- The operations in effect are those of the last declarations. -/
theorem filter_recordOperations {entries : List LedgerEntry} (h : Sequential entries)
    (id : OperationId) :
    (recordOperations entries).filter (fun o => decide (o.id = id)) =
      (declarationsOf entries id).getLast?.toList.map fun item => ⟨id, item.1⟩ := by
  -- from the right, since the last entry of an operation decides
  induction entries using List.reverseRecOn generalizing id with
  | nil => rfl
  | append_singleton entries e ih =>
    have hbefore : Sequential entries := by
      intro before last after heq
      refine h before last (after ++ [e]) ?_
      rw [heq, List.append_assoc, List.cons_append]
    have hlast := h entries e [] rfl
    have hone : ((recordOperations entries).filter fun o => decide (o.id = id)).length ≤ 1 := by
      rw [ih hbefore id]
      cases (declarationsOf entries id).getLast? <;> simp
    have hnew : ∀ i, e.1 = .new i →
        (recordOperations entries).filter (fun o => decide (o.id = i)) = [] := by
      intro i hi
      have hnone := hlast.mp ⟨i, hi⟩
      rw [hi] at hnone
      rw [ih hbefore i, show declarationsOf entries i = [] from hnone]
      rfl
    have hstep : recordOperations (entries ++ [e]) =
        recordOperation (recordOperations entries) e.1 e.2.1 := List.foldl_concat _ _ _ _
    rw [hstep, filter_recordOperation e.2.1 id hnew hone, declarationsOf_concat]
    by_cases hid : e.1.id = id
    · rw [if_pos hid, if_pos hid, List.getLast?_concat]
      rfl
    · rw [if_neg hid, if_neg hid, ih hbefore id]

theorem mem_recordOperations {entries : List LedgerEntry} (h : Sequential entries)
    {p : PendingOperation} : p ∈ recordOperations entries ↔
      ∃ last, (declarationsOf entries p.id).getLast? = some last ∧ p.declaration = last.1 := by
  have hself : p ∈ recordOperations entries ↔
      p ∈ (recordOperations entries).filter fun o => decide (o.id = p.id) := by
    rw [List.mem_filter, decide_eq_true rfl, and_iff_left rfl]
  rw [hself, filter_recordOperations h, List.mem_map]
  refine exists_congr fun last => and_congr Option.mem_toList ?_
  exact ⟨fun heq => heq ▸ rfl, fun heq => heq ▸ rfl⟩

end Run

/-! ## Everything is looked at -/

theorem SyntaxTree.VariableDecl.mem_pending {ds : List VariableDecl} {home : VariableScope}
    {p : PendingInitializer} : p ∈ ds.filterMap (VariableDecl.pending home) ↔
      ∃ d ∈ ds, ∃ e, d.initializer = some e ∧ p = ⟨d.name.name, home, e⟩ := by
  simp only [List.mem_filterMap, VariableDecl.pending, Option.map_eq_some_iff]
  constructor
  · rintro ⟨d, hd, e, he, rfl⟩
    exact ⟨d, hd, e, he, rfl⟩
  · rintro ⟨d, hd, e, he, rfl⟩
    exact ⟨d, hd, e, he, rfl⟩

theorem SyntaxTree.AutomatonDecl.pending_outside (d : AutomatonDecl) (id : AutomatonId) :
    ∀ p ∈ (d.pending id).initializers, p.scope.OutsideOperations := by
  intro p hp
  rcases List.mem_append.mp hp with hp | hp
  · obtain ⟨_, -, _, -, rfl⟩ := VariableDecl.mem_pending.mp hp
    trivial
  · obtain ⟨_, -, _, -, rfl⟩ := VariableDecl.mem_pending.mp hp
    trivial

theorem SyntaxTree.Library.mem_pendingAutomata {l : SyntaxTree.Library} {i : Nat}
    {d : AutomatonDecl} (hd : l.automata[i]? = some d) : d.pending ⟨i⟩ ∈ l.pendingAutomata := by
  obtain ⟨hlt, rfl⟩ := List.getElem?_eq_some_iff.mp hd
  exact List.mem_mapIdx.mpr ⟨i, hlt, rfl⟩

theorem SyntaxTree.Library.pendingAutomata_outside (l : SyntaxTree.Library) :
    ∀ p ∈ l.pendingAutomata, ∀ q ∈ p.initializers, q.scope.OutsideOperations := by
  intro p hp
  obtain ⟨i, hi, rfl⟩ := List.mem_mapIdx.mp hp
  exact AutomatonDecl.pending_outside _ _

/-- The values that variables outside of operations start from. -/
def SyntaxTree.Library.pendingValues (l : SyntaxTree.Library) : List PendingInitializer :=
  l.globals.filterMap (VariableDecl.pending .global) ++
    l.pendingAutomata.flatMap PendingAutomaton.initializers

namespace SymbolTable.Completed

variable {t u : SymbolTable} {values : List PendingInitializer} {automata : List PendingAutomaton}
  {operations : List PendingOperation}

theorem initials (h : t.Completed values automata operations) {scope : Scope}
    {ps : List PendingInitializer} (hps : ∀ p ∈ ps, p.scope.OutsideOperations) {results : List Unit}
    (hc : (ps.mapM (PendingInitializer.elaborate scope)).Clean t results u) :
    u.Completed (values ++ ps) automata operations := by
  have hstart : t.Completed (values ++ []) automata operations := by
    rw [List.append_nil]
    exact h
  refine clean_mapM_invariant (I := fun done _ t => t.Completed (values ++ done) automata operations)
    ?_ hc hstart
  intro p hp done _ t _ u ht hd
  obtain ⟨value, v, hvalue, hmodify⟩ := clean_bind.mp hd
  obtain ⟨-, rfl⟩ := clean_liftM hvalue
  obtain rfl := clean_modify.mp hmodify
  rw [← List.append_assoc]
  exact ht.setInitial (hps p hp) value

theorem automaton (h : t.Completed values automata operations) {p : PendingAutomaton}
    (hp : ∀ q ∈ p.initializers, q.scope.OutsideOperations) {a : Unit}
    (hc : (Run.completeAutomaton p).Clean t a u) :
    u.Completed (values ++ p.initializers) (automata ++ [p]) operations := by
  obtain ⟨_, v, hinitials, hrest⟩ := clean_bind.mp hc
  obtain ⟨_, w, hshifts, hpure⟩ := clean_bind.mp hrest
  obtain ⟨-, rfl⟩ := clean_pure.mp hpure
  obtain ⟨types, new, rfl, hnew⟩ := ShiftDecl.mapM_elaborate_clean hshifts
  exact (h.initials hp hinitials).addShifts types (hnew.imp fun _ _ hs => hs.mirrors)

theorem operation (h : t.Completed values automata operations) {p : PendingOperation} {a : Unit}
    (hc : (p.declaration.elaborate p.id).Clean t a u) :
    u.Completed values automata (operations ++ [p]) := by
  obtain ⟨types, contracts, statements, f, rfl, hcontracts, hstatements⟩ :=
    FunctionDecl.elaborate_clean hc
  exact h.fill types hcontracts hstatements f

end SymbolTable.Completed

namespace Run

variable {options : Options} {library : SyntaxTree.Library}

theorem RunsCleanly.registers_withSignatures (h : RunsCleanly options library) :
    (withSignatures options library).2.table.Registers library.types library.annotations
      library.globals library.automata :=
  keeps_of_reflTransGen (registerSignatures_signs options _ _ _) (fun _ _ => Signs.registers)
    h.registers.1

/-- Without an error, everything that was left for later is looked at in the end. -/
theorem RunsCleanly.completed (h : RunsCleanly options library) :
    (analyze options library).table.Completed library.pendingValues library.pendingAutomata
      (recordOperations (ledger options library)) := by
  have hstart := h.registers_withSignatures.completed (withSignatures_wellFormed options library)
    (withSignatures_unelaborated options library)
  have hglobals : (withInitials options library).table.Completed
      (library.globals.filterMap (VariableDecl.pending .global)) [] [] := by
    obtain ⟨_, hinitials⟩ := h.initials
    rw [h.pendingGlobals] at hinitials
    refine hstart.initials (fun p hp => ?_) hinitials
    obtain ⟨_, -, _, -, rfl⟩ := VariableDecl.mem_pending.mp hp
    trivial
  have hautomata : (withShifts options library).table.Completed library.pendingValues
      library.pendingAutomata [] := by
    obtain ⟨_, hshifts⟩ := h.shifts
    rw [h.registers.2] at hshifts
    -- the automata before this one have their values and their shifts
    refine clean_mapM_invariant (I := fun ps _ t => t.Completed
      (library.globals.filterMap (VariableDecl.pending .global) ++
        ps.flatMap PendingAutomaton.initializers) ps []) ?_ hshifts ?_
    · intro p hp ps _ t _ u ht hd
      rw [List.flatMap_append, List.flatMap_singleton, ← List.append_assoc]
      exact ht.automaton (library.pendingAutomata_outside p hp) hd
    · rw [List.flatMap_nil, List.append_nil]
      exact hglobals
  obtain ⟨_, hbodies⟩ := h.bodies
  rw [h.pendingOperations] at hbodies
  exact clean_mapM_invariant
    (I := fun os _ t => t.Completed library.pendingValues library.pendingAutomata os)
    (fun p _ os _ t _ u ht hd => ht.operation hd) hbodies hautomata

end Run

/-! ## Variables and automata -/

theorem SymbolTable.Housed.names {t : SymbolTable} (h : t.Housed) (home : VariableScope) :
    (t.variablesIn home).values.map Variable.name = (t.variablesIn home).keys := by
  rw [OrderedMap.values, OrderedMap.keys, List.map_map]
  refine List.map_congr_left fun e he => ?_
  exact (h home e.1 e.2 (OrderedMap.get?_eq_some_iff.mpr he)).1

/-- A declaration with a value, for a variable of this name. -/
def SyntaxTree.VariableDecl.Starts (name : String) (d : VariableDecl) : Prop :=
  d.initializer.isSome = true ∧ d.name.name = name

theorem SyntaxTree.VariableDecl.exists_pending (ds : List VariableDecl)
    (home home' : VariableScope) (name : String) :
    (∃ p ∈ ds.filterMap (VariableDecl.pending home'), p.scope = home ∧ p.name = name) ↔
      home' = home ∧ ∃ d ∈ ds, d.Starts name := by
  constructor
  · rintro ⟨p, hp, hscope, hname⟩
    obtain ⟨d, hd, e, he, rfl⟩ := VariableDecl.mem_pending.mp hp
    exact ⟨hscope, d, hd, by rw [he]; rfl, hname⟩
  · rintro ⟨rfl, d, hd, hsome, rfl⟩
    obtain ⟨e, he⟩ := Option.isSome_iff_exists.mp hsome
    exact ⟨_, VariableDecl.mem_pending.mpr ⟨d, hd, e, he, rfl⟩, rfl, rfl⟩

theorem SyntaxTree.Library.exists_pendingAutomata (l : SyntaxTree.Library) (home : VariableScope)
    (name : String) :
    (∃ p ∈ l.pendingAutomata.flatMap PendingAutomaton.initializers,
        p.scope = home ∧ p.name = name) ↔
      ∃ id : AutomatonId, ∃ d, l.automata[id.index]? = some d ∧
        (.constructorParameter id = home ∧ (∃ v ∈ d.constructorVariables, v.Starts name) ∨
          .automaton id = home ∧ ∃ v ∈ d.instanceVariables, v.Starts name) := by
  have hautomaton : ∀ (id : AutomatonId) (d : AutomatonDecl),
      (∃ p ∈ (d.pending id).initializers, p.scope = home ∧ p.name = name) ↔
        (.constructorParameter id = home ∧ (∃ v ∈ d.constructorVariables, v.Starts name) ∨
          .automaton id = home ∧ ∃ v ∈ d.instanceVariables, v.Starts name) := by
    intro id d
    rw [← VariableDecl.exists_pending, ← VariableDecl.exists_pending, ← exists_or]
    refine exists_congr fun p => ?_
    rw [← or_and_right, ← List.mem_append]
    rfl
  constructor
  · rintro ⟨p, hp, hpart⟩
    obtain ⟨a, ha, hpa⟩ := List.mem_flatMap.mp hp
    obtain ⟨i, hi, rfl⟩ := List.mem_mapIdx.mp ha
    exact ⟨⟨i⟩, _, List.getElem?_eq_getElem hi, (hautomaton _ _).mp ⟨p, hpa, hpart⟩⟩
  · rintro ⟨⟨i⟩, d, hd, hpart⟩
    obtain ⟨hi, rfl⟩ := List.getElem?_eq_some_iff.mp hd
    obtain ⟨p, hpa, hp⟩ := (hautomaton _ _).mpr hpart
    exact ⟨p, List.mem_flatMap.mpr ⟨_, List.mem_mapIdx.mpr ⟨i, hi, rfl⟩, hpa⟩, hp⟩

theorem SyntaxTree.Library.exists_pendingValues (l : SyntaxTree.Library) {home : VariableScope}
    (hh : home.OutsideOperations) (name : String) :
    (∃ p ∈ l.pendingValues, p.scope = home ∧ p.name = name) ↔
      ∃ d ∈ l.variablesAt home, d.Starts name := by
  have hor : (∃ p ∈ l.pendingValues, p.scope = home ∧ p.name = name) ↔
      (.global = home ∧ ∃ d ∈ l.globals, d.Starts name) ∨
        ∃ p ∈ l.pendingAutomata.flatMap PendingAutomaton.initializers,
          p.scope = home ∧ p.name = name := by
    rw [← VariableDecl.exists_pending, ← exists_or]
    refine exists_congr fun p => ?_
    rw [← or_and_right, ← List.mem_append]
    rfl
  rw [hor, l.exists_pendingAutomata]
  cases home with
  | global => simp [variablesAt]
  | automaton owner =>
    simp only [variablesAt, reduceCtorEq, false_and, false_or, VariableScope.automaton.injEq]
    cases hd : l.automata[owner.index]? with
    | none => simp [hd]
    | some d => simp [hd]
  | constructorParameter owner =>
    simp only [variablesAt, reduceCtorEq, false_and, or_false, false_or,
      VariableScope.constructorParameter.injEq]
    cases hd : l.automata[owner.index]? with
    | none => simp [hd]
    | some d => simp [hd]
  | _ => exact hh.elim

/-- Variables with the declared heads, and with values where some are declared, mirror their
declarations. -/
theorem SymbolTable.Initialized.mirrors {t : SymbolTable} {l : SyntaxTree.Library}
    (h : t.Initialized l.pendingValues) (ht : t.Housed) {home : VariableScope}
    (hh : home.OutsideOperations)
    (hheads : (t.variablesIn home).values.map Variable.head =
      (l.variablesAt home).map (VariableDecl.toVariable home)) :
    List.Forall₂ (VariableDecl.Mirrors home) (l.variablesAt home) (t.variablesIn home).values := by
  have hpairs : List.Forall₂ (fun d v => d.toVariable home = v.head) (l.variablesAt home)
      (t.variablesIn home).values := by
    rw [← List.forall₂_map_right_iff (f := Variable.head), hheads, List.forall₂_map_right_iff,
      List.forall₂_same]
    exact fun _ _ => rfl
  -- the keys of the collection are the declared names, so no name is declared twice
  have hnodup : ((l.variablesAt home).map fun d => d.name.name).Nodup := by
    have hkeys := congrArg (List.map Variable.name) hheads
    rw [List.map_map, List.map_map] at hkeys
    have hnames := (ht.names home).symm.trans hkeys
    have hn := (t.variablesIn home).keys_nodup
    rw [hnames] at hn
    exact hn
  refine (forall₂_mem hpairs).imp ?_
  rintro d v ⟨hd, hv, heq⟩
  obtain ⟨name, hname⟩ := OrderedMap.mem_values.mp hv
  have hdname : d.name.name = name := (congrArg Variable.name heq).trans (ht home name v hname).1
  refine ⟨(congrArg Variable.name heq).symm, (congrArg Variable.type heq).symm,
    (congrArg Variable.scope heq).symm, (congrArg Variable.span heq).symm, ?_⟩
  rw [Bool.eq_iff_iff, h home hh name v hname, l.exists_pendingValues hh]
  constructor
  · rintro ⟨d', hd', hsome, hsame⟩
    rw [List.inj_on_of_nodup_map hnodup hd hd' (hdname.trans hsame.symm)]
    exact hsome
  · exact fun hsome => ⟨d, hd, hsome, hdname⟩

theorem SyntaxTree.Library.filter_pendingAutomata (l : SyntaxTree.Library) (id : AutomatonId) :
    l.pendingAutomata.filter (fun p => decide (p.id = id)) =
      l.automata[id.index]?.toList.map (AutomatonDecl.pending id) := by
  unfold pendingAutomata
  generalize l.automata = ds
  induction ds using List.reverseRecOn with
  | nil => rfl
  | append_singleton ds d ih =>
    rw [List.mapIdx_concat, List.filter_append, ih]
    by_cases hid : id.index = ds.length
    · have hnone : ds[id.index]? = none := List.getElem?_eq_none (Nat.le_of_eq hid.symm)
      obtain rfl : id = ⟨ds.length⟩ := congrArg AutomatonId.mk hid
      rw [hnone, List.getElem?_concat_length]
      simp [AutomatonDecl.pending]
    · have hother : (d.pending ⟨ds.length⟩).id ≠ id := fun h => hid (congrArg AutomatonId.index h).symm
      rw [List.filter_singleton, decide_eq_false hother, cond_false, List.append_nil]
      by_cases hlt : id.index < ds.length
      · rw [List.getElem?_append_left hlt]
      · rw [List.getElem?_eq_none (by omega), List.getElem?_eq_none (by simp; omega)]

theorem forall₂_of_getElem? {α β : Type} {R : α → β → Prop} {l : List α} {m : List β}
    (hlength : l.length = m.length)
    (h : ∀ (i : Nat) (a : α) (b : β), l[i]? = some a → m[i]? = some b → R a b) :
    List.Forall₂ R l m := by
  refine List.forall₂_iff_get.mpr ⟨hlength, fun i hi hj => ?_⟩
  exact h i _ _ (List.getElem?_eq_getElem hi) (List.getElem?_eq_getElem hj)

namespace Run

variable {options : Options} {library : SyntaxTree.Library}

theorem analyze_agrees (options : Options) (library : SyntaxTree.Library) :
    (withSignatures options library).2.table.Agrees (analyze options library).table :=
  keeps_of_reflTransGen (analyze_elaborates options library) (fun _ _ h ht => ht.trans h.agrees)
    (.refl _)

theorem RunsCleanly.mirrors_variables (h : RunsCleanly options library) (home : VariableScope)
    (hh : home.OutsideOperations) :
    List.Forall₂ (VariableDecl.Mirrors home) (library.variablesAt home)
      ((analyze options library).table.variablesIn home).values := by
  refine h.completed.values.mirrors (analyze_housed options library) hh ?_
  rw [(analyze_agrees options library).collections home hh,
    h.registers_withSignatures.variablesIn (withSignatures_wellFormed options library) hh,
    List.map_map]
  rfl

theorem RunsCleanly.mirrors_automata (h : RunsCleanly options library) :
    List.Forall₂ AutomatonDecl.Mirrors library.automata (analyze options library).table.automata := by
  have hheads : List.Forall₂ (fun (d : AutomatonDecl) (a : Automaton) => a.name = d.name.name ∧
      a.type = d.type.canonicalName ∧ a.span = d.span ∧
      a.states.values = d.states.map StateDecl.toState) library.automata
      ((analyze options library).table.automata.map Automaton.head) := by
    rw [(analyze_agrees options library).automata, List.forall₂_map_right_iff]
    exact h.registers_withSignatures.automata.imp fun d a ha => ⟨ha.name, ha.type, ha.span, ha.states⟩
  rw [List.forall₂_map_right_iff] at hheads
  refine forall₂_of_getElem? hheads.length_eq fun i d a hd ha => ?_
  have hid : a.id = ⟨i⟩ := (analyze_wellFormed options library).automaton_id ⟨i⟩ a ha
  have hlookup : (analyze options library).table.automaton? ⟨i⟩ = some a := ha
  obtain ⟨d', hd', hname, htype, hspan, hstates⟩ := forall₂_getElem? hheads ha
  rw [hd] at hd'
  cases hd'
  -- the position of the automaton is its number, and its collections are found under that
  have hparameters := h.mirrors_variables (.constructorParameter ⟨i⟩) trivial
  have hmembers := h.mirrors_variables (.automaton ⟨i⟩) trivial
  simp only [SyntaxTree.Library.variablesAt, SymbolTable.variablesIn, hd, hlookup, Option.map_some,
    Option.getD_some] at hparameters hmembers
  have hshifts := h.completed.shifts ⟨i⟩ a hlookup
  rw [library.filter_pendingAutomata, hd, Option.toList_some, List.map_singleton,
    List.flatMap_singleton] at hshifts
  exact ⟨hname, htype, hspan, hstates, hid ▸ hparameters, hid ▸ hmembers, hshifts⟩

end Run

/-! ## Types -/

theorem SyntaxTree.TypeDecl.mirrors_toDataType {d : TypeDecl} (h : d.memberNames.Nodup) :
    d.Mirrors d.toDataType := by
  obtain ⟨name, definition⟩ := d
  cases definition with
  | structured fields =>
    refine ⟨rfl, ?_, nofun⟩
    rintro _ _ ⟨⟩
    refine ⟨fields, rfl, OrderedMap.entries_ofList ?_⟩
    rw [List.map_map]
    exact h
  | enum members =>
    refine ⟨rfl, nofun, ?_⟩
    rintro _ _ ⟨⟩
    refine ⟨members, rfl, OrderedMap.entries_ofList ?_⟩
    rw [List.map_map]
    exact h
  | _ => exact ⟨rfl, nofun, nofun⟩

/-! ## Operations -/

theorem declarationsOf_split (before after : List LedgerEntry) (e : LedgerEntry) :
    declarationsOf (before ++ e :: after) e.1.id =
      declarationsOf before e.1.id ++ e.2 :: declarationsOf after e.1.id := by
  unfold declarationsOf
  rw [List.filter_append, List.filter_cons, decide_eq_true rfl, if_pos rfl, List.map_append,
    List.map_cons]

/-- What the order of the declarations of an operation says about a single one. -/
theorem Signature.Stems.accepted {t : SymbolTable} {before after : List LedgerEntry}
    {e : LedgerEntry} {o : Operation}
    (h : o.toSignature.Stems t (declarationsOf (before ++ e :: after) e.1.id))
    (ho : t.operation? o.id = some o) (hid : e.1.id = o.id)
    (hnew : (∃ id, e.1 = .new id) ↔ declarationsOf before e.1.id = []) :
    Accepted t before e := by
  rw [declarationsOf_split] at h
  obtain ⟨r, item⟩ := e
  cases r with
  | new id =>
    obtain rfl : id = o.id := hid
    have hfresh := hnew.mp ⟨_, rfl⟩
    refine .created ho ?_ hfresh
    rw [hfresh] at h
    generalize declarationsOf after _ = rest at h
    cases h with
    | created key _ => exact key
    | completed firstKey _ _ _ _ _ _ => exact firstKey
  | completed id =>
    obtain rfl : id = o.id := hid
    have hold : declarationsOf before o.id ≠ [] := by
      intro hnil
      obtain ⟨_, hcreated⟩ := hnew.mpr hnil
      cases hcreated
    have hcompleted : (Registration.completed o.id).id = o.id := rfl
    rw [hcompleted] at h
    generalize declarationsOf after o.id = rest at h
    generalize hitems : declarationsOf before o.id ++ item :: rest = items at h
    cases h with
    | created _ _ =>
      have hlength := congrArg List.length hitems
      have hpos := List.length_pos_iff.mpr hold
      simp at hlength
      omega
    | @completed first last firstKey lastKey firstBody lastBody _ _ _ =>
      -- two declarations in all, and this one has another before it
      rcases hbefore : declarationsOf before o.id with _ | ⟨old, _ | ⟨_, olds⟩⟩
      · exact (hold hbefore).elim
      · rw [hbefore] at hitems
        cases hitems
        exact .completed ho firstKey lastKey hbefore firstBody lastBody
      · have hlength := congrArg List.length hitems
        rw [hbefore] at hlength
        simp at hlength

namespace Run

theorem RunsCleanly.ledger_placed (h : RunsCleanly options library) :
    (ledger options library).map Prod.snd = library.placed :=
  (clean_mapM_enter h.signatures).trans h.placed_eq

/-- Every declaration of an operation took effect. -/
theorem analyze_accepted (options : Options) (library : SyntaxTree.Library)
    {before after : List LedgerEntry} {e : LedgerEntry}
    (h : ledger options library = before ++ e :: after) :
    Accepted (analyze options library).table before e := by
  have hexplained := withSignatures_explained options library
  have hmem : e ∈ ledger options library := by
    rw [h]
    exact List.mem_append_right _ List.mem_cons_self
  obtain ⟨p, hp⟩ := hexplained.known e hmem
  obtain ⟨o, ho, -⟩ := (analyze_growsTo options library).operation? hp
  have hid : o.id = e.1.id := (analyze_wellFormed options library).operation_id _ o ho
  have hstems := analyze_stems options library o (List.mem_of_getElem? ho)
  rw [hid, h] at hstems
  rw [← hid] at ho
  exact hstems.accepted ho hid.symm (hexplained.sequential before e after h)

/-- The body of an operation is that of its last declaration. -/
theorem RunsCleanly.mirrors_operation (h : RunsCleanly options library) {o : Operation}
    (ho : o ∈ (analyze options library).table.operations) :
    ∃ item, (declarationsOf (ledger options library) o.id).getLast? = some item ∧
      item.1.Mirrors o := by
  have hstems := analyze_stems options library o ho
  have hself := (analyze_wellFormed options library).operation?_id ho
  obtain ⟨hcontracts, hstatements⟩ := h.completed.bodies o.id o hself
  have hsequential := (withSignatures_explained options library).sequential
  rw [filter_recordOperations hsequential] at hcontracts hstatements
  cases hlast : (declarationsOf (ledger options library) o.id).getLast? with
  | none =>
    rw [List.getLast?_eq_none_iff] at hlast
    rw [hlast] at hstems
    cases hstems
  | some item =>
    rw [hlast, Option.toList_some, List.map_singleton, List.flatMap_singleton]
      at hcontracts hstatements
    exact ⟨item, rfl, hcontracts, hstatements⟩

/-- An analysis without errors keeps the whole tree. -/
theorem RunsCleanly.mirrors (h : RunsCleanly options library) :
    Mirrors library (ledger options library) (analyze options library).table where
  types := by
    have hnamed := (analyze_agrees options library).types.trans h.registers_withSignatures.types
    rw [hnamed, List.forall₂_map_right_iff, List.forall₂_same]
    exact fun d hd => TypeDecl.mirrors_toDataType (h.declaresTypes.2 d hd).members
  annotations := by
    rw [(analyze_agrees options library).annotations]
    exact h.registers_withSignatures.annotations
  globals := h.mirrors_variables .global trivial
  automata := h.mirrors_automata
  functions := h.ledger_placed
  accepted := fun _ _ _ => analyze_accepted options library
  operations := fun _ => h.mirrors_operation

end Run

/-- A library that compiles mirrors its whole tree. -/
theorem compile_mirrors {options : Options} {library : SyntaxTree.Library} {l : Library}
    (h : ((Session.start options).compile library).1 = .ok l) :
    Mirrors library (Run.ledger options library) l.table := by
  obtain ⟨hclean, rfl⟩ := Run.clean_of_compile h
  exact hclean.mirrors

/-- There is a library that compiles. -/
theorem compile_mirrors_sample :
    ∃ l, ((Session.start .standard).compile Sample.library).1 = .ok l ∧
      Mirrors Sample.library (Run.ledger .standard Sample.library) l.table := by
  obtain ⟨l, hl⟩ := Sample.library_compiles
  exact ⟨l, hl, compile_mirrors hl⟩

end LibraryContract
