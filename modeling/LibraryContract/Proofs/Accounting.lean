import LibraryContract.CommandLine.Program
import LibraryContract.Proofs.Faults
import LibraryContract.Proofs.Ledger

/-!
# The book of malformed places

A step that meets a malformed place only gives up. It is the run that reports the place, and keeps
the first one for the end. So an analysis fails exactly when it has reported a malformed place, and
it fails with the first that it has reported.

* `Run.Continues`: what a piece of work adds to a run, with the malformed places in order; the rules
  follow the ways of doing work, `Run.continues_settle` for one piece and the others from it.
* `Run.continues_types`, `continues_names`, `continues_operations`: the phases of an analysis, by
  what can be found in them.
* `Session.malformed_places_accounted`: the calls of a session, and what is printed when a library
  was not compiled.
-/

namespace LibraryContract

open SyntaxTree Build

/-- What a run reports about a malformed place. -/
def Malformed.toDiagnostic (m : Malformed) : Diagnostic :=
  .error .malformedTree m.message m.span

namespace Run

variable {α β : Type} {F G : SymbolTable → Diagnostic → Prop} {r s : Run}

/-- The second run comes from the first: it has found some malformed places, of which the first one
counts, and otherwise what `F` allows. -/
structure Continues (F : SymbolTable → Diagnostic → Prop) (r s : Run) : Prop where
  grows : r.table.GrowsTo s.table
  adds : ∃ (found : Diagnostics) (places : List Malformed),
    s.diagnostics = r.diagnostics ++ found ∧
      found.ofKind .malformedTree = places.map Malformed.toDiagnostic ∧
      s.malformed = r.malformed.or places.head? ∧
      ∀ d ∈ found, d.kind = .malformedTree ∨ ∃ u, r.table.GrowsTo u ∧ F u d

theorem Continues.refl (r : Run) : r.Continues F r where
  grows := .refl _
  adds := ⟨[], [], by simp, rfl, by simp, List.forall_mem_nil _⟩

theorem Continues.trans {q : Run} (h : q.Continues F r) (h' : r.Continues F s) :
    q.Continues F s := by
  obtain ⟨found, places, hd, hplaces, hm, hfound⟩ := h.adds
  obtain ⟨found', places', hd', hplaces', hm', hfound'⟩ := h'.adds
  refine ⟨h.grows.trans h'.grows, found ++ found', places ++ places', ?_, ?_, ?_, ?_⟩
  · rw [hd', hd, List.append_assoc]
  · rw [List.map_append, ← hplaces, ← hplaces']
    exact List.filter_append ..
  · rw [hm', hm, Option.or_assoc, List.head?_append]
  · refine List.forall_mem_append.mpr ⟨hfound, fun d hd => ?_⟩
    refine (hfound' d hd).imp_right fun ⟨u, hu, hF⟩ => ⟨u, h.grows.trans hu, hF⟩

theorem Continues.mono (hF : ∀ u d, F u d → G u d) (h : r.Continues F s) : r.Continues G s := by
  obtain ⟨found, places, hd, hplaces, hm, hfound⟩ := h.adds
  refine ⟨h.grows, found, places, hd, hplaces, hm, fun d hd => ?_⟩
  exact (hfound d hd).imp_right fun ⟨u, hu, h⟩ => ⟨u, hu, hF u d h⟩

/-- One piece of work reports at most one malformed place, as the last that it finds. -/
theorem continues_settle (hF : ∀ u d, F u d → d.kind ≠ .malformedTree) {step : Build α}
    (hgrows : r.table.GrowsTo (step.run r.table).2) (hf : step.Finds F r.table) :
    r.Continues F (r.settle step).2 := by
  have hplain : (step.run r.table).1.diagnostics.ofKind .malformedTree = [] := by
    refine List.filter_eq_nil_iff.mpr fun d hd => ?_
    obtain ⟨u, -, hFd⟩ := hf d hd
    simpa using hF u d hFd
  have hfound : ∀ d ∈ (step.run r.table).1.diagnostics,
      d.kind = .malformedTree ∨ ∃ u, r.table.GrowsTo u ∧ F u d := fun d hd => Or.inr (hf d hd)
  refine ⟨by rw [table_settle]; exact hgrows, ?_⟩
  unfold settle
  rcases hr : step.run r.table with ⟨⟨(_ | m) | a, ds⟩, u⟩ <;> rw [hr] at hplain hfound
  · exact ⟨ds, [], rfl, hplain, by simp, hfound⟩
  · refine ⟨ds ++ [m.toDiagnostic], [m], by simp [Malformed.toDiagnostic], ?_, rfl, ?_⟩
    · rw [Diagnostics.ofKind, List.filter_append, show ds.filter _ = [] from hplain]
      rfl
    · exact List.forall_mem_append.mpr ⟨hfound, List.forall_mem_singleton.mpr (Or.inl rfl)⟩
  · exact ⟨ds, [], rfl, hplain, by simp, hfound⟩

variable {S : SymbolTable → SymbolTable → Prop}

/-- The items are looked at in tables that the changes so far have led to. -/
theorem continues_performAll (hF : ∀ u d, F u d → d.kind ≠ .malformedTree)
    (hS : ∀ {t u}, S t u → t.GrowsTo u) {step : α → Build β} {items : List α}
    (hw : ∀ a ∈ items, ∀ t, (step a).Within S t)
    (hf : ∀ a ∈ items, ∀ t, Relation.ReflTransGen S r.table t → (step a).Finds F t) :
    r.Continues F (r.performAll step items) := by
  induction items generalizing r with
  | nil => exact .refl r
  | cons a rest ih =>
    have ha : r.Continues F (r.perform (step a)) :=
      continues_settle hF ((hw a List.mem_cons_self _).growsTo hS) (hf a List.mem_cons_self _ .refl)
    refine ha.trans (ih (fun b hb => hw b (List.mem_cons_of_mem a hb)) fun b hb t ht => ?_)
    refine hf b (List.mem_cons_of_mem a hb) t (.trans ?_ ht)
    exact within_settle (hw a List.mem_cons_self _)

theorem continues_collect (hF : ∀ u d, F u d → d.kind ≠ .malformedTree)
    (hS : ∀ {t u}, S t u → t.GrowsTo u) {step : α → Build β} {items : List α}
    (hw : ∀ a ∈ items, ∀ t, (step a).Within S t) (hf : ∀ a ∈ items, ∀ t, (step a).Finds F t) :
    r.Continues F (r.collect step items).2 := by
  induction items generalizing r with
  | nil => exact .refl r
  | cons a rest ih =>
    rw [collect_cons]
    have ha : r.Continues F (r.settle (step a)).2 :=
      continues_settle hF ((hw a List.mem_cons_self _).growsTo hS) (hf a List.mem_cons_self _)
    exact ha.trans (ih (fun b hb => hw b (List.mem_cons_of_mem a hb)) fun b hb =>
      hf b (List.mem_cons_of_mem a hb))

/-! ## Phases -/

/-- The types are declared, but not looked at yet. -/
def withDeclaredTypes (library : SyntaxTree.Library) : Run :=
  (start.collect (fun d : TypeDecl => do d.declare; return d) library.types).2

theorem declares_return {S : SymbolTable → SymbolTable → Prop} {b : Build α} {a : β}
    {t : SymbolTable} (h : b.Within S t) : (b >>= fun _ => (Pure.pure a : Build β)).Within S t :=
  within_bind h fun _ _ _ => within_pure _

theorem continues_types (library : SyntaxTree.Library) :
    start.Continues (fun _ d => d.kind = .duplicateDeclaration) (withDeclaredTypes library) := by
  refine continues_collect (fun _ d h hd => ?_) Declares.growsTo (fun d _ t => ?_) fun d _ t => ?_
  · rw [hd] at h
    cases h
  · exact declares_return (d.declare_within t)
  · refine finds_bind (fun e he => ⟨t, .refl t, d.declare_reports t e he⟩) ?_ fun _ u _ =>
      finds_pure _
    exact (d.declare_within t).growsTo Declares.growsTo

theorem continues_names (library : SyntaxTree.Library) :
    (withDeclaredTypes library).Continues DeclarationFault (withAutomata library).2 := by
  have hF : ∀ u d, DeclarationFault u d → d.kind ≠ .malformedTree :=
    fun _ _ => DeclarationFault.not_malformed
  have htypes : (withDeclaredTypes library).Continues DeclarationFault (withTypes library) :=
    continues_performAll hF Interns.growsTo (fun d _ t => d.validate_within t) fun d _ t _ =>
      d.finds_validate
  have hannotations : (withTypes library).Continues DeclarationFault (withAnnotations library) :=
    continues_performAll hF Furnishes.growsTo (fun d _ t => d.declare_within t) fun d _ t _ =>
      d.finds_declare
  have hglobals : (withAnnotations library).Continues DeclarationFault (withGlobals library).2 := by
    have hg : VariableScope.global.OutsideOperations := trivial
    show (withAnnotations library).Continues DeclarationFault ((withAnnotations library).collect
      (fun d : VariableDecl => do d.declare .global; return d) library.globals).2
    refine continues_collect hF Furnishes.growsTo (fun d _ t => ?_) fun d _ t => ?_
    · exact declares_return (d.declare_within hg t)
    · exact finds_bind (d.finds_declare .global)
        ((d.declare_within hg t).growsTo Furnishes.growsTo) fun _ u _ => finds_pure _
  have hautomata : (withGlobals library).2.Continues DeclarationFault (withAutomata library).2 :=
    continues_collect hF Declares.growsTo (fun d _ t => d.declare_within t) fun d _ t =>
      d.finds_declare
  exact ((htypes.trans hannotations).trans hglobals).trans hautomata

variable {L : Diagnostic → Prop}

theorem continues_enter (options : Options) (items : List Placed) (r : Run) :
    r.Continues (Fault L) (r.collect (enter options) items).2 := by
  refine continues_collect (fun _ _ => Fault.not_malformed) Signs.growsTo (fun item _ t => ?_)
    fun item _ t => ?_
  · exact within_bind (item.1.register_within options item.2 t) fun _ _ _ => within_pure _
  · exact finds_bind (item.1.finds_register options item.2)
      ((item.1.register_within options item.2 t).growsTo Signs.growsTo) fun _ u _ => finds_pure _

theorem continues_signatures (options : Options) (library : SyntaxTree.Library) :
    (withAutomata library).2.Continues (Fault L) (withSignatures options library).2 := by
  rw [withSignatures_run]
  exact continues_enter options _ _

/-- What is known of the automata while their shifts are looked at. -/
theorem continues_automaton {a : PendingAutomaton}
    (ha : ∀ p ∈ a.initializers, p.scope.OutsideOperations)
    (hl : ∀ d ∈ a.declaration.shifts, ∀ t, Relation.ReflTransGen Elaborates r.table t →
      ∀ e, d.Asks (((t.automaton? a.id).map Automaton.name).getD "") t e → L e) :
    r.Continues (Fault L) (elaborateAutomaton r a) := by
  have hF : ∀ (u : SymbolTable) d, Fault L u d → d.kind ≠ .malformedTree :=
    fun _ _ => Fault.not_malformed
  have hvalues : ∀ p ∈ a.initializers, ∀ t,
      (p.elaborate (.inAutomaton a.id)).Within Elaborates t :=
    fun p hp t => elaborateInitializer_within rfl rfl (ha p hp) t
  refine (continues_performAll hF Elaborates.growsTo hvalues fun p _ t _ =>
    p.finds_elaborate _).trans ?_
  refine continues_performAll hF (fun h => h.elaborates.growsTo)
    (fun d _ t => d.elaborate_within a.id t) fun d hd t ht => ?_
  refine (d.finds_elaborate a.id).mono fun u e => Fault.mono (hl d hd t ?_)
  exact (within_performAll hvalues r).trans
    (Relation.ReflTransGen.mono (fun _ _ => Connects.elaborates) _ _ ht)

theorem continues_automata {automata : List PendingAutomaton}
    (ha : ∀ a ∈ automata, ∀ p ∈ a.initializers, p.scope.OutsideOperations)
    (hl : ∀ a ∈ automata, ∀ d ∈ a.declaration.shifts, ∀ t,
      Relation.ReflTransGen Elaborates r.table t →
        ∀ e, d.Asks (((t.automaton? a.id).map Automaton.name).getD "") t e → L e) :
    r.Continues (Fault L) (automata.foldl elaborateAutomaton r) := by
  induction automata generalizing r with
  | nil => exact .refl r
  | cons a rest ih =>
    have hfirst := ha a List.mem_cons_self
    refine (continues_automaton hfirst (hl a List.mem_cons_self)).trans (ih ?_ ?_)
    · exact fun b hb => ha b (List.mem_cons_of_mem a hb)
    · intro b hb d hd t ht
      refine hl b (List.mem_cons_of_mem a hb) d hd t (.trans ?_ ht)
      exact elaborateAutomaton_elaborates hfirst r

/-- From the registration of the operations on, when `L` holds of whatever the shifts of the
registered automata say about the operations that they name. -/
theorem continues_elaboration (options : Options) (library : SyntaxTree.Library)
    (hl : ∀ a ∈ (withAutomata library).1, ∀ d ∈ a.declaration.shifts, ∀ t,
      Relation.ReflTransGen Elaborates (withSignatures options library).2.table t →
        ∀ e, d.Asks (((t.automaton? a.id).map Automaton.name).getD "") t e → L e) :
    (withSignatures options library).2.Continues (Fault L) (analyze options library) := by
  have hF : ∀ (u : SymbolTable) d, Fault L u d → d.kind ≠ .malformedTree :=
    fun _ _ => Fault.not_malformed
  have hvalues : ∀ p ∈ (withGlobals library).1, ∀ t, (p.elaborate .global).Within Elaborates t := by
    refine fun p hp t => elaborateInitializer_within rfl rfl ?_ t
    obtain ⟨d, -, hd⟩ := List.mem_filterMap.mp hp
    exact d.scope_pending hd ▸ trivial
  have hglobals : (withSignatures options library).2.Continues (Fault L)
      (withInitials options library) :=
    continues_performAll hF Elaborates.growsTo hvalues fun p _ t _ => p.finds_elaborate _
  have hautomata : (withInitials options library).Continues (Fault L)
      (withShifts options library) := by
    refine continues_automata (collect_forall fun d _ t a u h => AutomatonDecl.declare_scope h) ?_
    exact fun a ha d hd t ht => hl a ha d hd t ((within_performAll hvalues _).trans ht)
  rw [analyze_eq]
  refine (hglobals.trans hautomata).trans ?_
  exact continues_performAll hF Elaborates.growsTo
    (fun o _ t => o.declaration.elaborate_within o.id t) fun o _ t _ => o.declaration.finds_elaborate _

/-- Apart from malformed places, an analysis never says that the tree is malformed. -/
theorem continues_analyze (options : Options) (library : SyntaxTree.Library) :
    start.Continues (fun _ d => d.kind ≠ .malformedTree) (analyze options library) := by
  have htypes := (continues_types library).mono (G := fun _ d => d.kind ≠ .malformedTree)
    fun u d h => by rw [h]; decide
  have hnames := (continues_names library).mono (G := fun _ d => d.kind ≠ .malformedTree)
    fun u d h => h.not_malformed
  have hsignatures := (continues_signatures (L := fun _ => True) options library).mono
    (G := fun _ d => d.kind ≠ .malformedTree) fun u d h => h.not_malformed
  have helaboration := (continues_elaboration (L := fun _ => True) options library
    fun _ _ _ _ _ _ _ _ => trivial).mono (G := fun _ d => d.kind ≠ .malformedTree)
      fun u d h => h.not_malformed
  exact ((htypes.trans hnames).trans hsignatures).trans helaboration

/-- The book of an analysis: the malformed places that it has reported, in order. -/
theorem analyze_places (options : Options) (library : SyntaxTree.Library) :
    ∃ places : List Malformed,
      (analyze options library).diagnostics.ofKind .malformedTree =
        places.map Malformed.toDiagnostic ∧
      (analyze options library).malformed = places.head? := by
  obtain ⟨found, places, hd, hplaces, hm, -⟩ := (continues_analyze options library).adds
  refine ⟨places, ?_, hm⟩
  rw [hd]
  exact hplaces

end Run

namespace Session

theorem analyze_eq_error {s : Session} {library : SyntaxTree.Library} {m : Malformed} :
    (s.analyze library).1 = .error m ↔ (Run.analyze s.options library).malformed = some m := by
  rw [analyze_fst]
  cases (Run.analyze s.options library).malformed <;> simp

/-- A compilation in a new session succeeds when no error is found. -/
theorem compile_succeeds_iff (options : Options) (library : SyntaxTree.Library) :
    (∃ l, ((start options).compile library).1 = .ok l) ↔ (Run.analyze options library).Faultless := by
  constructor
  · rintro ⟨l, hl⟩
    exact (compile_eq_ok hl).1
  · intro hfaultless
    obtain ⟨places, hplaces, hm⟩ := Run.analyze_places options library
    -- a malformed place would be among the errors
    have hnone : (Run.analyze options library).malformed = none := by
      rw [hm, List.head?_eq_none_iff, ← List.map_eq_nil_iff, ← hplaces, Diagnostics.ofKind,
        List.filter_eq_nil_iff]
      intro d hd hkind
      have hmem : d ∈ places.map Malformed.toDiagnostic :=
        hplaces ▸ List.mem_filter.mpr ⟨hd, hkind⟩
      obtain ⟨m, -, rfl⟩ := List.mem_map.mp hmem
      rw [Run.Faultless, Diagnostics.hasErrors, List.any_eq_false] at hfaultless
      exact hfaultless _ hd rfl
    rw [Run.Faultless, ← diagnostics_analyze_start] at hfaultless
    exact ⟨_, compile_eq_ok_iff.mpr ⟨analyze_eq_ok.mpr ⟨hnone, rfl⟩, hfaultless⟩⟩

theorem compile_fails_iff (options : Options) (library : SyntaxTree.Library) :
    (∃ e, ((start options).compile library).1 = .error e) ↔
      0 < Diagnostics.errorCount ((start options).compile library).2.diagnostics := by
  have hok : (∃ e, ((start options).compile library).1 = .error e) ↔
      ¬∃ l, ((start options).compile library).1 = .ok l := by
    cases ((start options).compile library).1 <;> simp
  rw [← Diagnostics.hasErrors_iff_errorCount_pos, compile_snd, diagnostics_analyze_start, hok,
    compile_succeeds_iff, Run.Faultless, Bool.not_eq_false]

/-- An analysis fails exactly when it has reported a malformed place, and then with the first that
it has reported; all these reports are errors. So a compilation in a new session fails exactly when
there is an error, and the text for a failure without errors is never printed. -/
theorem malformed_places_accounted (s : Session) (library : SyntaxTree.Library) :
    (∃ found : Diagnostics,
      (s.analyze library).2 = { s with diagnostics := s.diagnostics ++ found } ∧
      ((∃ m, (s.analyze library).1 = .error m) ↔ ∃ d ∈ found, d.kind = .malformedTree) ∧
      (∀ m, (s.analyze library).1 = .error m → ∃ d,
        (found.ofKind .malformedTree).head? = some d ∧ d.message = m.message ∧
          d.span = some m.span) ∧
      ∀ d ∈ found, d.kind = .malformedTree → d.level = .error) ∧
    ∀ options, ((∃ e, ((start options).compile library).1 = .error e) ↔
        1 ≤ Diagnostics.errorCount ((start options).compile library).2.diagnostics) ∧
      ∀ e, ((start options).compile library).1 = .error e →
        let count := Diagnostics.errorCount ((start options).compile library).2.diagnostics
        CommandLine.failureText e count = s!"{e.message} with {count} error(s)" := by
  refine ⟨⟨(Run.analyze s.options library).diagnostics, analyze_snd s library, ?_⟩,
    fun options => ⟨compile_fails_iff options library, fun e he => ?_⟩⟩
  · obtain ⟨places, hplaces, hm⟩ := Run.analyze_places s.options library
    have hreported : ∀ d ∈ (Run.analyze s.options library).diagnostics, d.kind = .malformedTree →
        ∃ m ∈ places, Malformed.toDiagnostic m = d := by
      intro d hd hkind
      have hmem : d ∈ (Run.analyze s.options library).diagnostics.ofKind .malformedTree :=
        List.mem_filter.mpr ⟨hd, decide_eq_true hkind⟩
      rw [hplaces] at hmem
      exact List.mem_map.mp hmem
    refine ⟨?_, fun m hfails => ?_, fun d hd hkind => ?_⟩
    · simp only [analyze_eq_error, hm]
      constructor
      · rintro ⟨m, hhead⟩
        have hmem : m.toDiagnostic ∈
            (Run.analyze s.options library).diagnostics.ofKind .malformedTree :=
          hplaces ▸ List.mem_map_of_mem (List.mem_of_head? hhead)
        exact ⟨_, (List.mem_filter.mp hmem).1, rfl⟩
      · rintro ⟨d, hd, hkind⟩
        obtain ⟨m, hmem, -⟩ := hreported d hd hkind
        exact ⟨_, List.head?_eq_some_head (List.ne_nil_of_mem hmem)⟩
    · rw [analyze_eq_error, hm] at hfails
      exact ⟨m.toDiagnostic, by rw [hplaces, List.head?_map, hfails]; rfl, rfl, rfl⟩
    · obtain ⟨m, -, rfl⟩ := hreported d hd hkind
      rfl
  · have hcount := (compile_fails_iff options library).mp ⟨e, he⟩
    simp only [CommandLine.failureText, if_pos hcount]

end Session

end LibraryContract
