import LibraryContract.Proofs.CleanRun

/-!
# Lenient ownership

An operation inside an automaton may also name its owner, which is one name too many. Under strict
ownership this is an error; under lenient ownership it is only warned about as long as both agree. So
a lenient analysis is a strict one of the tree in which such a name is left out, but for the warnings.

* `Library.withoutRepeatedOwners`: the tree in which no operation names the automaton around it;
* `Build.SparedBy`: a step does what another one does, but for the warnings about owners. Only the
  choice of an owner can warn, so other steps are spared by themselves (`Warnless.sparedBy`);
* `Run.spare`: the run without these warnings. It goes through each phase as the run itself does, up
  to `Run.analyze_spare`;
* `lenient_ownership`: what follows for a session.
-/

namespace LibraryContract

open SyntaxTree Build

/-- Operations inside an automaton do not name an owner. -/
def Options.strict : Options := ⟨true⟩

/-- Operations inside an automaton may name it as their owner. -/
def Options.lenient : Options := ⟨false⟩

namespace SyntaxTree

/-- The declaration without an owner. -/
def FunctionDecl.unqualified (d : FunctionDecl) : FunctionDecl := { d with automaton := none }

/-- The declaration without its owner when that is the given one. -/
def FunctionDecl.withoutOwner (name : String) (d : FunctionDecl) : FunctionDecl :=
  { d with automaton := d.automaton.filter fun qualifier => decide (qualifier.name ≠ name) }

/-- The declaration in which no operation names the automaton around it. -/
def AutomatonDecl.withoutRepeatedOwners (d : AutomatonDecl) : AutomatonDecl :=
  { d with functions := d.functions.map (FunctionDecl.withoutOwner d.name.name) }

def Declaration.withoutRepeatedOwners : Declaration → Declaration
  | .automatonDecl d => .automatonDecl d.withoutRepeatedOwners
  | d => d

/-- The tree in which no operation names the automaton around it. -/
def Library.withoutRepeatedOwners (l : Library) : Library :=
  { l with declarations := l.declarations.map Declaration.withoutRepeatedOwners }

end SyntaxTree

/-- The diagnostic warns about an owner. -/
def Diagnostic.isOwnerWarning (d : Diagnostic) : Bool :=
  decide (d.level = .warning ∧ d.kind = .conflictingOwner)

/-- The diagnostics without the warnings about owners. -/
def Diagnostics.withoutOwnerWarnings (ds : Diagnostics) : Diagnostics :=
  ds.filter fun d => !d.isOwnerWarning

namespace Diagnostics

theorem withoutOwnerWarnings_append (ds es : Diagnostics) :
    withoutOwnerWarnings (ds ++ es) = withoutOwnerWarnings ds ++ withoutOwnerWarnings es :=
  List.filter_append ..

theorem withoutOwnerWarnings_of_isError {ds : Diagnostics} (h : ∀ d ∈ ds, d.isError = true) :
    withoutOwnerWarnings ds = ds := by
  refine List.filter_eq_self.mpr fun d hd => ?_
  have hlevel : d.level = .error := of_decide_eq_true (h d hd)
  simp [Diagnostic.isOwnerWarning, hlevel]

end Diagnostics

variable {α β : Type} {t : SymbolTable}

/-! ## Steps -/

/-- The outcome without the warnings about owners. -/
def Outcome.spare (o : Outcome α) : Outcome α :=
  { o with diagnostics := o.diagnostics.withoutOwnerWarnings }

/-- In the table `t`, the second step does what the first one does but for the warnings about
owners. -/
def Build.SparedBy (t : SymbolTable) (b c : Build α) : Prop :=
  c.run t = ((b.run t).1.spare, (b.run t).2)

namespace Build

theorem Warnless.sparedBy {b : Build α} (h : b.Warnless) (t : SymbolTable) : b.SparedBy t b := by
  rw [SparedBy, Outcome.spare, Diagnostics.withoutOwnerWarnings_of_isError (h.isError t)]

theorem SparedBy.bind {b c : Build α} {f : α → Build β} (h : b.SparedBy t c)
    (hf : ∀ a, (f a).Warnless) : (b >>= f).SparedBy t (c >>= f) := by
  show (Build.bind c f).run t = (((Build.bind b f).run t).1.spare, ((Build.bind b f).run t).2)
  have hresult : (c.run t).1.result = (b.run t).1.result := by rw [h]; rfl
  cases hr : (b.run t).1.result with
  | error e =>
    rw [run_bind_of_error hr, run_bind_of_error (hresult.trans hr), h]
    rfl
  | ok a =>
    -- from here on both steps are the same, and do not warn
    have hspare := Diagnostics.withoutOwnerWarnings_of_isError ((hf a).isError (b.run t).2)
    rw [run_bind_of_ok hr, run_bind_of_ok (hresult.trans hr), h]
    simp only [Outcome.spare, Diagnostics.withoutOwnerWarnings_append, hspare]

end Build

namespace SyntaxTree

/-- The automaton is declared as before, with other operations to come. -/
theorem AutomatonDecl.declare_withoutRepeatedOwners (d : AutomatonDecl) :
    d.withoutRepeatedOwners.declare =
      (fun a : PendingAutomaton => { a with declaration := a.declaration.withoutRepeatedOwners }) <$>
        d.declare := by
  simp only [AutomatonDecl.declare, map_bind, map_pure]
  rfl

namespace FunctionDecl

/-- What a registration does once the owner is known. -/
def registerFor (d : FunctionDecl) (owner : AutomatonId) : Build Registration := do
  let signature ← d.signature owner
  let registration ← Build.register (fun t => t.registerOperation signature) d.span
  declareResult registration.id d.span
  return registration

theorem register_eq (options : Options) (d : FunctionDecl) (enclosing : Option AutomatonId) :
    d.register options enclosing =
      (liftM (d.resolveOwner options enclosing) : Build AutomatonId) >>= d.registerFor := rfl

theorem warnless_registerFor (d : FunctionDecl) (owner : AutomatonId) :
    (d.registerFor owner).Warnless := by
  refine .bind (d.warnless_signature owner) fun s => .bind (.register _ _) fun r => ?_
  exact .bind (warnless_declareResult _ _) fun _ => .pure _

/-- Only an operation that is inside an automaton and names an owner depends on the options. -/
theorem register_strict {d : FunctionDecl} {enclosing : Option AutomatonId}
    (h : enclosing = none ∨ d.automaton = none) :
    d.register .strict enclosing = d.register .lenient enclosing := by
  have howner : d.resolveOwner .strict enclosing = d.resolveOwner .lenient enclosing := by
    unfold resolveOwner
    rcases h with rfl | h
    · cases d.automaton <;> rfl
    · rw [h]
      cases enclosing <;> rfl
  rw [register_eq, register_eq, howner]

/-- Outside of every automaton there is nothing to be lenient about. -/
theorem sparedBy_register_none (d : FunctionDecl) (t : SymbolTable) :
    (d.register .lenient none).SparedBy t (d.register .strict none) := by
  rw [register_strict (.inl rfl)]
  refine Warnless.sparedBy ?_ t
  rw [register_eq]
  refine .bind (.ofCheck ?_) d.warnless_registerFor
  unfold resolveOwner
  cases d.automaton with
  | none => exact .fail _ _ _
  | some qualifier => exact qualifier.warnless_resolveAutomaton

/-- The choice of the owner of an operation that is inside an automaton and names one as well. -/
theorem run_resolveOwner (options : Options) {d : FunctionDecl} {qualifier : Identifier}
    {id : AutomatonId} {name : String} (hd : d.automaton = some qualifier)
    (hname : ((t.automaton? id).map Automaton.name).getD "" = name) :
    (d.resolveOwner options (some id)).run t =
      if !options.strictOwnership && decide (qualifier.name = name) then
        ⟨.ok id, [.warning .conflictingOwner
          s!"{d.words} is nested in automaton '{name}' and needs no qualifier" qualifier.span]⟩
      else
        ⟨.error .reported, [.error .conflictingOwner
          s!"{d.words} is nested in automaton '{name}' and also qualified with '{qualifier.name}'"
          qualifier.span]⟩ := by
  unfold resolveOwner
  rw [hd]
  refine (Check.run_bind_of_ok (congrArg Except.ok hname)).trans ?_
  split <;> rfl

/-- Inside of an automaton, to be lenient about its name is to do without it. -/
theorem sparedBy_register_some (d : FunctionDecl) {id : AutomatonId} {a : Automaton}
    (ha : t.automaton? id = some a) :
    (d.register .lenient (some id)).SparedBy t
      ((d.withoutOwner a.name).register .strict (some id)) := by
  have hrest : (d.withoutOwner a.name).registerFor = d.registerFor := rfl
  rw [register_eq, register_eq, hrest]
  refine SparedBy.bind (congrArg (·, t) ?_) d.warnless_registerFor
  show ((d.withoutOwner a.name).resolveOwner .strict (some id)).run t =
    ((d.resolveOwner .lenient (some id)).run t).spare
  cases hd : d.automaton with
  | none =>
    have hd' : (d.withoutOwner a.name).automaton = none := by rw [withoutOwner, hd]; rfl
    unfold resolveOwner
    rw [hd, hd']
    rfl
  | some qualifier =>
    have hfound : ((t.automaton? id).map Automaton.name).getD "" = a.name := by rw [ha]; rfl
    rw [run_resolveOwner _ hd hfound]
    by_cases hname : qualifier.name = a.name
    · -- the name is gone, and so is the warning
      have hd' : (d.withoutOwner a.name).automaton = none := by simp [withoutOwner, hd, hname]
      unfold resolveOwner
      rw [hd', if_pos (by simp [Options.lenient, hname])]
      rfl
    · -- the name stays, and is an error either way
      have hd' : (d.withoutOwner a.name).automaton = some qualifier := by
        simp [withoutOwner, hd, hname]
      rw [run_resolveOwner _ hd' hfound, if_neg (by simp [hname]), if_neg (by simp [hname])]
      rfl

end FunctionDecl

end SyntaxTree

/-! ## Pieces of work -/

/-- The operation with a declaration that names no owner. -/
def PendingOperation.unqualified (o : PendingOperation) : PendingOperation :=
  { o with declaration := o.declaration.unqualified }

/-- The automaton with a declaration in which no operation names it. -/
def PendingAutomaton.withoutRepeatedOwners (a : PendingAutomaton) : PendingAutomaton :=
  { a with declaration := a.declaration.withoutRepeatedOwners }

namespace Run

/-- The run without the warnings about owners. -/
def spare (r : Run) : Run := { r with diagnostics := r.diagnostics.withoutOwnerWarnings }

theorem settle_spare {b c : Build α} {r : Run} (h : b.SparedBy r.table c) :
    r.spare.settle c = ((r.settle b).1, (r.settle b).2.spare) := by
  have hrun : c.run r.spare.table = ((b.run r.table).1.spare, (b.run r.table).2) := h
  have herror (m : Malformed) :
      Diagnostics.withoutOwnerWarnings [.error .malformedTree m.message m.span] =
        [.error .malformedTree m.message m.span] := rfl
  unfold settle
  rw [hrun]
  rcases b.run r.table with ⟨⟨(_ | m) | a, ds⟩, u⟩ <;>
    simp [Outcome.spare, spare, Diagnostics.withoutOwnerWarnings_append, herror]

theorem performAll_spare {step : α → Build β} (hs : ∀ a, (step a).Warnless) (items : List α)
    (r : Run) : r.spare.performAll step items = (r.performAll step items).spare := by
  induction items generalizing r with
  | nil => rfl
  | cons a rest ih =>
    have ha : r.spare.perform (step a) = (r.perform (step a)).spare :=
      congrArg Prod.snd (settle_spare ((hs a).sparedBy r.table))
    show (r.spare.perform (step a)).performAll step rest = _
    rw [ha]
    exact ih _

theorem collect_spare {step : α → Build β} (hs : ∀ a, (step a).Warnless) (items : List α) (r : Run) :
    r.spare.collect step items = ((r.collect step items).1, (r.collect step items).2.spare) := by
  induction items generalizing r with
  | nil => rfl
  | cons a rest ih => rw [collect_cons, collect_cons, settle_spare ((hs a).sparedBy r.table), ih]

/-! ## Operations -/

/-- Which operations there are does not depend on the owners that their declarations name. -/
theorem unqualified_recordOperation (operations : List PendingOperation) (r : Registration)
    (d : FunctionDecl) :
    (recordOperation operations r d).map PendingOperation.unqualified =
      recordOperation (operations.map PendingOperation.unqualified) r d.unqualified := by
  cases r with
  | new id => simp [recordOperation, PendingOperation.unqualified]
  | completed id =>
    have hany : ((operations.map PendingOperation.unqualified).any fun o => decide (o.id = id)) =
        operations.any fun o => decide (o.id = id) := by
      rw [List.any_map]
      rfl
    unfold recordOperation
    dsimp only
    rw [hany]
    split
    · rw [List.map_map, List.map_map]
      refine List.map_congr_left fun o _ => ?_
      simp only [Function.comp, apply_ite PendingOperation.unqualified]
      rfl
    · rw [List.map_append]
      rfl

/-- A declaration of an operation in the tree and the one that stands for it in the tree without
repeated owners. -/
inductive Pruned (t : SymbolTable) : Placed → Placed → Prop
  | nested (d : FunctionDecl) {id : AutomatonId} {a : Automaton} (ha : t.automaton? id = some a) :
      Pruned t (d, some id) (d.withoutOwner a.name, some id)
  | topLevel (d : FunctionDecl) : Pruned t (d, none) (d, none)

theorem Pruned.mono {t u : SymbolTable} {item item' : Placed} (h : Pruned t item item')
    (hu : t.GrowsTo u) : Pruned u item item' := by
  cases h with
  | nested d ha =>
    obtain ⟨b, hb, hgrows⟩ := hu.automaton? ha
    rw [← hgrows.name]
    exact .nested d hb
  | topLevel d => exact .topLevel d

theorem Pruned.sparedBy_register {t : SymbolTable} {item item' : Placed} (h : Pruned t item item') :
    (item.1.register .lenient item.2).SparedBy t (item'.1.register .strict item'.2) := by
  cases h with
  | nested d ha => exact d.sparedBy_register_some ha
  | topLevel d => exact d.sparedBy_register_none t

theorem Pruned.unqualified {t : SymbolTable} {item item' : Placed} (h : Pruned t item item') :
    item'.1.unqualified = item.1.unqualified := by
  cases h <;> rfl

/-- Both states have the same operations, whatever owners their declarations name, and the second run
is the first one without the warnings about owners. -/
structure SparesTo (state state' : List PendingOperation × Run) : Prop where
  operations : state'.1.map PendingOperation.unqualified =
    state.1.map PendingOperation.unqualified
  run : state'.2 = state.2.spare

/-- A lenient registration goes the same way as the strict one that stands for it. -/
theorem SparesTo.register {state state' : List PendingOperation × Run}
    {item item' : Placed} (h : SparesTo state state') (hitem : Pruned state.2.table item item') :
    SparesTo (registerSignature .lenient state item) (registerSignature .strict state' item') := by
  obtain ⟨operations, r⟩ := state
  obtain ⟨operations', r'⟩ := state'
  obtain ⟨hoperations, rfl⟩ := h
  unfold registerSignature
  dsimp only
  rw [settle_spare hitem.sparedBy_register]
  rcases r.settle (item.1.register .lenient item.2) with ⟨_ | registration, u⟩
  · exact ⟨hoperations, rfl⟩
  · refine ⟨?_, rfl⟩
    dsimp only at hoperations ⊢
    rw [unqualified_recordOperation, unqualified_recordOperation, hoperations, hitem.unqualified]

theorem SparesTo.registerAll {items items' : List Placed}
    {state state' : List PendingOperation × Run} (h : SparesTo state state')
    (hitems : List.Forall₂ (Pruned state.2.table) items items') :
    SparesTo (items.foldl (registerSignature .lenient) state)
      (items'.foldl (registerSignature .strict) state') := by
  induction items generalizing items' state state' with
  | nil =>
    cases hitems
    exact h
  | cons item rest ih =>
    cases hitems with
    | cons hitem hrest =>
      have hgrows : state.2.table.GrowsTo (registerSignature .lenient state item).2.table :=
        .of_reflTransGen (registerSignature_signs _ _ _) fun _ _ => Signs.growsTo
      rw [List.foldl_cons, List.foldl_cons]
      exact ih (h.register hitem) (hrest.imp fun _ _ hpruned => hpruned.mono hgrows)

end Run

/-! ## Analyses -/

section Trees

variable (l : SyntaxTree.Library)

/-- Declarations of any kind but that of automata stay as they are. -/
theorem filterMap_withoutRepeatedOwners {g : Declaration → Option α}
    (h : ∀ d : Declaration, g d.withoutRepeatedOwners = g d) :
    l.withoutRepeatedOwners.declarations.filterMap g = l.declarations.filterMap g :=
  (List.filterMap_map ..).trans (congrArg (List.filterMap · l.declarations) (funext h))

theorem types_withoutRepeatedOwners : l.withoutRepeatedOwners.types = l.types :=
  filterMap_withoutRepeatedOwners l fun d => by cases d <;> rfl

theorem annotations_withoutRepeatedOwners :
    l.withoutRepeatedOwners.annotations = l.annotations :=
  filterMap_withoutRepeatedOwners l fun d => by cases d <;> rfl

theorem globals_withoutRepeatedOwners : l.withoutRepeatedOwners.globals = l.globals :=
  filterMap_withoutRepeatedOwners l fun d => by cases d <;> rfl

theorem functions_withoutRepeatedOwners : l.withoutRepeatedOwners.functions = l.functions :=
  filterMap_withoutRepeatedOwners l fun d => by cases d <;> rfl

theorem automata_withoutRepeatedOwners :
    l.withoutRepeatedOwners.automata = l.automata.map AutomatonDecl.withoutRepeatedOwners := by
  refine (List.filterMap_map ..).trans (.trans ?_ (List.map_filterMap ..).symm)
  refine congrArg (List.filterMap · l.declarations) ?_
  funext d
  cases d <;> rfl

end Trees

namespace Run

variable (l : SyntaxTree.Library)

theorem withTypes_spare : withTypes l.withoutRepeatedOwners = (withTypes l).spare := by
  have hstart : start = start.spare := rfl
  have hkeep : ∀ d : TypeDecl, (d.declare >>= fun _ => Pure.pure d).Warnless :=
    fun d => .bind d.warnless_declare fun _ => .pure d
  unfold withTypes registerTypes
  rw [types_withoutRepeatedOwners]
  conv_lhs => rw [hstart, collect_spare hkeep]
  exact performAll_spare TypeDecl.warnless_validate _ _

theorem withAnnotations_spare :
    withAnnotations l.withoutRepeatedOwners = (withAnnotations l).spare := by
  unfold withAnnotations registerAnnotations
  rw [annotations_withoutRepeatedOwners, withTypes_spare]
  exact performAll_spare AnnotationDecl.warnless_declare _ _

theorem withGlobals_spare :
    withGlobals l.withoutRepeatedOwners = ((withGlobals l).1, (withGlobals l).2.spare) := by
  have hkeep : ∀ d : VariableDecl, (d.declare .global >>= fun _ => Pure.pure d).Warnless :=
    fun d => .bind (d.warnless_declare .global) fun _ => .pure d
  unfold withGlobals registerGlobals
  rw [globals_withoutRepeatedOwners, withAnnotations_spare, collect_spare hkeep]

theorem withAutomata_spare :
    withAutomata l.withoutRepeatedOwners =
      ((withAutomata l).1.map PendingAutomaton.withoutRepeatedOwners,
        (withAutomata l).2.spare) := by
  unfold withAutomata registerAutomata
  rw [automata_withoutRepeatedOwners, withGlobals_spare,
    collect_map AutomatonDecl.declare_withoutRepeatedOwners,
    collect_spare AutomatonDecl.warnless_declare]
  rfl

/-- The declarations of operations in the tree without repeated owners stand for those of the tree. -/
theorem placed_pruned :
    List.Forall₂ (Pruned (withAutomata l).2.table) (placed l) (placed l.withoutRepeatedOwners) := by
  unfold placed operationDeclarations
  rw [withAutomata_spare, functions_withoutRepeatedOwners, List.flatMap_map]
  refine List.rel_append ?_ ?_
  · have hautomata : List.Forall₂ (fun a a' => a ∈ (withAutomata l).1 ∧ a = a') (withAutomata l).1
        (withAutomata l).1 := List.forall₂_same.mpr fun a ha => ⟨ha, rfl⟩
    refine List.rel_flatMap hautomata ?_
    rintro a _ ⟨ha, rfl⟩
    obtain ⟨b, hb, hheads⟩ := withAutomata_heads l a ha
    show List.Forall₂ _ _ ((a.declaration.functions.map _).map _)
    rw [List.map_map, List.forall₂_map_left_iff, List.forall₂_map_right_iff, ← hheads.name]
    exact List.forall₂_same.mpr fun d _ => .nested d hb
  · rw [List.forall₂_map_left_iff, List.forall₂_map_right_iff]
    exact List.forall₂_same.mpr fun d _ => .topLevel d

/-- The registration of the operations. -/
theorem withSignatures_spare :
    SparesTo (withSignatures .lenient l) (withSignatures .strict l.withoutRepeatedOwners) := by
  unfold withSignatures registerSignatures
  have hautomata : (withAutomata l.withoutRepeatedOwners).2 = (withAutomata l).2.spare := by
    rw [withAutomata_spare]
  exact SparesTo.registerAll ⟨rfl, hautomata⟩ (placed_pruned l)

theorem elaborateAutomaton_spare (r : Run) (a : PendingAutomaton) :
    elaborateAutomaton r.spare a.withoutRepeatedOwners = (elaborateAutomaton r a).spare := by
  have hvalues (p : PendingInitializer) := p.warnless_elaborate (.inAutomaton a.id)
  have hshifts (d : ShiftDecl) := d.warnless_elaborate a.id
  calc elaborateAutomaton r.spare a.withoutRepeatedOwners
      = (r.spare.performAll (PendingInitializer.elaborate (.inAutomaton a.id))
          a.initializers).performAll (fun shift => shift.elaborate a.id) a.declaration.shifts := rfl
    _ = (elaborateAutomaton r a).spare := by
      rw [performAll_spare hvalues, performAll_spare hshifts]
      rfl

theorem elaborateAutomata_spare (automata : List PendingAutomaton) (r : Run) :
    (automata.map PendingAutomaton.withoutRepeatedOwners).foldl elaborateAutomaton r.spare =
      (automata.foldl elaborateAutomaton r).spare := by
  induction automata generalizing r with
  | nil => rfl
  | cons a rest ih =>
    rw [List.map_cons, List.foldl_cons, elaborateAutomaton_spare, ih, List.foldl_cons]

/-- Contracts and bodies have nothing to do with the owners that declarations name. -/
theorem performAll_unqualified (operations : List PendingOperation) (r : Run) :
    r.performAll (fun o => o.declaration.elaborate o.id)
        (operations.map PendingOperation.unqualified) =
      r.performAll (fun o => o.declaration.elaborate o.id) operations :=
  List.foldl_map ..

/-- Lenient analysis is strict analysis of the tree without repeated owners, but for the warnings about
owners. -/
theorem analyze_spare :
    analyze .strict l.withoutRepeatedOwners = (analyze .lenient l).spare := by
  obtain ⟨hoperations, hsignatures⟩ := withSignatures_spare l
  have hinitials : withInitials .strict l.withoutRepeatedOwners = (withInitials .lenient l).spare := by
    unfold withInitials
    rw [withGlobals_spare, hsignatures]
    exact performAll_spare (fun p : PendingInitializer => p.warnless_elaborate .global) _ _
  have hshifts : withShifts .strict l.withoutRepeatedOwners = (withShifts .lenient l).spare := by
    unfold withShifts
    rw [withAutomata_spare, hinitials]
    exact elaborateAutomata_spare _ _
  rw [analyze_eq, analyze_eq, ← performAll_unqualified, hoperations, performAll_unqualified, hshifts]
  exact performAll_spare (fun o : PendingOperation => o.declaration.warnless_elaborate o.id) _ _

/-! ## Trees without such names -/

/-- In a tree that compiles strictly, no operation inside an automaton names an owner. -/
theorem unqualified_of_compile {l : SyntaxTree.Library} {library : Library}
    (h : ((Session.start .strict).compile l).1 = .ok library) :
    ∀ item ∈ placed l, item.2 = none ∨ item.1.automaton = none := by
  intro item hitem
  obtain ⟨before, after, hplaced⟩ := List.append_of_mem hitem
  obtain ⟨t, e, u, -, hclean⟩ := clean_mapM_split (I := fun _ _ => True)
    (fun _ _ _ _ _ _ _ _ _ => trivial) (clean_of_compile h).1.signatures trivial before item after
    hplaced
  obtain ⟨r, v, hregister, -⟩ := clean_bind.mp hclean
  rw [FunctionDecl.register_eq] at hregister
  obtain ⟨owner, w, howner, -⟩ := clean_bind.mp hregister
  obtain ⟨hyields, -⟩ := clean_liftM howner
  rcases item with ⟨d, _ | id⟩
  · exact .inl rfl
  · refine .inr (Option.eq_none_iff_forall_not_mem.mpr fun qualifier hd => ?_)
    have hrefused : (d.resolveOwner .strict (some id)).run t = _ :=
      FunctionDecl.run_resolveOwner .strict hd rfl
    unfold Check.Yields at hyields
    rw [hrefused, if_neg (by simp [Options.strict])] at hyields
    cases hyields

theorem registerSignatures_strict {items : List Placed}
    (h : ∀ item ∈ items, item.2 = none ∨ item.1.automaton = none)
    (state : List PendingOperation × Run) :
    items.foldl (registerSignature .strict) state =
      items.foldl (registerSignature .lenient) state := by
  refine List.foldl_ext _ _ _ fun state item hitem => ?_
  unfold registerSignature
  rw [FunctionDecl.register_strict (h item hitem)]

theorem analyze_lenient_of_compile {l : SyntaxTree.Library} {library : Library}
    (h : ((Session.start .strict).compile l).1 = .ok library) :
    analyze .lenient l = analyze .strict l := by
  have hsignatures : withSignatures .lenient l = withSignatures .strict l :=
    (registerSignatures_strict (unqualified_of_compile h) _).symm
  simp only [analyze_eq, withShifts, withInitials, hsignatures]

end Run

namespace Session

/-- A lenient analysis of a tree gives what the strict analysis of the tree without repeated owners
gives, and finds the same but for the warnings about owners; so a tree that compiles strictly compiles
leniently to the same library, with the same diagnostics. -/
theorem lenient_ownership (l : SyntaxTree.Library) :
    ((start .lenient).analyze l).1 = ((start .strict).analyze l.withoutRepeatedOwners).1 ∧
      ((start .lenient).analyze l).2.diagnostics.withoutOwnerWarnings =
        ((start .strict).analyze l.withoutRepeatedOwners).2.diagnostics ∧
      ∀ library, ((start .strict).compile l).1 = .ok library →
        ((start .lenient).compile l).1 = .ok library ∧
          ((start .lenient).compile l).2.diagnostics = ((start .strict).compile l).2.diagnostics := by
  refine ⟨?_, ?_, fun library h => ?_⟩
  · have htree (t : SymbolTable) :
        LibraryContract.Library.ofTree l.withoutRepeatedOwners t = .ofTree l t := rfl
    simp only [analyze_fst, start, htree, Run.analyze_spare]
    rfl
  · rw [diagnostics_analyze_start, diagnostics_analyze_start, Run.analyze_spare]
    rfl
  · have hsame := Run.analyze_lenient_of_compile h
    rw [compile_snd, compile_snd, diagnostics_analyze_start, diagnostics_analyze_start, hsame]
    refine ⟨?_, rfl⟩
    rw [compile_eq_ok_iff, diagnostics_analyze_start, analyze_fst] at h ⊢
    rw [show (start .lenient).options = .lenient from rfl, hsame]
    exact h

theorem lenient_ownership_sample :
    ∃ library, ((start .strict).compile Sample.library).1 = .ok library ∧
      ((start .lenient).compile Sample.library).1 = .ok library := by
  obtain ⟨library, h⟩ := Sample.library_compiles
  exact ⟨library, h, ((lenient_ownership Sample.library).2.2 library h).1⟩

end Session

namespace Sample

/-- A library in which a function names the automaton around it. -/
def insistent : SyntaxTree.Library :=
  .ofDeclarations "Door"
    [.typeDecl ⟨.onLine "Int" 2, .simple⟩,
      .typeDecl ⟨.onLine "Handle" 3, .real⟩,
      .typeDecl ⟨.onLine "Count" 4, .alias (.onLine "Int" 4)⟩,
      .annotationDecl ⟨.onLine "unit" 6, [⟨.onLine "scale" 6, .onLine "Int" 6, []⟩]⟩,
      .variableDecl ⟨.onLine "limit" 7, .onLine "Int" 7, none⟩,
      .automatonDecl
        { door with
          instanceVariables := []
          functions := [turn (some (.onLine "Door" 25)) [] none 25] }]

/-- The function is found, and is all that is warned about. -/
example : ((Session.start .lenient).analyze insistent).2.diagnostics.map Diagnostic.kind =
      [.conflictingOwner] ∧
    ((Session.start .strict).analyze insistent.withoutRepeatedOwners).2.diagnostics = [] := by
  decide +kernel

end Sample

end LibraryContract
