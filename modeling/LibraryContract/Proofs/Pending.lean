import LibraryContract.Proofs.NothingLost
import LibraryContract.Proofs.Place

/-!
# Whose values are left for later

While names are registered, the values that variables start from are put aside. A value is put aside
only when its variable was registered, so each one belongs to a variable of the table, and to the
declaration that this variable comes from. This holds with errors and without.

* `Run.valuesLeft_belongs`: every value that is left for later belongs to a declared variable;
* `Run.valuesLeft_apart`: no two of them belong to the same one.
-/

namespace LibraryContract

open SyntaxTree Build

variable {t u : SymbolTable}

/-! ## Declared variables -/

/-- The table has the variable that a declaration declares. -/
def SymbolTable.Holds (t : SymbolTable) (home : VariableScope) (d : VariableDecl) : Prop :=
  ∃ v, (t.variablesIn home).get? d.name.name = some v ∧ (d.toVariable home).GrowsTo v

theorem SymbolTable.Holds.mono {home : VariableScope} {d : VariableDecl} (h : t.Holds home d)
    (hu : t.GrowsTo u) : u.Holds home d := by
  obtain ⟨v, hv, hdv⟩ := h
  obtain ⟨w, hw, hvw⟩ := hu.variableIn? hv
  exact ⟨w, hw, hdv.trans hvw⟩

theorem SymbolTable.Houses.mono {home : VariableScope} (h : t.Houses home) (hu : t.GrowsTo u) :
    u.Houses home := by
  have hautomaton : ∀ owner, (∃ a, t.automaton? owner = some a) →
      ∃ b, u.automaton? owner = some b := by
    rintro owner ⟨a, ha⟩
    obtain ⟨b, hb, -⟩ := hu.automaton? ha
    exact ⟨b, hb⟩
  cases home with
  | global => trivial
  | automaton owner => exact hautomaton owner h
  | constructorParameter owner => exact hautomaton owner h
  | _ => exact h.elim

theorem SyntaxTree.VariableDecl.declare_holds {home : VariableScope} (hh : t.Houses home)
    {d : VariableDecl} {a : Unit} (h : (d.declare home).Yields t a u) : u.Holds home d := by
  obtain ⟨-, -, types, rfl⟩ := d.declare_inserts h
  refine ⟨d.toVariable home, ?_, .refl _⟩
  rw [(hh.setTypes types).variablesIn_modifyVariables]
  exact OrderedMap.get?_insert_self _ _ _

/-! ## The declaration behind a value -/

/-- The declarations of the variables of a scope outside of operations. -/
def SyntaxTree.Library.Introduces (l : SyntaxTree.Library) (t : SymbolTable) :
    VariableScope → VariableDecl → Prop
  | .global, d => d ∈ l.globals
  | .automaton id, d =>
    ∃ a ∈ l.automata, (∃ b, t.automaton? id = some b ∧ a.Heads b) ∧ d ∈ a.instanceVariables
  | .constructorParameter id, d =>
    ∃ a ∈ l.automata, (∃ b, t.automaton? id = some b ∧ a.Heads b) ∧ d ∈ a.constructorVariables
  | .argument _, _ | .body _, _ | .result _, _ => False

/-- The value belongs to a declaration of the library whose variable is in the table. -/
def PendingInitializer.Belongs (l : SyntaxTree.Library) (t : SymbolTable) (p : PendingInitializer) :
    Prop :=
  p.scope.OutsideOperations ∧
    ∃ d, l.Introduces t p.scope d ∧ d.pending p.scope = some p ∧ t.Holds p.scope d

theorem SyntaxTree.AutomatonDecl.Heads.mono {d : AutomatonDecl} {id : AutomatonId}
    (h : ∃ b, t.automaton? id = some b ∧ d.Heads b) (hu : t.GrowsTo u) :
    ∃ b, u.automaton? id = some b ∧ d.Heads b := by
  obtain ⟨b, hb, hheads⟩ := h
  obtain ⟨c, hc, hbc⟩ := hu.automaton? hb
  exact ⟨c, hc, hbc.name.trans hheads.name, hbc.span.trans hheads.span⟩

theorem SyntaxTree.Library.Introduces.mono {l : SyntaxTree.Library} {home : VariableScope}
    {d : VariableDecl} (h : l.Introduces t home d) (hu : t.GrowsTo u) : l.Introduces u home d := by
  cases home with
  | global => exact h
  | automaton id =>
    obtain ⟨a, ha, hheads, hd⟩ := h
    exact ⟨a, ha, AutomatonDecl.Heads.mono hheads hu, hd⟩
  | constructorParameter id =>
    obtain ⟨a, ha, hheads, hd⟩ := h
    exact ⟨a, ha, AutomatonDecl.Heads.mono hheads hu, hd⟩
  | _ => exact h.elim

theorem PendingInitializer.Belongs.mono {l : SyntaxTree.Library} {p : PendingInitializer}
    (h : p.Belongs l t) (hu : t.GrowsTo u) : p.Belongs l u := by
  obtain ⟨hh, d, hd, hpending, hholds⟩ := h
  exact ⟨hh, d, hd.mono hu, hpending, hholds.mono hu⟩

/-- The variables of the values that are left for later are registered. -/
theorem SyntaxTree.AutomatonDecl.declareVariables_holds {home : VariableScope}
    (hh : home.OutsideOperations) (ht : t.Houses home) {ds : List VariableDecl}
    {pending : List PendingInitializer}
    (h : (AutomatonDecl.declareVariables home ds).Yields t pending u) :
    ∀ p ∈ pending, ∃ d ∈ ds, d.pending home = some p ∧ u.Holds home d := by
  intro p hp
  obtain ⟨d, hd, hpending, v, w, hbefore, hdeclared, hafter⟩ :=
    AutomatonDecl.declareVariables_pending hh h p hp
  have htv : t.GrowsTo v := .of_reflTransGen hbefore fun _ _ => Furnishes.growsTo
  have hwu : w.GrowsTo u := .of_reflTransGen hafter fun _ _ => Furnishes.growsTo
  exact ⟨d, hd, hpending, (d.declare_holds (ht.mono htv) hdeclared).mono hwu⟩

/-- What the declaration of an automaton does with its variables. -/
theorem SyntaxTree.AutomatonDecl.declare_parts {d : AutomatonDecl} {a : PendingAutomaton}
    (h : d.declare.Yields t a u) :
    ∃ x y parameters members, t.automaton? a.id = none ∧ x.Houses (.automaton a.id) ∧
      (declareVariables (.constructorParameter a.id) d.constructorVariables).Yields x parameters y ∧
      (declareVariables (.automaton a.id) d.instanceVariables).Yields y members u ∧
      a.initializers = parameters ++ members ∧ x.GrowsTo y ∧ y.GrowsTo u := by
  rw [AutomatonDecl.declare] at h
  obtain ⟨type, v, htype, h⟩ := yields_bind.mp h
  obtain ⟨id, w, hregister, h⟩ := yields_bind.mp h
  obtain ⟨_, x, hstates, h⟩ := yields_bind.mp h
  obtain ⟨parameters, y, hparameters, h⟩ := yields_bind.mp h
  obtain ⟨members, z, hmembers, hpure⟩ := yields_bind.mp h
  obtain ⟨rfl, rfl⟩ := yields_pure.mp hpure
  have hparameter : (VariableScope.constructorParameter id).OutsideOperations := trivial
  have hmember : (VariableScope.automaton id).OutsideOperations := trivial
  have hregister := yields_register.mp hregister
  have hskeleton := SymbolTable.registerAutomaton_skeleton hregister
  have htv : t.GrowsTo v := .of_reflTransGen
    (htype.reaches (within_attempt (d.type.resolve_within t))) fun _ _ => Interns.growsTo
  have hwx : w.GrowsTo x := .of_reflTransGen
    (hstates.reaches (declareStates_within d.states (hasSeen_registered hregister))) fun _ _ =>
      Furnishes.growsTo
  have hxy : x.GrowsTo y := .of_reflTransGen
    (hparameters.reaches (declareVariables_within hparameter _ x)) fun _ _ => Furnishes.growsTo
  have hyz : y.GrowsTo z := .of_reflTransGen
    (hmembers.reaches (declareVariables_within hmember _ y)) fun _ _ => Furnishes.growsTo
  have hnew : t.automaton? id = none := by
    obtain ⟨-, rfl, -⟩ := SymbolTable.registerAutomaton_eq_ok.mp hregister
    exact List.getElem?_eq_none htv.automata.length_le
  have hplace : w.Houses (.automaton id) := ⟨_, hskeleton⟩
  exact ⟨x, y, parameters, members, hnew, hplace.mono hwx, hparameters, hmembers, rfl, hxy, hyz⟩

/-- A declaration of an automaton leaves values of its own variables. -/
theorem SyntaxTree.AutomatonDecl.declare_belongs {l : SyntaxTree.Library} {d : AutomatonDecl}
    (hd : d ∈ l.automata) {a : PendingAutomaton} (h : d.declare.Yields t a u) :
    ∀ p ∈ a.initializers, p.Belongs l u ∧ p.scope.place = .automaton a.id := by
  obtain ⟨-, hheads⟩ := AutomatonDecl.declare_yields h
  obtain ⟨x, y, parameters, members, -, hplace, hparameters, hmembers, heq, hxy, hyu⟩ :=
    declare_parts h
  have hparameter : (VariableScope.constructorParameter a.id).OutsideOperations := trivial
  have hmember : (VariableScope.automaton a.id).OutsideOperations := trivial
  rw [heq]
  intro p hp
  rcases List.mem_append.mp hp with hp | hp
  · obtain ⟨v, hv, hpending, hholds⟩ :=
      declareVariables_holds hparameter hplace hparameters p hp
    obtain hscope := v.scope_pending hpending
    refine ⟨⟨hscope ▸ hparameter, v, ?_, hscope ▸ hpending, ?_⟩, by rw [hscope]; rfl⟩
    · rw [hscope]
      exact ⟨d, hd, hheads, hv⟩
    · rw [hscope]
      exact hholds.mono hyu
  · obtain ⟨v, hv, hpending, hholds⟩ :=
      declareVariables_holds hmember (hplace.mono hxy) hmembers p hp
    obtain hscope := v.scope_pending hpending
    refine ⟨⟨hscope ▸ hmember, v, ?_, hscope ▸ hpending, ?_⟩, by rw [hscope]; rfl⟩
    · rw [hscope]
      exact ⟨d, hd, hheads, hv⟩
    · rw [hscope]
      exact hholds

/-! ## Values of different variables -/

/-- The values belong to different variables. -/
def PendingInitializer.Apart (p q : PendingInitializer) : Prop :=
  p.scope = q.scope → p.name ≠ q.name

/-- The collection does not have a variable of this name. -/
def SymbolTable.Lacks (t : SymbolTable) (home : VariableScope) (name : String) : Prop :=
  (t.variablesIn home).get? name = none

theorem SymbolTable.Lacks.of_growsTo {home : VariableScope} {name : String} (hu : t.GrowsTo u)
    (h : u.Lacks home name) : t.Lacks home name := by
  cases ht : (t.variablesIn home).get? name with
  | none => exact ht
  | some v =>
    obtain ⟨w, hw, -⟩ := hu.variableIn? ht
    rw [SymbolTable.Lacks, hw] at h
    cases h

/-- A variable that is declared was not there before. -/
theorem SyntaxTree.VariableDecl.declare_lacks {home : VariableScope} {d : VariableDecl} {a : Unit}
    (h : (d.declare home).Yields t a u) : t.Lacks home d.name.name := by
  obtain ⟨hnew, -⟩ := d.declare_inserts h
  rw [OrderedMap.contains, Option.isSome_eq_false_iff, Option.isNone_iff_eq_none] at hnew
  exact hnew

/-- What is not there when a variable has been declared is not that variable. -/
theorem SymbolTable.Holds.ne_of_lacks {home : VariableScope} {d : VariableDecl} (h : t.Holds home d)
    {name : String} (hn : t.Lacks home name) : d.name.name ≠ name := by
  rintro rfl
  obtain ⟨v, hv, -⟩ := h
  rw [SymbolTable.Lacks, hv] at hn
  cases hn

theorem SyntaxTree.VariableDecl.name_pending {d : VariableDecl} {home : VariableScope}
    {p : PendingInitializer} (h : d.pending home = some p) : p.name = d.name.name := by
  obtain ⟨e, -, rfl⟩ := Option.map_eq_some_iff.mp h
  rfl

theorem SyntaxTree.AutomatonDecl.declareVariables_apart {home : VariableScope}
    (hh : home.OutsideOperations) (ht : t.Houses home) {ds : List VariableDecl}
    {pending : List PendingInitializer}
    (h : (AutomatonDecl.declareVariables home ds).Yields t pending u) :
    pending.Pairwise PendingInitializer.Apart ∧ ∀ p ∈ pending, t.Lacks home p.name := by
  induction ds generalizing t pending with
  | nil =>
    obtain ⟨rfl, rfl⟩ := yields_pure.mp h
    exact ⟨.nil, List.forall_mem_nil _⟩
  | cons d rest ih =>
    rw [AutomatonDecl.declareVariables] at h
    obtain ⟨declared, v, hdeclared, h⟩ := yields_bind.mp h
    obtain ⟨others, w, hothers, hpure⟩ := yields_bind.mp h
    obtain ⟨rfl, rfl⟩ := yields_pure.mp hpure
    have hgrows : t.GrowsTo v := .of_reflTransGen
      (hdeclared.reaches (within_attempt (d.declare_within hh t))) fun _ _ => Furnishes.growsTo
    obtain ⟨hapart, hlacks⟩ := ih (ht.mono hgrows) hothers
    have hbefore : ∀ p ∈ others, t.Lacks home p.name := fun p hp => .of_growsTo hgrows (hlacks p hp)
    cases declared with
    | none => exact ⟨hapart, hbefore⟩
    | some a =>
      have hd := yields_attempt_some.mp hdeclared
      show ((d.pending home).toList ++ others).Pairwise _ ∧
        ∀ p ∈ (d.pending home).toList ++ others, _
      cases hp : d.pending home with
      | none => exact ⟨hapart, hbefore⟩
      | some p =>
        have hname := d.name_pending hp
        refine ⟨.cons (fun q hq _ => ?_) hapart, List.forall_mem_cons.mpr ⟨?_, hbefore⟩⟩
        · rw [hname]
          exact (d.declare_holds ht hd).ne_of_lacks (hlacks q hq)
        · rw [hname]
          exact d.declare_lacks hd

/-- The values of an automaton belong to different variables. -/
theorem SyntaxTree.AutomatonDecl.declare_apart {d : AutomatonDecl} {a : PendingAutomaton}
    (h : d.declare.Yields t a u) : a.initializers.Pairwise PendingInitializer.Apart := by
  obtain ⟨x, y, parameters, members, -, hplace, hparameters, hmembers, heq, hxy, -⟩ :=
    declare_parts h
  have hparameter : (VariableScope.constructorParameter a.id).OutsideOperations := trivial
  have hmember : (VariableScope.automaton a.id).OutsideOperations := trivial
  have hmembersPlace := hplace.mono hxy
  rw [heq]
  refine List.pairwise_append.mpr ⟨(declareVariables_apart hparameter hplace hparameters).1,
    (declareVariables_apart hmember hmembersPlace hmembers).1, fun p hp q hq hscope => ?_⟩
  -- parameters and members stand in different collections
  obtain ⟨v, -, hv, -⟩ := declareVariables_holds hparameter hplace hparameters p hp
  obtain ⟨w, -, hw, -⟩ := declareVariables_holds hmember hmembersPlace hmembers q hq
  rw [v.scope_pending hv, w.scope_pending hw] at hscope
  cases hscope

/-! ## All values -/

namespace Run

/-- The values that are left for later when all names are registered. -/
def valuesLeft (library : SyntaxTree.Library) : List PendingInitializer :=
  (withGlobals library).1 ++ (withAutomata library).1.flatMap PendingAutomaton.initializers

theorem withAutomata_belongs (library : SyntaxTree.Library) :
    ∀ a ∈ (withAutomata library).1, ∀ p ∈ a.initializers,
      p.Belongs library (withAutomata library).2.table ∧ p.scope.place = .automaton a.id := by
  apply collect_keeps (P := fun (a : PendingAutomaton) t => ∀ p ∈ a.initializers,
    p.Belongs library t ∧ p.scope.place = .automaton a.id)
  · intro a t u hu h p hp
    obtain ⟨hbelongs, hplace⟩ := h p hp
    exact ⟨hbelongs.mono hu, hplace⟩
  · exact fun d _ t => d.declare_within t
  · exact fun d hd t a u h => AutomatonDecl.declare_belongs hd h

theorem withGlobals_belongs (library : SyntaxTree.Library) :
    ∀ p ∈ (withGlobals library).1,
      p.Belongs library (withAutomata library).2.table ∧ p.scope = .global := by
  have hglobal : VariableScope.global.OutsideOperations := trivial
  have hdeclared : ∀ d ∈ ((withAnnotations library).collect
      (fun d => do VariableDecl.declare .global d; return d) library.globals).1,
        d ∈ library.globals ∧ (withGlobals library).2.table.Holds .global d := by
    apply collect_keeps (P := fun (d : VariableDecl) t => d ∈ library.globals ∧ t.Holds .global d)
    · exact fun d t u hu h => ⟨h.1, h.2.mono hu⟩
    · intro d _ t
      refine within_bind ?_ fun _ u _ => within_pure _
      exact (d.declare_within hglobal t).mono fun _ _ => .furnishes
    · intro d hd t d' u h
      obtain ⟨_, v, hdeclared, hpure⟩ := yields_bind.mp h
      obtain ⟨rfl, rfl⟩ := yields_pure.mp hpure
      have hhouses : t.Houses .global := trivial
      exact ⟨hd, d.declare_holds hhouses hdeclared⟩
  have hgrows : (withGlobals library).2.table.GrowsTo (withAutomata library).2.table :=
    .of_reflTransGen (within_collect (fun d _ t => d.declare_within t) _) fun _ _ =>
      Declares.growsTo
  intro p hp
  obtain ⟨d, hd, hpending⟩ := List.mem_filterMap.mp hp
  obtain ⟨hmem, hholds⟩ := hdeclared d hd
  have hscope := d.scope_pending hpending
  refine ⟨⟨hscope ▸ hglobal, d, ?_, hscope ▸ hpending, ?_⟩, hscope⟩
  · rw [hscope]
    exact hmem
  · rw [hscope]
    exact hholds.mono hgrows

/-- Every value that is left for later belongs to a declared variable. -/
theorem valuesLeft_belongs (library : SyntaxTree.Library) :
    ∀ p ∈ valuesLeft library, p.Belongs library (withAutomata library).2.table := by
  intro p hp
  rcases List.mem_append.mp hp with hp | hp
  · exact (withGlobals_belongs library p hp).1
  · obtain ⟨a, ha, hpa⟩ := List.mem_flatMap.mp hp
    exact (withAutomata_belongs library a ha p hpa).1

/-- Things that are new when they are registered differ from each other. -/
theorem collect_pairwise {α β : Type} {step : α → Build β} {items : List α}
    {N : SymbolTable → β → Prop} {R : β → β → Prop}
    (hmono : ∀ t u b, t.GrowsTo u → N u b → N t b)
    (hwithin : ∀ a ∈ items, ∀ t, (step a).Within Declares t)
    (hyield : ∀ a ∈ items, ∀ t b u, (step a).Yields t b u → N t b ∧ ∀ c, N u c → R b c) (r : Run) :
    (r.collect step items).1.Pairwise R ∧ ∀ b ∈ (r.collect step items).1, N r.table b := by
  induction items generalizing r with
  | nil => exact ⟨.nil, List.forall_mem_nil _⟩
  | cons a rest ih =>
    obtain ⟨hpairwise, hnew⟩ := ih (fun b hb => hwithin b (List.mem_cons_of_mem a hb))
      (fun b hb => hyield b (List.mem_cons_of_mem a hb)) (r.settle (step a)).2
    have hgrows : r.table.GrowsTo (r.settle (step a)).2.table :=
      .of_reflTransGen (within_settle (hwithin a List.mem_cons_self r.table)) fun _ _ =>
        Declares.growsTo
    have hbefore := fun b hb => hmono _ _ b hgrows (hnew b hb)
    rw [collect_cons]
    cases hs : (r.settle (step a)).1 with
    | none => exact ⟨hpairwise, hbefore⟩
    | some b =>
      obtain ⟨hb, hother⟩ := hyield a List.mem_cons_self _ _ _ (settle_eq_some.mp hs)
      exact ⟨.cons (fun c hc => hother c (hnew c hc)) hpairwise,
        List.forall_mem_cons.mpr ⟨hb, hbefore⟩⟩

/-- The values of the global variables belong to different variables. -/
theorem withGlobals_apart (library : SyntaxTree.Library) :
    (withGlobals library).1.Pairwise PendingInitializer.Apart := by
  have hglobal : VariableScope.global.OutsideOperations := trivial
  have hnames : ((withAnnotations library).collect
      (fun d => do VariableDecl.declare .global d; return d) library.globals).1.Pairwise
        fun d e => d.name.name ≠ e.name.name := by
    apply (collect_pairwise (N := fun t (d : VariableDecl) => t.Lacks .global d.name.name)
      ?_ ?_ ?_ _).1
    · exact fun t u d hu h => .of_growsTo hu h
    · intro d _ t
      refine within_bind ?_ fun _ u _ => within_pure _
      exact (d.declare_within hglobal t).mono fun _ _ => .furnishes
    · intro d _ t d' u h
      obtain ⟨_, v, hdeclared, hpure⟩ := yields_bind.mp h
      obtain ⟨rfl, rfl⟩ := yields_pure.mp hpure
      have hhouses : t.Houses .global := trivial
      have hholds := d.declare_holds hhouses hdeclared
      exact ⟨d.declare_lacks hdeclared, fun e he => hholds.ne_of_lacks he⟩
  refine List.pairwise_filterMap.mpr (hnames.imp fun {d e} hde p hp q hq _ => ?_)
  rw [d.name_pending hp, e.name_pending hq]
  exact hde

/-- Automata that are registered have different numbers. -/
theorem withAutomata_ids (library : SyntaxTree.Library) :
    (withAutomata library).1.Pairwise fun a b => a.id ≠ b.id := by
  apply (collect_pairwise (N := fun t (a : PendingAutomaton) => t.automaton? a.id = none)
    ?_ ?_ ?_ _).1
  · intro t u a hu h
    cases ht : t.automaton? a.id with
    | none => rfl
    | some b =>
      obtain ⟨c, hc, -⟩ := hu.automaton? ht
      rw [hc] at h
      cases h
  · exact fun d _ t => d.declare_within t
  · intro d _ t a u h
    obtain ⟨-, -, -, -, hnew, -⟩ := AutomatonDecl.declare_parts h
    obtain ⟨-, c, hc, -⟩ := AutomatonDecl.declare_yields h
    refine ⟨hnew, fun b hb hab => ?_⟩
    rw [← hab, hc] at hb
    cases hb

/-- The values that are left for later belong to different variables. -/
theorem valuesLeft_apart (library : SyntaxTree.Library) :
    (valuesLeft library).Pairwise PendingInitializer.Apart := by
  have heach : ∀ a ∈ (withAutomata library).1, a.initializers.Pairwise PendingInitializer.Apart :=
    collect_forall fun d _ t a u h => AutomatonDecl.declare_apart h
  have hplaces := withAutomata_belongs library
  refine List.pairwise_append.mpr ⟨withGlobals_apart library,
    List.pairwise_flatMap.mpr ⟨heach, ?_⟩, fun p hp q hq hscope => ?_⟩
  · refine (withAutomata_ids library).imp_of_mem fun {a b} ha hb hab p hp q hq hscope => ?_
    -- the values of two automata stand in the collections of these
    have hplace := (hplaces a ha p hp).2
    rw [hscope, (hplaces b hb q hq).2] at hplace
    injection hplace with heq
    exact absurd heq.symm hab
  · obtain ⟨a, ha, hqa⟩ := List.mem_flatMap.mp hq
    have hplace := (hplaces a ha q hqa).2
    rw [← hscope, (withGlobals_belongs library p hp).2] at hplace
    cases hplace

end Run

end LibraryContract
