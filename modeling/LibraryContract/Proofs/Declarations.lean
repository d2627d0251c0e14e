import LibraryContract.Proofs.DeclaredTypes
import LibraryContract.Proofs.Variables

/-!
# Declared names

The first phases register annotations, variables and automata. When no error is found, nothing of
a declaration is passed over: the table has what is declared, in the order of the declarations, and
what is still to be looked at is exactly what the declarations leave for later.

* `AutomatonDecl.declare_clean`: what the declaration of an automaton adds to the table;
* `DeclaresCleanly.registers`: the table after all names but those of operations are registered.
-/

namespace LibraryContract

open SyntaxTree Build

namespace SyntaxTree

/-- The variable that a declaration registers. Its value comes later. -/
def VariableDecl.toVariable (home : VariableScope) (d : VariableDecl) : Variable :=
  ⟨d.name.name, d.type.canonicalName, home, none, d.name.span⟩

def StateDecl.toState (d : StateDecl) : State := ⟨d.name.name, d.kind, d.name.span⟩

/-- The automaton as its declaration introduces it: it has no shifts yet. -/
structure AutomatonDecl.Registers (d : AutomatonDecl) (a : Automaton) : Prop where
  name : a.name = d.name.name
  type : a.type = d.type.canonicalName
  span : a.span = d.span
  states : a.states.values = d.states.map StateDecl.toState
  shifts : a.shifts = []
  constructorVariables : a.constructorVariables.values =
    d.constructorVariables.map (VariableDecl.toVariable (.constructorParameter a.id))
  instanceVariables : a.instanceVariables.values =
    d.instanceVariables.map (VariableDecl.toVariable (.automaton a.id))

/-- What the declaration of an automaton leaves for later. -/
def AutomatonDecl.pending (id : AutomatonId) (d : AutomatonDecl) : PendingAutomaton :=
  ⟨id, d, d.constructorVariables.filterMap (VariableDecl.pending (.constructorParameter id)) ++
    d.instanceVariables.filterMap (VariableDecl.pending (.automaton id))⟩

/-- What the automata of a library leave for later. -/
def Library.pendingAutomata (l : Library) : List PendingAutomaton :=
  l.automata.mapIdx fun i d => d.pending ⟨i⟩

end SyntaxTree

/-! ## Places of variables -/

/-- The table with other types. -/
def SymbolTable.setTypes (t : SymbolTable) (types : TypeRegistry) : SymbolTable :=
  { t with types := types }

/-- The table has a collection for the variables of a scope outside of operations. -/
def SymbolTable.Houses (t : SymbolTable) : VariableScope → Prop
  | .global => True
  | .automaton owner | .constructorParameter owner => ∃ a, t.automaton? owner = some a
  | .argument _ | .body _ | .result _ => False

namespace SymbolTable

variable {t : SymbolTable} {home : VariableScope}

theorem Houses.variablesIn_modifyVariables (h : t.Houses home)
    (f : OrderedMap String Variable → OrderedMap String Variable) :
    (t.modifyVariables home f).variablesIn home = f (t.variablesIn home) := by
  cases home with
  | global => rfl
  | automaton owner =>
    obtain ⟨a, ha⟩ := h
    simp only [modifyVariables, variablesIn, automaton?_modifyAutomaton, ha, if_true,
      Option.map_some, Option.getD_some]
  | constructorParameter owner =>
    obtain ⟨a, ha⟩ := h
    simp only [modifyVariables, variablesIn, automaton?_modifyAutomaton, ha, if_true,
      Option.map_some, Option.getD_some]
  | _ => exact h.elim

theorem Houses.modifyVariables (h : t.Houses home)
    (f : OrderedMap String Variable → OrderedMap String Variable) :
    (t.modifyVariables home f).Houses home := by
  cases home with
  | global => trivial
  | automaton owner =>
    obtain ⟨a, ha⟩ := h
    exact ⟨_, by rw [SymbolTable.modifyVariables, automaton?_modifyAutomaton, if_pos rfl, ha]; rfl⟩
  | constructorParameter owner =>
    obtain ⟨a, ha⟩ := h
    exact ⟨_, by rw [SymbolTable.modifyVariables, automaton?_modifyAutomaton, if_pos rfl, ha]; rfl⟩
  | _ => exact h.elim

theorem modifyVariables_modifyVariables (t : SymbolTable) (home : VariableScope)
    (f g : OrderedMap String Variable → OrderedMap String Variable) :
    (t.modifyVariables home f).modifyVariables home g = t.modifyVariables home (g ∘ f) := by
  cases home <;>
    simp only [SymbolTable.modifyVariables, modifyAutomaton, modifyOperation,
      List.modify_modify_eq] <;> rfl

theorem modifyVariables_id (t : SymbolTable) (home : VariableScope) :
    (t.modifyVariables home fun m => m) = t := by
  cases home <;> simp only [SymbolTable.modifyVariables, modifyAutomaton, modifyOperation]
  all_goals first
    | rfl
    | exact congrArg (fun as => { t with automata := as }) (List.modify_id _ _)
    | exact congrArg (fun os => { t with operations := os }) (List.modify_id _ _)

theorem variablesIn_setTypes (t : SymbolTable) (types : TypeRegistry) (home : VariableScope) :
    (t.setTypes types).variablesIn home = t.variablesIn home := by
  cases home <;> rfl

theorem setTypes_modifyVariables (t : SymbolTable) (home : VariableScope)
    (f : OrderedMap String Variable → OrderedMap String Variable) (types types' : TypeRegistry) :
    ((t.setTypes types).modifyVariables home f).setTypes types' =
      (t.setTypes types').modifyVariables home f := by
  cases home <;> rfl

theorem namedTypes_modifyVariables (t : SymbolTable) (home : VariableScope)
    (f : OrderedMap String Variable → OrderedMap String Variable) :
    (t.modifyVariables home f).namedTypes = t.namedTypes := by
  cases home <;> rfl

theorem Houses.setTypes (h : t.Houses home) (types : TypeRegistry) :
    (t.setTypes types).Houses home := by
  cases home <;> exact h

theorem modify_concat {α : Type} (l : List α) (a : α) (f : α → α) :
    (l ++ [a]).modify l.length f = l ++ [f a] := by
  induction l with
  | nil => rfl
  | cons b l ih =>
    rw [List.cons_append, List.length_cons, List.modify_succ_cons, ih, List.cons_append]

/-- The last automaton is changed. -/
theorem modifyAutomaton_concat {as : List Automaton} {b : Automaton} (h : t.automata = as ++ [b])
    (f : Automaton → Automaton) :
    t.modifyAutomaton ⟨as.length⟩ f = { t with automata := as ++ [f b] } := by
  rw [modifyAutomaton, h, modify_concat]

theorem automaton?_concat {as : List Automaton} {b : Automaton} (h : t.automata = as ++ [b]) :
    t.automaton? ⟨as.length⟩ = some b := by
  rw [automaton?, h]
  exact List.getElem?_concat_length

theorem variablesIn_concat {as : List Automaton} {b : Automaton} (h : t.automata = as ++ [b]) :
    t.variablesIn (.constructorParameter ⟨as.length⟩) = b.constructorVariables ∧
      t.variablesIn (.automaton ⟨as.length⟩) = b.instanceVariables := by
  constructor
  · rw [variablesIn, automaton?_concat h, Option.map_some, Option.getD_some]
  · rw [variablesIn, automaton?_concat h, Option.map_some, Option.getD_some]

end SymbolTable

/-- Interning arrays adds nothing but arrays. -/
theorem Interns.setTypes {t u : SymbolTable} (h : Relation.ReflTransGen Interns t u) :
    u.namedTypes = t.namedTypes ∧ ∃ types, u = t.setTypes types := by
  refine ⟨?_, Interns.types_only h⟩
  induction h with
  | refl => rfl
  | tail _ h ih =>
    cases h with
    | array _ => exact (SymbolTable.namedTypes_internArray _ _).trans ih

namespace SyntaxTree

variable {t u : SymbolTable}

/-! ## Annotations and variables -/

theorem AnnotationDecl.declare_yields {d : AnnotationDecl} {a : Unit} (h : d.declare.Yields t a u) :
    ∃ types annotations, u = { t.setTypes types with annotations := annotations } ∧
      u.namedTypes = t.namedTypes ∧
      annotations.values = t.annotations.values ++ [d.toAnnotation] := by
  obtain ⟨parameters, v, hparameters, hregister⟩ := yields_bind.mp h
  have hwithin : Relation.ReflTransGen Interns t v := by
    refine hparameters.reaches (within_mapM (fun p _ t => ?_) t)
    exact within_bind (p.type.resolve_within t) fun _ _ _ => within_pure _
  obtain ⟨rfl, -⟩ := AnnotationDecl.parameters_yields hparameters
  obtain ⟨hnamed, types, rfl⟩ := Interns.setTypes hwithin
  obtain ⟨hnew, rfl⟩ :=
    SymbolTable.registerAnnotationType_eq_ok.mp (yields_registerUnit.mp hregister)
  exact ⟨types, _, rfl, hnamed, OrderedMap.values_insert_of_not_contains hnew _⟩

/-- A declared variable is a new one of its collection. -/
theorem VariableDecl.declare_inserts {home : VariableScope} {d : VariableDecl} {a : Unit}
    (h : (d.declare home).Yields t a u) :
    (t.variablesIn home).contains d.name.name = false ∧ u.namedTypes = t.namedTypes ∧
      ∃ types, u = (t.setTypes types).modifyVariables home fun m =>
        m.insert d.name.name (d.toVariable home) := by
  obtain ⟨type, v, htype, hregister⟩ := yields_bind.mp h
  obtain ⟨hnamed, types, rfl⟩ := Interns.setTypes (htype.reaches (d.type.resolve_within t))
  obtain ⟨rfl, -⟩ := TypeExpr.resolve_known htype
  obtain ⟨-, hnew, rfl⟩ := SymbolTable.registerVariable_eq_ok.mp (yields_registerUnit.mp hregister)
  rw [SymbolTable.variablesIn_setTypes] at hnew
  refine ⟨hnew, ?_, types, rfl⟩
  rw [SymbolTable.namedTypes_modifyVariables, hnamed]

/-- A declared variable comes last in its collection. -/
theorem VariableDecl.declare_yields {home : VariableScope} {d : VariableDecl} {a : Unit}
    (h : (d.declare home).Yields t a u) :
    ∃ types f, u = (t.setTypes types).modifyVariables home f ∧ u.namedTypes = t.namedTypes ∧
      (f (t.variablesIn home)).values = (t.variablesIn home).values ++ [d.toVariable home] := by
  obtain ⟨hnew, hnamed, types, rfl⟩ := d.declare_inserts h
  exact ⟨types, _, rfl, hnamed, OrderedMap.values_insert_of_not_contains hnew _⟩

/-! ## Automata -/

namespace AutomatonDecl

/-- The states seen so far are those of the automaton, so each further one is new. -/
theorem declareStates_clean {as : List Automaton} {b : Automaton} {automaton : String}
    {seen : List String} {states : List StateDecl} {a : Unit} (ht : t.automata = as ++ [b])
    (hseen : ∀ n, b.states.contains n = true → n ∈ seen)
    (h : (declareStates ⟨as.length⟩ automaton seen states).Clean t a u) :
    ∃ m, u = { t with automata := as ++ [{ b with states := m }] } ∧
      m.values = b.states.values ++ states.map StateDecl.toState := by
  induction states generalizing b t seen with
  | nil =>
    obtain ⟨-, rfl⟩ := clean_pure.mp h
    refine ⟨b.states, ?_, (List.append_nil _).symm⟩
    rw [← ht]
  | cons d rest ih =>
    rw [declareStates, clean_ite] at h
    split at h
    · obtain ⟨_, _, hnote, -⟩ := clean_bind.mp h
      exact (clean_note.mp hnote).elim
    · rename_i hfresh
      obtain ⟨_, v, hmodify, hrest⟩ := clean_bind.mp h
      obtain rfl := clean_modify.mp hmodify
      rw [SymbolTable.modifyAutomaton_concat ht] at hrest
      have hnew : b.states.contains d.name.name = false := by
        rw [Bool.eq_false_iff]
        exact fun hold => hfresh (hseen _ hold)
      have hgrown : ∀ n, (b.states.insert d.name.name d.toState).contains n = true →
          n ∈ d.name.name :: seen := by
        intro n hn
        rw [OrderedMap.contains_iff_mem_keys, OrderedMap.keys_insert, hnew] at hn
        rcases List.mem_append.mp hn with hn | hn
        · exact List.mem_cons_of_mem _ (hseen n (OrderedMap.contains_iff_mem_keys.mpr hn))
        · rw [List.mem_singleton.mp hn]
          exact List.mem_cons_self
      obtain ⟨m, rfl, hm⟩ := ih rfl hgrown hrest
      refine ⟨m, rfl, ?_⟩
      rw [hm, List.map_cons, List.append_cons]
      exact congrArg (· ++ _) (OrderedMap.values_insert_of_not_contains hnew _)

theorem declareVariables_clean {home : VariableScope} (hh : t.Houses home) {ds : List VariableDecl}
    {pending : List PendingInitializer} (h : (declareVariables home ds).Clean t pending u) :
    pending = ds.filterMap (VariableDecl.pending home) ∧
      ∃ types f, u = (t.setTypes types).modifyVariables home f ∧ u.namedTypes = t.namedTypes ∧
        (f (t.variablesIn home)).values =
          (t.variablesIn home).values ++ ds.map (VariableDecl.toVariable home) := by
  induction ds generalizing t pending with
  | nil =>
    obtain ⟨rfl, rfl⟩ := clean_pure.mp h
    exact ⟨rfl, t.types, fun m => m, (t.modifyVariables_id home).symm, rfl,
      (List.append_nil _).symm⟩
  | cons d rest ih =>
    obtain ⟨declared, v, hdeclared, hrest⟩ := clean_bind.mp h
    obtain ⟨_, rfl, hd⟩ := clean_attempt (d.candid_declare home) hdeclared
    obtain ⟨others, w, hothers, hpure⟩ := clean_bind.mp hrest
    obtain ⟨rfl, rfl⟩ := clean_pure.mp hpure
    obtain ⟨types, f, rfl, hnamed, hvalues⟩ := d.declare_yields hd.yields
    have hv := hh.setTypes types
    obtain ⟨rfl, types', g, rfl, hnamed', hvalues'⟩ := ih (hv.modifyVariables f) hothers
    rw [hv.variablesIn_modifyVariables, SymbolTable.variablesIn_setTypes, hvalues] at hvalues'
    refine ⟨?_, types', g ∘ f, ?_, hnamed'.trans hnamed, ?_⟩
    · rw [List.filterMap_cons]
      cases VariableDecl.pending home d <;> rfl
    · rw [SymbolTable.setTypes_modifyVariables, SymbolTable.modifyVariables_modifyVariables]
    · rw [Function.comp_apply, hvalues', List.map_cons, ← List.append_cons]

theorem declareParameters_clean {as : List Automaton} {b : Automaton} {ds : List VariableDecl}
    {pending : List PendingInitializer} (ht : t.automata = as ++ [b])
    (h : (declareVariables (.constructorParameter ⟨as.length⟩) ds).Clean t pending u) :
    pending = ds.filterMap (VariableDecl.pending (.constructorParameter ⟨as.length⟩)) ∧
      u.namedTypes = t.namedTypes ∧ ∃ types m,
        u = { t.setTypes types with automata := as ++ [{ b with constructorVariables := m }] } ∧
          m.values = b.constructorVariables.values ++
            ds.map (VariableDecl.toVariable (.constructorParameter ⟨as.length⟩)) := by
  have hplace : t.Houses (.constructorParameter ⟨as.length⟩) := ⟨b, SymbolTable.automaton?_concat ht⟩
  obtain ⟨hpending, types, f, rfl, hnamed, hvalues⟩ := declareVariables_clean hplace h
  rw [(SymbolTable.variablesIn_concat ht).1] at hvalues
  have hlast : (t.setTypes types).automata = as ++ [b] := ht
  exact ⟨hpending, hnamed, types, _, SymbolTable.modifyAutomaton_concat hlast _, hvalues⟩

theorem declareMembers_clean {as : List Automaton} {b : Automaton} {ds : List VariableDecl}
    {pending : List PendingInitializer} (ht : t.automata = as ++ [b])
    (h : (declareVariables (.automaton ⟨as.length⟩) ds).Clean t pending u) :
    pending = ds.filterMap (VariableDecl.pending (.automaton ⟨as.length⟩)) ∧
      u.namedTypes = t.namedTypes ∧ ∃ types m,
        u = { t.setTypes types with automata := as ++ [{ b with instanceVariables := m }] } ∧
          m.values = b.instanceVariables.values ++
            ds.map (VariableDecl.toVariable (.automaton ⟨as.length⟩)) := by
  have hplace : t.Houses (.automaton ⟨as.length⟩) := ⟨b, SymbolTable.automaton?_concat ht⟩
  obtain ⟨hpending, types, f, rfl, hnamed, hvalues⟩ := declareVariables_clean hplace h
  rw [(SymbolTable.variablesIn_concat ht).2] at hvalues
  have hlast : (t.setTypes types).automata = as ++ [b] := ht
  exact ⟨hpending, hnamed, types, _, SymbolTable.modifyAutomaton_concat hlast _, hvalues⟩

/-- A declared automaton comes last, with everything but its shifts and initial values. -/
theorem declare_clean {d : AutomatonDecl} {p : PendingAutomaton} (h : d.declare.Clean t p u) :
    p = d.pending ⟨t.automata.length⟩ ∧ u.namedTypes = t.namedTypes ∧ ∃ types ids b,
      u = { t.setTypes types with automata := t.automata ++ [b], automatonIds := ids } ∧
        d.Registers b := by
  rw [declare] at h
  obtain ⟨type, v, hattempt, h⟩ := clean_bind.mp h
  obtain ⟨name, rfl, htype⟩ := clean_attempt d.type.candid_resolve hattempt
  obtain ⟨id, w, hnew, h⟩ := clean_bind.mp h
  obtain ⟨_, x, hstates, h⟩ := clean_bind.mp h
  obtain ⟨parameters, y, hparameters, h⟩ := clean_bind.mp h
  obtain ⟨members, z, hmembers, hpure⟩ := clean_bind.mp h
  obtain ⟨rfl, rfl⟩ := clean_pure.mp hpure
  obtain ⟨hnamed, types, rfl⟩ := Interns.setTypes (htype.yields.reaches (d.type.resolve_within t))
  obtain ⟨rfl, -⟩ := TypeExpr.resolve_known htype.yields
  obtain ⟨-, rfl, hw⟩ := SymbolTable.registerAutomaton_eq_ok.mp (clean_register.mp hnew)
  have hlast : w.automata =
      t.automata ++ [.skeleton ⟨t.automata.length⟩ d.name.name d.type.canonicalName d.span] := by
    rw [hw]
    rfl
  obtain ⟨states, hx, hnewStates⟩ :=
    declareStates_clean hlast (fun n hn => by cases hn) hstates
  have hlast := congrArg SymbolTable.automata hx
  obtain ⟨rfl, hnamed₁, types₁, constructorVariables, hy, hnewParameters⟩ :=
    declareParameters_clean hlast hparameters
  have hlast := congrArg SymbolTable.automata hy
  obtain ⟨rfl, hnamed₂, types₂, instanceVariables, hz, hnewMembers⟩ :=
    declareMembers_clean hlast hmembers
  subst hw hx hy hz
  exact ⟨rfl, (hnamed₂.trans hnamed₁).trans hnamed, types₂, _, _, rfl, rfl, rfl, rfl,
    hnewStates, rfl, hnewParameters, hnewMembers⟩

end AutomatonDecl

end SyntaxTree

/-! ## Phases -/

/-- The table has what the given declarations declare, and no more. -/
structure SymbolTable.Registers (types : List TypeDecl) (annotations : List AnnotationDecl)
    (globals : List VariableDecl) (automata : List AutomatonDecl) (t : SymbolTable) : Prop where
  types : t.namedTypes = types.map TypeDecl.toDataType
  annotations : t.annotations.values =
    SymbolTable.builtinTarget :: annotations.map AnnotationDecl.toAnnotation
  globals : t.globals.values = globals.map (VariableDecl.toVariable .global)
  automata : List.Forall₂ AutomatonDecl.Registers automata t.automata

/-- The variables that a library declares for a scope outside of operations. -/
def SyntaxTree.Library.variablesAt (l : SyntaxTree.Library) : VariableScope → List VariableDecl
  | .global => l.globals
  | .automaton owner => (l.automata[owner.index]?.map AutomatonDecl.instanceVariables).getD []
  | .constructorParameter owner =>
    (l.automata[owner.index]?.map AutomatonDecl.constructorVariables).getD []
  | .argument _ | .body _ | .result _ => []

theorem forall₂_getElem? {α β : Type} {R : α → β → Prop} {l : List α} {m : List β}
    (h : List.Forall₂ R l m) {i : Nat} {b : β} (hb : m[i]? = some b) :
    ∃ a, l[i]? = some a ∧ R a b := by
  induction h generalizing i with
  | nil => cases hb
  | cons hab _ ih =>
    cases i with
    | zero =>
      cases hb
      exact ⟨_, rfl, hab⟩
    | succ i => exact ih hb

namespace SymbolTable.Registers

variable {types : List TypeDecl} {annotations : List AnnotationDecl} {globals : List VariableDecl}
  {automata : List AutomatonDecl} {t u : SymbolTable}

theorem annotation (ht : t.Registers types annotations globals automata) {d : AnnotationDecl}
    {a : Unit} (h : d.declare.Yields t a u) :
    u.Registers types (annotations ++ [d]) globals automata := by
  obtain ⟨_, values, rfl, hnamed, hvalues⟩ := d.declare_yields h
  refine ⟨hnamed.trans ht.types, ?_, ht.globals, ht.automata⟩
  rw [hvalues, ht.annotations, List.map_append, List.cons_append]
  rfl

theorem globalVariable (ht : t.Registers types annotations globals automata) {d : VariableDecl}
    {a : Unit} (h : (d.declare .global).Yields t a u) :
    u.Registers types annotations (globals ++ [d]) automata := by
  obtain ⟨_, f, rfl, hnamed, hvalues⟩ := d.declare_yields h
  refine ⟨hnamed.trans ht.types, ht.annotations, ?_, ht.automata⟩
  have hglobals : t.variablesIn .global = t.globals := rfl
  rw [hglobals, ht.globals] at hvalues
  rw [List.map_append]
  exact hvalues

theorem automaton (ht : t.Registers types annotations globals automata) {d : AutomatonDecl}
    {p : PendingAutomaton} (h : d.declare.Clean t p u) :
    u.Registers types annotations globals (automata ++ [d]) ∧ p = d.pending ⟨automata.length⟩ := by
  obtain ⟨hp, hnamed, _, _, b, rfl, hb⟩ := AutomatonDecl.declare_clean h
  rw [← ht.automata.length_eq] at hp
  refine ⟨⟨hnamed.trans ht.types, ht.annotations, ht.globals, ?_⟩, hp⟩
  exact List.rel_append ht.automata (.cons hb .nil)

theorem variablesIn {l : SyntaxTree.Library}
    (ht : t.Registers l.types l.annotations l.globals l.automata) (hw : t.WellFormed)
    {home : VariableScope} (hh : home.OutsideOperations) :
    (t.variablesIn home).values = (l.variablesAt home).map (VariableDecl.toVariable home) := by
  have hlength : l.automata.length = t.automata.length := ht.automata.length_eq
  have hautomaton : ∀ (owner : AutomatonId) (home : VariableScope)
      (ds : AutomatonDecl → List VariableDecl) (g : Automaton → OrderedMap String Variable),
      (∀ d a, d.Registers a → a.id = owner →
        (g a).values = (ds d).map (VariableDecl.toVariable home)) →
        (((t.automaton? owner).map g).getD .empty).values =
          ((l.automata[owner.index]?.map ds).getD []).map (VariableDecl.toVariable home) := by
    intro owner home ds g hg
    cases ha : t.automaton? owner with
    | none =>
      have hnone : l.automata[owner.index]? = none := by
        rw [List.getElem?_eq_none_iff, hlength]
        exact List.getElem?_eq_none_iff.mp ha
      rw [hnone]
      rfl
    | some a =>
      obtain ⟨d, hd, hregisters⟩ := forall₂_getElem? ht.automata ha
      rw [hd]
      exact hg d a hregisters (hw.automaton_id owner a ha)
  cases home with
  | global => exact ht.globals
  | automaton owner => exact hautomaton owner _ _ _ fun d a hd hid => hid ▸ hd.instanceVariables
  | constructorParameter owner =>
    exact hautomaton owner _ _ _ fun d a hd hid => hid ▸ hd.constructorVariables
  | _ => exact hh.elim

end SymbolTable.Registers

theorem SymbolTable.DeclaresTypes.registers {ds : List TypeDecl} {t : SymbolTable}
    (h : t.DeclaresTypes ds) : t.Registers ds [] [] [] := by
  have hnamed := h.named
  obtain ⟨types, rfl⟩ := h.only
  exact ⟨hnamed, rfl, rfl, .nil⟩

namespace Run

variable {options : Options} {library : SyntaxTree.Library}

/-- Without an error, the names of a library are all registered, and what is left for later is
known. -/
theorem DeclaresCleanly.registers (h : DeclaresCleanly library) :
    (withAutomata library).2.table.Registers library.types library.annotations library.globals
        library.automata ∧
      (withAutomata library).1 = library.pendingAutomata := by
  have htypes := h.declaresTypes.1.registers
  obtain ⟨_, hannotations⟩ := h.annotations
  have hannotated : (withAnnotations library).table.Registers library.types library.annotations [] [] :=
    clean_mapM_invariant (I := fun ds _ t => t.Registers library.types ds [] [])
      (fun d _ ds _ t _ u ht hd => ht.annotation hd.yields) hannotations htypes
  obtain ⟨_, hglobals⟩ := h.globals
  have hglobal : (withGlobals library).2.table.Registers library.types library.annotations
      library.globals [] :=
    clean_mapM_invariant
      (I := fun ds _ t => t.Registers library.types library.annotations ds [])
      (fun d _ ds _ t _ u ht hd => ht.globalVariable hd.yields) hglobals hannotated
  refine clean_mapM_invariant (I := fun ds ps t =>
    t.Registers library.types library.annotations library.globals ds ∧
      ps = ds.mapIdx fun i d => d.pending ⟨i⟩) ?_ h.automata ⟨hglobal, rfl⟩
  rintro d - ds ps t p u ⟨ht, rfl⟩ hd
  obtain ⟨hu, rfl⟩ := ht.automaton hd
  exact ⟨hu, List.mapIdx_concat.symm⟩

end Run

end LibraryContract
