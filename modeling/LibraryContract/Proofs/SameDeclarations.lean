import LibraryContract.Proofs.Declarations
import LibraryContract.Proofs.Transfer
import LibraryContract.Proofs.WrittenType

/-!
# The same declaration in two tables

A declaration that is registered without an error in one table is registered without an error in every
table that knows the same types and has not taken its name. This is said for each kind of
declaration that is registered before the operations are.

* `TypeDecl.clean_declare`, `TypeDecl.carries_validate`: the two looks at a type;
* `AnnotationDecl.carries_declare`, `VariableDecl.carries_declare`: annotations and variables;
* `AutomatonDecl.carries_declare`: automata with their states and variables.
-/

namespace LibraryContract

open SyntaxTree Build

variable {t u t' u' : SymbolTable}

/-! ## Known names -/

/-- Every name that is known in `t`, and is not that of an array, is known in `t'`. -/
def SymbolTable.KnownIn (t t' : SymbolTable) : Prop :=
  ∀ name, BracketFree name → t.Knows name → t'.Knows name

theorem SymbolTable.KnownIn.of_types (h : t.KnownIn t') (hu : u.types = t.types)
    (hu' : u'.types = t'.types) : u.KnownIn u' := by
  intro name hname hk
  have hback : t.Knows name := by
    rw [Knows, type?, ← hu]
    exact hk
  rw [Knows, type?, hu']
  exact h name hname hback

/-- Arrays have other names. -/
theorem Interns.knows_back (h : Relation.ReflTransGen Interns t u) {name : String}
    (hname : BracketFree name) (hk : u.Knows name) : t.Knows name := by
  induction h with
  | refl => exact hk
  | tail _ hstep ih =>
    refine ih ?_
    rcases hstep with @⟨element, _⟩
    exact (SymbolTable.knows_internArray.mp hk).resolve_right (hname element)

theorem SymbolTable.KnownIn.interns (h : t.KnownIn t') (hu : Relation.ReflTransGen Interns t u)
    (hu' : Relation.ReflTransGen Interns t' u') : u.KnownIn u' :=
  fun name hname hk => Interns.knows hu' (h name hname (Interns.knows_back hu hname hk))

namespace SyntaxTree

theorem TypeExpr.carries_resolve_of_knows {e : TypeExpr} (he : BracketFree e.innermost.name)
    (h : t.KnownIn t') :
    Carries t t' (fun a u a' u' => a = a' ∧ Relation.ReflTransGen Interns t u ∧
      Relation.ReflTransGen Interns t' u') e.resolve e.resolve := by
  intro a u ha
  obtain ⟨a', u', ha'⟩ :=
    TypeExpr.clean_resolve_iff.mpr (h _ he (TypeExpr.clean_resolve_iff.mp ⟨a, u, ha⟩))
  refine ⟨a', u', ha', ?_, ha.yields.reaches (e.resolve_within t),
    ha'.yields.reaches (e.resolve_within t')⟩
  rw [(TypeExpr.resolve_known ha.yields).1, (TypeExpr.resolve_known ha'.yields).1]

end SyntaxTree

/-! ## Types -/

namespace TypeRegistry

variable {r s : TypeRegistry}

theorem size_eq (h : ∀ name, r.get? name = s.get? name) : r.size = s.size := by
  have hkeys : r.types.keys.Perm s.types.keys := by
    rw [List.perm_ext_iff_of_nodup r.types.keys_nodup s.types.keys_nodup]
    intro name
    rw [← OrderedMap.contains_iff_mem_keys, ← OrderedMap.contains_iff_mem_keys, OrderedMap.contains,
      OrderedMap.contains, show r.types.get? name = s.types.get? name from h name]
  have hlength := hkeys.length_eq
  rwa [OrderedMap.keys, OrderedMap.keys, List.length_map, List.length_map] at hlength

theorem follow_congr (h : ∀ name, r.get? name = s.get? name) (visited : List String) (steps : Nat)
    (type : DataType) : r.follow visited steps type = s.follow visited steps type := by
  fun_induction follow r visited steps type with
  | case1 visited steps name target hseen =>
    unfold follow
    simp only [if_pos hseen]
  | case2 visited steps name target hnew hnone =>
    unfold follow
    simp only [if_neg hnew, ← h, hnone]
  | case3 visited name target hnew type hnext =>
    unfold follow
    simp only [if_neg hnew, ← h, hnext]
  | case4 visited name target hnew steps type hnext ih =>
    rw [ih]
    conv_rhs => unfold follow
    simp only [if_neg hnew, ← h, hnext]
  | case5 steps visited type hne => exact (follow_of_not_alias hne visited steps).symm

/-- Whether an alias is cyclic depends only on what the registry answers. -/
theorem isCyclic_congr (h : ∀ name, r.get? name = s.get? name) (name : String) :
    r.isCyclic name = s.isCyclic name := by
  have hunaliased : r.unaliased = s.unaliased := by
    funext type
    rw [unaliased, unaliased, size_eq h, follow_congr h]
  rw [isCyclic, isCyclic, h, hunaliased]

end TypeRegistry

/-- Types of the same declarations stand under the same names, arrays included. -/
theorem SymbolTable.DeclaresTypes.type?_eq {ds ds' : List TypeDecl} (h : t.DeclaresTypes ds)
    (h' : t'.DeclaresTypes ds') (hw : t.WellFormed) (hw' : t'.WellFormed) (hp : ds.Perm ds')
    (hfree : ∀ d ∈ ds, BracketFree d.name.name) (name : String) : t.type? name = t'.type? name := by
  have hforward : ∀ {u u' : SymbolTable} {es es' : List TypeDecl}, u.DeclaresTypes es →
      u'.DeclaresTypes es' → u.WellFormed → u'.WellFormed → es.Perm es' →
        (∀ d ∈ es, BracketFree d.name.name) → ∀ type, u.type? name = some type →
          u'.type? name = some type := by
    intro u u' es es' hu hu' hwu hwu' hp hfree type htype
    have hname := hwu.type_name name type htype
    rcases hu.type?_cases htype with ⟨d, hd, rfl⟩ | ⟨element, rfl, d, hd, e, he, helement⟩
    · rw [← hname]
      exact hu'.type?_toDataType hwu' (hp.mem_iff.mp hd)
    · obtain ⟨type', htype'⟩ := hu'.interned d (hp.mem_iff.mp hd) e he element helement
      have hname' := hwu'.type_name _ type' htype'
      rw [← hname]
      rcases hu'.type?_cases htype' with ⟨d', hd', rfl⟩ | ⟨element', rfl, -⟩
      · exact (hfree d' (hp.mem_iff.mpr hd') element (d'.name_toDataType ▸ hname')).elim
      · rw [(String.append_left_inj "[]").mp hname'] at htype'
        exact htype'
  have hback := hforward h' h hw' hw hp.symm fun d hd => hfree d (hp.mem_iff.mpr hd)
  exact Option.ext fun type => ⟨hforward h h' hw hw' hp hfree type, hback type⟩

namespace SyntaxTree

theorem TypeExpr.carries_resolve_of_interned {e : TypeExpr} (he : e.Interned t)
    (he' : e.Interned t') (htypes : ∀ name, t.type? name = t'.type? name) :
    Carries t t' (fun a u a' u' => a = a' ∧ t = u ∧ t' = u') e.resolve e.resolve := by
  intro a u ha
  obtain ⟨type, htype⟩ := TypeExpr.clean_resolve_iff.mp ⟨a, u, ha⟩
  obtain ⟨a', u', ha'⟩ := TypeExpr.clean_resolve_iff.mpr ⟨type, (htypes _).symm.trans htype⟩
  refine ⟨a', u', ha', ?_, (TypeExpr.resolve_of_interned he ha.yields).symm,
    (TypeExpr.resolve_of_interned he' ha'.yields).symm⟩
  rw [(TypeExpr.resolve_known ha.yields).1, (TypeExpr.resolve_known ha'.yields).1]

namespace TypeDecl

theorem wellFormed_interns_all (hw : t.WellFormed) (es : List TypeExpr) :
    (es.foldl (fun t e => e.intern t) t).WellFormed := by
  induction es generalizing t with
  | nil => exact hw
  | cons e rest ih =>
    exact ih (keeps_of_reflTransGen (e.intern_declares t) (fun _ _ => Declares.wellFormed) hw)

/-- A new name that is not that of an array can be declared. -/
theorem clean_declare {ds : List TypeDecl} {d : TypeDecl} (ht : t.DeclaresTypes ds)
    (hw : t.WellFormed) (hfree : BracketFree d.name.name)
    (hnew : d.name.name ∉ ds.map fun d => d.name.name) : ∃ u, d.declare.Clean t () u := by
  have hnot : (d.mentioned.foldl (fun t e => e.intern t) t).types.contains d.toDataType.name =
      false := by
    rw [d.name_toDataType, Bool.eq_false_iff, ne_eq, ← SymbolTable.knows_iff_contains]
    rintro ⟨type, htype⟩
    have hname := (wellFormed_interns_all hw d.mentioned).type_name _ type htype
    have hdeclared : t.type? d.name.name = some type ∨ ∃ element, type = .array element := by
      obtain ⟨-, -, -, htypes, -⟩ := t.interns_all d.mentioned
      exact (htypes _ type htype).imp_right fun ⟨_, _, element, _, heq⟩ => ⟨element, heq⟩
    have harray : ∀ element, type ≠ .array element := by
      rintro element rfl
      exact hfree element hname.symm
    rcases hdeclared with hold | ⟨element, heq⟩
    · rcases ht.type?_cases hold with ⟨d', hd', rfl⟩ | ⟨element, heq, -⟩
      · exact hnew (List.mem_map.mpr ⟨d', hd', d'.name_toDataType.symm.trans hname⟩)
      · exact harray element heq
    · exact harray element heq
  exact ⟨_, clean_bind.mpr ⟨(), _, clean_modify.mpr rfl,
    clean_registerUnit.mpr (SymbolTable.registerType_eq_ok.mpr ⟨hnot, rfl⟩)⟩⟩

theorem carries_noteRepeated (words : String → String) (seen : List String)
    (names : List Identifier) :
    Carries t t' (fun _ u _ u' => t = u ∧ t' = u') (noteRepeated words seen names)
      (noteRepeated words seen names) := by
  induction names generalizing seen with
  | nil => exact carries_pure ⟨rfl, rfl⟩
  | cons name rest ih =>
    rw [noteRepeated]
    exact carries_noteGuard Iff.rfl fun _ => ih _

variable (htypes : ∀ name, t.type? name = t'.type? name)

include htypes

theorem carries_validateFields (typeName : String) (seen : List String) (fields : List FieldDecl)
    (hf : ∀ f ∈ fields, f.type.Interned t) (hf' : ∀ f ∈ fields, f.type.Interned t') :
    Carries t t' (fun _ u _ u' => t = u ∧ t' = u') (validateFields typeName seen fields)
      (validateFields typeName seen fields) := by
  induction fields generalizing seen with
  | nil => exact carries_pure ⟨rfl, rfl⟩
  | cons field rest ih =>
    rw [validateFields]
    refine carries_noteGuard Iff.rfl fun _ => ?_
    have hfield := TypeExpr.carries_resolve_of_interned (hf field List.mem_cons_self)
      (hf' field List.mem_cons_self) htypes
    refine carries_attempt_bind field.type.candid_resolve hfield ?_
    rintro _ _ _ _ ⟨-, rfl, rfl⟩
    exact ih _ (fun f hmem => hf f (List.mem_cons_of_mem _ hmem))
      fun f hmem => hf' f (List.mem_cons_of_mem _ hmem)

/-- What the second look makes sure of depends only on the types. -/
theorem carries_validate (d : TypeDecl) (hd : ∀ e ∈ d.mentioned, e.Interned t)
    (hd' : ∀ e ∈ d.mentioned, e.Interned t') :
    Carries t t' (fun _ u _ u' => t = u ∧ t' = u') d.validate d.validate := by
  rcases d with ⟨name, _ | _ | target | fields | members | ⟨underlying, backing⟩⟩
  · exact carries_pure ⟨rfl, rfl⟩
  · exact carries_pure ⟨rfl, rfl⟩
  · have htarget := TypeExpr.carries_resolve_of_interned (hd target List.mem_cons_self)
      (hd' target List.mem_cons_self) htypes
    refine carries_bind htarget ?_
    rintro _ _ _ _ ⟨-, rfl, rfl⟩
    refine carries_look_bind ?_
    rw [TypeRegistry.isCyclic_congr htypes]
    exact carries_ite Iff.rfl (fun _ => carries_fail _ _ _ _) fun _ => carries_pure ⟨rfl, rfl⟩
  · exact carries_validateFields htypes _ _ _ (fun f hf => hd _ (List.mem_map_of_mem hf))
      fun f hf => hd' _ (List.mem_map_of_mem hf)
  · exact carries_noteRepeated _ _ _
  · have hbacking := TypeExpr.carries_resolve_of_interned (hd backing List.mem_cons_self)
      (hd' backing List.mem_cons_self) htypes
    refine carries_look_bind ?_
    rw [htypes]
    refine carries_noteGuard Iff.rfl fun _ => carries_bind hbacking ?_
    rintro _ _ _ _ ⟨-, rfl, rfl⟩
    exact carries_pure ⟨rfl, rfl⟩

end TypeDecl

/-! ## Annotations and variables -/

theorem AnnotationDecl.carries_declare (h : t.KnownIn t') {d : AnnotationDecl}
    (hfree : ∀ e ∈ d.typeExprs, BracketFree e.innermost.name)
    (hnew : t'.annotations.contains d.name.name = false) :
    Carries t t' (fun _ _ _ _ => True) d.declare d.declare := by
  refine carries_bind (carries_mapM (R := Eq)
    (I := fun u u' => u.KnownIn u' ∧ Relation.ReflTransGen Interns t' u') ?_ ⟨h, .refl⟩) ?_
  · rintro p hp u u' ⟨hu, hreached⟩
    refine carries_bind (p.type.carries_resolve_of_knows (hfree _ (List.mem_map_of_mem hp)) hu) ?_
    rintro type v _ v' ⟨rfl, hv, hv'⟩
    exact carries_pure ⟨rfl, hu.interns hv hv', hreached.trans hv'⟩
  · rintro parameters u parameters' u' ⟨-, -, hreached⟩ _ v hv
    obtain ⟨types, rfl⟩ := Interns.types_only hreached
    exact ⟨(), _, clean_registerUnit.mpr
      (SymbolTable.registerAnnotationType_eq_ok.mpr ⟨hnew, rfl⟩), trivial⟩

end SyntaxTree

/-- Two tables have collections for two scopes, and a name that is free in the one is free in the
other. -/
structure SymbolTable.Spares (t t' : SymbolTable) (home home' : VariableScope) : Prop where
  left : t.Houses home
  right : t'.Houses home'
  free : ∀ name, (t.variablesIn home).contains name = false →
    (t'.variablesIn home').contains name = false

namespace SyntaxTree

/-- A declared variable takes its name in both tables. -/
theorem VariableDecl.carries_declare (h : t.KnownIn t') {d : VariableDecl}
    {home home' : VariableScope} (hh : t.Houses home) (hh' : t'.Houses home')
    (hfree : BracketFree d.type.innermost.name)
    (hnew : (t.variablesIn home).contains d.name.name = false →
      (t'.variablesIn home').contains d.name.name = false) :
    Carries t t' (fun _ u _ u' => u.KnownIn u' ∧ (t.Spares t' home home' → u.Spares u' home home'))
      (d.declare home) (d.declare home') := by
  refine carries_bind (d.type.carries_resolve_of_knows hfree h) ?_
  rintro type u _ u' ⟨rfl, hu, hu'⟩ _ v hv
  have hk := h.interns hu hu'
  obtain ⟨-, types, rfl⟩ := Interns.setTypes hu
  obtain ⟨-, types', rfl⟩ := Interns.setTypes hu'
  obtain ⟨-, hfresh, rfl⟩ := SymbolTable.registerVariable_eq_ok.mp (clean_registerUnit.mp hv)
  rw [SymbolTable.variablesIn_setTypes] at hfresh
  have hnot : ∀ id, home' ≠ .argument id := by
    rintro id rfl
    exact hh'
  have hfresh' : ((t'.setTypes types').variablesIn home').contains d.name.name = false := by
    rw [SymbolTable.variablesIn_setTypes]
    exact hnew hfresh
  refine ⟨(), _, clean_registerUnit.mpr (SymbolTable.registerVariable_eq_ok.mpr
    ⟨hnot, hfresh', rfl⟩), ?_, fun hs => ⟨?_, ?_, fun name hname => ?_⟩⟩
  · exact hk.of_types (SymbolTable.types_modifyVariables _ _ _) (SymbolTable.types_modifyVariables _ _ _)
  · exact (hh.setTypes types).modifyVariables _
  · exact (hh'.setTypes types').modifyVariables _
  · rw [(hh.setTypes types).variablesIn_modifyVariables, SymbolTable.variablesIn_setTypes,
      OrderedMap.contains_insert] at hname
    rw [(hh'.setTypes types').variablesIn_modifyVariables, SymbolTable.variablesIn_setTypes,
      OrderedMap.contains_insert]
    rw [Bool.or_eq_false_iff] at hname ⊢
    exact ⟨hname.1, hs.free name hname.2⟩

/-! ## Automata -/

namespace AutomatonDecl

theorem carries_declareStates (id id' : AutomatonId) (automaton : String) (seen : List String)
    (states : List StateDecl) :
    Carries t t' (fun _ _ _ _ => True) (declareStates id automaton seen states)
      (declareStates id' automaton seen states) := by
  induction states generalizing t t' seen with
  | nil => exact carries_pure trivial
  | cons state rest ih =>
    rw [declareStates, declareStates]
    refine carries_ite Iff.rfl (fun _ a u ha => ?_) fun _ => ?_
    · obtain ⟨_, _, hnote, -⟩ := clean_bind.mp ha
      exact (clean_note.mp hnote).elim
    · exact carries_bind (carries_modify (P := fun _ _ _ _ => True) trivial) fun _ _ _ _ _ => ih _

theorem carries_declareVariables (h : t.KnownIn t') {home home' : VariableScope}
    (hs : t.Spares t' home home') {ds : List VariableDecl}
    (hfree : ∀ d ∈ ds, BracketFree d.type.innermost.name) :
    Carries t t' (fun _ u _ u' => u.KnownIn u') (declareVariables home ds)
      (declareVariables home' ds) := by
  induction ds generalizing t t' with
  | nil => exact carries_pure h
  | cons d rest ih =>
    rw [declareVariables, declareVariables]
    have hd := d.carries_declare h hs.left hs.right (hfree d List.mem_cons_self) (hs.free _)
    refine carries_attempt_bind (d.candid_declare home) hd ?_
    rintro _ u _ u' ⟨hu, hspares⟩
    refine carries_bind (ih hu (hspares hs) fun e he => hfree e (List.mem_cons_of_mem _ he)) ?_
    exact fun _ v _ v' hv => carries_pure hv

/-- The automaton `id` is the last one, and it has no instance variables yet. -/
def EndsOpen (t : SymbolTable) (id : AutomatonId) : Prop :=
  ∃ as b, t.automata = as ++ [b] ∧ id = ⟨as.length⟩ ∧ b.instanceVariables = .empty

theorem EndsOpen.spares {id id' : AutomatonId} (h : EndsOpen t id) (h' : EndsOpen t' id') :
    t.Spares t' (.automaton id) (.automaton id') := by
  obtain ⟨as, b, ht, rfl, -⟩ := h
  obtain ⟨as', b', ht', rfl, hnone⟩ := h'
  refine ⟨⟨b, SymbolTable.automaton?_concat ht⟩, ⟨b', SymbolTable.automaton?_concat ht'⟩,
    fun _ _ => ?_⟩
  rw [(SymbolTable.variablesIn_concat ht').2, hnone]
  rfl

theorem EndsOpen.declareParameters {id : AutomatonId} (h : EndsOpen t id) {ds : List VariableDecl}
    {pending : List PendingInitializer}
    (hu : (declareVariables (.constructorParameter id) ds).Clean t pending u) : EndsOpen u id := by
  obtain ⟨as, b, ht, rfl, hnone⟩ := h
  obtain ⟨-, -, types, m, rfl, -⟩ := declareParameters_clean ht hu
  exact ⟨as, _, rfl, rfl, hnone⟩

/-- The automaton `id` is the last one, and nothing of its body is there yet. -/
def EndsBlank (t : SymbolTable) (id : AutomatonId) : Prop :=
  ∃ as name type span, t.automata = as ++ [.skeleton ⟨as.length⟩ name type span] ∧ id = ⟨as.length⟩

theorem EndsBlank.declareStates {id : AutomatonId} (h : EndsBlank t id) {automaton : String}
    {states : List StateDecl} {a : Unit}
    (hu : (declareStates id automaton [] states).Clean t a u) :
    u.types = t.types ∧ EndsOpen u id ∧ u.variablesIn (.constructorParameter id) = .empty := by
  obtain ⟨as, name, type, span, ht, rfl⟩ := h
  obtain ⟨m, rfl, -⟩ := declareStates_clean ht (fun n hn => by cases hn) hu
  refine ⟨rfl, ⟨as, _, rfl, rfl, rfl⟩, ?_⟩
  rw [(SymbolTable.variablesIn_concat rfl).1]
  rfl

/-- An automaton whose name is free is declared as it is in the other table. -/
theorem carries_declare (h : t.KnownIn t') {d : AutomatonDecl}
    (hfree : ∀ e ∈ d.headTypeExprs, BracketFree e.innermost.name)
    (hnew : t'.automatonIds.contains d.name.name = false) :
    Carries t t' (fun _ _ _ _ => True) d.declare d.declare := by
  have hvariables : ∀ v ∈ d.constructorVariables ++ d.instanceVariables,
      BracketFree v.type.innermost.name := by
    intro v hv
    refine hfree v.type (List.mem_cons_of_mem _ ?_)
    rw [← List.map_append]
    exact List.mem_map_of_mem hv
  have htype := d.type.carries_resolve_of_knows (hfree _ List.mem_cons_self) h
  refine carries_attempt_bind d.type.candid_resolve htype ?_
  rintro type u _ u' ⟨rfl, hu, hu'⟩
  have hk := h.interns hu hu'
  obtain ⟨-, types, rfl⟩ := Interns.setTypes hu
  obtain ⟨-, types', rfl⟩ := Interns.setTypes hu'
  -- the name is taken
  refine carries_bind (P := fun id u id' u' => u.KnownIn u' ∧ EndsBlank u id ∧ EndsBlank u' id') ?_ ?_
  · intro id v hv
    obtain ⟨-, rfl, rfl⟩ := SymbolTable.registerAutomaton_eq_ok.mp (clean_register.mp hv)
    refine ⟨_, _, clean_register.mpr (SymbolTable.registerAutomaton_eq_ok.mpr ⟨hnew, rfl, rfl⟩),
      hk.of_types rfl rfl, ⟨t.automata, _, _, _, rfl, rfl⟩, ⟨t'.automata, _, _, _, rfl, rfl⟩⟩
  rintro id u id' u' ⟨hk, hblank, hblank'⟩
  -- states and variables of a new automaton are free
  refine carries_bind (carries_declareStates id id' d.name.name [] d.states).cleans ?_
  rintro _ v _ v' ⟨-, hv, hv'⟩
  obtain ⟨htypes, hopen, -⟩ := hblank.declareStates hv
  obtain ⟨htypes', hopen', hempty⟩ := hblank'.declareStates hv'
  have hk := hk.of_types htypes htypes'
  have hspares : v.Spares v' (.constructorParameter id) (.constructorParameter id') := by
    refine ⟨(hopen.spares hopen').left, (hopen.spares hopen').right, fun _ _ => ?_⟩
    rw [hempty]
    rfl
  refine carries_bind (carries_declareVariables hk hspares fun e he =>
    hvariables e (List.mem_append_left _ he)).cleans ?_
  rintro _ w _ w' ⟨hk, hw, hw'⟩
  have hspares := (hopen.declareParameters hw).spares (hopen'.declareParameters hw')
  refine carries_bind (carries_declareVariables hk hspares fun e he =>
    hvariables e (List.mem_append_right _ he)) ?_
  exact fun _ _ _ _ _ => carries_pure trivial

end AutomatonDecl

end SyntaxTree

end LibraryContract
