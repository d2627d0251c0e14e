import LibraryContract.Proofs.CleanRun
import LibraryContract.Proofs.Interface
import LibraryContract.Proofs.SameDeclarations

/-!
# The same names in another order

The phases before the operations register one name for each declaration. Which names are free and
which types are known depends on the set of earlier declarations only, so when these phases end
cleanly for a library, they do so for the same declarations in another order, and both tables answer
alike to names.

* `DeclaresCleanly.reorders`: the phases end cleanly in the other order;
* `DeclaresCleanly.interface_eq`: both tables have one interface.
-/

namespace LibraryContract

open SyntaxTree Build

variable {t u t' : SymbolTable}

/-! ## Values under their own names -/

namespace OrderedMap

variable {κ α : Type} [DecidableEq κ]

/-- Every value stands under its own name. -/
def LabelledBy (label : α → κ) (m : OrderedMap κ α) : Prop := ∀ k v, m.get? k = some v → label v = k

variable {label : α → κ} {m n : OrderedMap κ α}

theorem LabelledBy.entries_eq (h : m.LabelledBy label) :
    m.entries = m.values.map fun v => (label v, v) := by
  rw [values, List.map_map]
  refine ((List.map_congr_left fun e he => ?_).trans (List.map_id _)).symm
  exact Prod.ext (h e.1 e.2 (get?_eq_some_iff.mpr he)) rfl

theorem LabelledBy.keys_eq (h : m.LabelledBy label) : m.keys = m.values.map label := by
  rw [keys, h.entries_eq, List.map_map]
  rfl

theorem LabelledBy.get?_iff (h : m.LabelledBy label) {k : κ} {v : α} :
    m.get? k = some v ↔ v ∈ m.values ∧ label v = k := by
  rw [get?_eq_some_iff, h.entries_eq, List.mem_map]
  constructor
  · rintro ⟨w, hw, heq⟩
    cases heq
    exact ⟨hw, rfl⟩
  · rintro ⟨hv, rfl⟩
    exact ⟨v, hv, rfl⟩

/-- The order of the values does not matter for lookups. -/
theorem LabelledBy.get?_eq (h : m.LabelledBy label) (h' : n.LabelledBy label)
    (hp : m.values.Perm n.values) (k : κ) : m.get? k = n.get? k :=
  Option.ext fun v => by rw [h.get?_iff, h'.get?_iff, hp.mem_iff]

theorem LabelledBy.insert (h : m.LabelledBy label) (v : α) :
    (m.insert (label v) v).LabelledBy label := by
  intro k w hw
  rw [get?_insert] at hw
  split at hw
  · rename_i hk
    cases hw
    exact hk.symm
  · exact h k w hw

end OrderedMap

/-! ## Tables in good order -/

/-- Annotations and states stand under their own names. -/
structure SymbolTable.Labelled (t : SymbolTable) : Prop where
  annotations : t.annotations.LabelledBy Annotation.name
  states : ∀ id a, t.automaton? id = some a → a.states.LabelledBy State.name

namespace SymbolTable.Labelled

theorem of_parts (h : t.Labelled) (ha : u.annotations = t.annotations)
    (hs : u.automata = t.automata) : u.Labelled := by
  refine ⟨ha ▸ h.annotations, fun id a hid => h.states id a ?_⟩
  rw [automaton?, ← hs]
  exact hid

theorem modifyAutomaton (h : t.Labelled) (id : AutomatonId) {f : Automaton → Automaton}
    (hf : ∀ a, a.states.LabelledBy State.name → (f a).states.LabelledBy State.name) :
    (t.modifyAutomaton id f).Labelled := by
  refine ⟨h.annotations, fun j a ha => ?_⟩
  rw [automaton?_modifyAutomaton] at ha
  split at ha
  · obtain ⟨b, hb, rfl⟩ := Option.map_eq_some_iff.mp ha
    exact hf b (h.states j b hb)
  · exact h.states j a ha

theorem modifyVariables (h : t.Labelled) (home : VariableScope)
    (f : OrderedMap String Variable → OrderedMap String Variable) :
    (t.modifyVariables home f).Labelled := by
  cases home with
  | automaton id => exact h.modifyAutomaton id fun _ ha => ha
  | constructorParameter id => exact h.modifyAutomaton id fun _ ha => ha
  | _ => exact h.of_parts rfl rfl

end SymbolTable.Labelled

theorem Furnishes.labelled (h : Furnishes t u) (ht : t.Labelled) : u.Labelled := by
  cases h with
  | interns h =>
    obtain ⟨_⟩ := h
    exact ht.of_parts rfl rfl
  | annotationType _ h =>
    obtain ⟨-, rfl⟩ := SymbolTable.registerAnnotationType_eq_ok.mp h
    exact ⟨ht.annotations.insert _, ht.states⟩
  | state => exact ht.modifyAutomaton _ fun a ha => ha.insert _
  | «variable» _ _ _ h =>
    obtain ⟨-, -, rfl⟩ := SymbolTable.registerVariable_eq_ok.mp h
    exact ht.modifyVariables _ _

theorem Declares.labelled (h : Declares t u) (ht : t.Labelled) : u.Labelled := by
  cases h with
  | array => exact ht.of_parts rfl rfl
  | type h =>
    obtain ⟨-, rfl⟩ := SymbolTable.registerType_eq_ok.mp h
    exact ht.of_parts rfl rfl
  | automaton h =>
    obtain ⟨-, -, rfl⟩ := SymbolTable.registerAutomaton_eq_ok.mp h
    refine ⟨ht.annotations, fun j a ha => ?_⟩
    rcases getElem?_concat_eq_some.mp ha with ha | ⟨-, rfl⟩
    · exact ht.states j a ha
    · intro k v hv
      cases hv
  | furnishes h => exact h.labelled ht

theorem SymbolTable.Housed.labelledBy (h : t.Housed) (home : VariableScope) :
    (t.variablesIn home).LabelledBy Variable.name := fun name v hv => (h home name v hv).1

/-- Everything stands under its own name. -/
structure SymbolTable.Orderly (t : SymbolTable) : Prop where
  wellFormed : t.WellFormed
  housed : t.Housed
  labelled : t.Labelled

theorem Declares.orderly (h : Declares t u) (ht : t.Orderly) : u.Orderly :=
  ⟨h.wellFormed ht.wellFormed, h.housed ht.housed, h.labelled ht.labelled⟩

namespace SymbolTable

theorem Orderly.empty : SymbolTable.empty.Orderly := by
  refine ⟨.empty, .empty, ⟨fun name a ha => ?_, fun id a ha => by cases ha⟩⟩
  rw [SymbolTable.empty, OrderedMap.get?_insert] at ha
  split at ha
  · rename_i heq
    cases ha
    exact heq.symm
  · cases ha

theorem Orderly.mem_namedTypes (h : t.Orderly) {type : DataType} :
    type ∈ t.namedTypes ↔ t.type? type.name = some type ∧ type.isArray = false := by
  rw [namedTypes, List.mem_filter, Bool.not_eq_true']
  refine and_congr_left fun _ => ?_
  constructor
  · intro hmem
    obtain ⟨name, hname⟩ := OrderedMap.mem_values.mp hmem
    rw [h.wellFormed.type_name name type hname]
    exact hname
  · exact fun htype => OrderedMap.mem_values.mpr ⟨_, htype⟩

/-- Tables with the same declared types know the same names, arrays apart. -/
theorem KnownIn.of_namedTypes (h : t.Orderly) (h' : t'.Orderly)
    (hp : t.namedTypes.Perm t'.namedTypes) : t.KnownIn t' := by
  rintro name hname ⟨type, htype⟩
  have htyped := h.wellFormed.type_name name type htype
  have hnot : type.isArray = false := by
    cases type with
    | array element => exact (hname element htyped.symm).elim
    | _ => rfl
  subst htyped
  exact ⟨type, (h'.mem_namedTypes.mp (hp.mem_iff.mp (h.mem_namedTypes.mpr ⟨htype, hnot⟩))).1⟩

end SymbolTable

/-! ## Names of declarations -/

namespace SyntaxTree.Library

/-- Declarations of one kind have different names, and no annotation takes the reserved one. -/
structure NamesDistinct (l : Library) : Prop where
  types : (l.types.map fun d => d.name.name).Nodup
  annotations : (targetName :: l.annotations.map fun d => d.name.name).Nodup
  globals : (l.globals.map fun d => d.name.name).Nodup
  automata : (l.automata.map fun d => d.name.name).Nodup

theorem NamesDistinct.reorders {l l' : Library} (h : l.NamesDistinct) (hl : l.Reorders l') :
    l'.NamesDistinct where
  types := (hl.types.map _).nodup_iff.mp h.types
  annotations := ((hl.annotations.map _).cons _).nodup_iff.mp h.annotations
  globals := (hl.globals.map _).nodup_iff.mp h.globals
  automata := (hl.automata.map _).nodup_iff.mp h.automata

end SyntaxTree.Library

namespace SymbolTable.Registers

variable {types : List TypeDecl} {annotations : List AnnotationDecl} {globals : List VariableDecl}
  {automata : List AutomatonDecl}

theorem type_names (h : t.Registers types annotations globals automata) :
    t.namedTypes.map DataType.name = types.map fun d => d.name.name := by
  rw [h.types, List.map_map]
  exact List.map_congr_left fun d _ => d.name_toDataType

theorem annotation_keys (h : t.Registers types annotations globals automata) (ho : t.Orderly) :
    t.annotations.keys = targetName :: annotations.map fun d => d.name.name := by
  rw [ho.labelled.annotations.keys_eq, h.annotations, List.map_cons, List.map_map]
  rfl

theorem global_keys (h : t.Registers types annotations globals automata) (ho : t.Orderly) :
    t.globals.keys = globals.map fun d => d.name.name := by
  have hlabelled : t.globals.LabelledBy Variable.name := ho.housed.labelledBy .global
  rw [hlabelled.keys_eq, h.globals, List.map_map]
  rfl

theorem automaton_names (h : t.Registers types annotations globals automata) :
    t.automata.map Automaton.name = automata.map fun d => d.name.name := by
  rw [← List.forall₂_eq_eq_eq, List.forall₂_map_left_iff, List.forall₂_map_right_iff]
  exact h.automata.flip.imp fun a d hd => hd.name

/-- The name of an automaton that is not declared yet is free. -/
theorem automaton_free (h : t.Registers types annotations globals automata) (ho : t.Orderly)
    {name : String} (hnew : name ∉ automata.map fun d => d.name.name) :
    t.automatonIds.contains name = false := by
  rw [Bool.eq_false_iff]
  intro hold
  obtain ⟨id, hid⟩ := Option.isSome_iff_exists.mp hold
  obtain ⟨a, ha, rfl⟩ := (ho.wellFormed.automatonId?_iff name id).mp hid
  rw [← h.automaton_names] at hnew
  exact hnew (List.mem_map_of_mem (List.mem_of_getElem? ha))

end SymbolTable.Registers

theorem SymbolTable.Orderly.nodup_types (h : t.Orderly) :
    (t.namedTypes.map DataType.name).Nodup := by
  have hlabelled : t.types.types.LabelledBy DataType.name := h.wellFormed.type_name
  have hkeys := t.types.types.keys_nodup
  rw [hlabelled.keys_eq] at hkeys
  exact hkeys.sublist (List.filter_sublist.map _)

theorem SymbolTable.Orderly.nodup_automata (h : t.Orderly) :
    (t.automata.map Automaton.name).Nodup := by
  rw [List.Nodup, List.pairwise_map, List.pairwise_iff_getElem]
  intro i j hi hj hij heq
  have hsame : (⟨i⟩ : AutomatonId) = ⟨j⟩ :=
    h.wellFormed.automaton_unique (List.getElem?_eq_getElem hi) (List.getElem?_eq_getElem hj) heq
  exact absurd (AutomatonId.mk.inj hsame) (Nat.ne_of_lt hij)

/-! ## The other order -/

theorem Build.Yields.orderly {α : Type} {b : Build α} {a : α} (h : b.Yields t a u)
    (hb : b.Within Declares t) (ht : t.Orderly) : u.Orderly :=
  keeps_of_reflTransGen (h.reaches hb) (fun _ _ => Declares.orderly) ht

/-- The declared types are all there, and everything stands under its own name. -/
structure SymbolTable.Ready (types : List TypeDecl) (t : SymbolTable) : Prop where
  orderly : t.Orderly
  named : t.namedTypes = types.map TypeDecl.toDataType

theorem SymbolTable.Ready.knownIn {types types' : List TypeDecl} (h : t.Ready types)
    (h' : t'.Ready types') (hp : types.Perm types') : t.KnownIn t' := by
  refine .of_namedTypes h.orderly h'.orderly ?_
  rw [h.named, h'.named]
  exact hp.map _

namespace SyntaxTree

variable {types : List TypeDecl}

theorem AnnotationDecl.declare_ready {d : AnnotationDecl} {a : Unit} (h : d.declare.Yields t a u)
    (ht : t.Ready types) : u.Ready types := by
  obtain ⟨_, _, -, hnamed, -⟩ := d.declare_yields h
  exact ⟨h.orderly ((d.declare_within t).mono fun _ _ => .furnishes) ht.orderly, hnamed.trans ht.named⟩

theorem VariableDecl.declare_ready {d : VariableDecl} {a : Unit}
    (h : (d.declare .global).Yields t a u) (ht : t.Ready types) : u.Ready types := by
  have hg : VariableScope.global.OutsideOperations := trivial
  obtain ⟨_, _, -, hnamed, -⟩ := d.declare_yields h
  exact ⟨h.orderly ((d.declare_within hg t).mono fun _ _ => .furnishes) ht.orderly,
    hnamed.trans ht.named⟩

theorem AutomatonDecl.declare_ready {d : AutomatonDecl} {p : PendingAutomaton}
    (h : d.declare.Clean t p u) (ht : t.Ready types) : u.Ready types := by
  obtain ⟨-, hnamed, -⟩ := AutomatonDecl.declare_clean h
  exact ⟨h.yields.orderly (d.declare_within t) ht.orderly, hnamed.trans ht.named⟩

end SyntaxTree

namespace Run

variable {l l' : SyntaxTree.Library}

theorem withAutomata_orderly (l : SyntaxTree.Library) : (withAutomata l).2.table.Orderly :=
  keeps_of_reflTransGen (withAutomata_declares l) (fun _ _ => Declares.orderly) .empty

theorem DeclaresCleanly.namesDistinct (h : DeclaresCleanly l) : l.NamesDistinct := by
  have ho := withAutomata_orderly l
  have hr := h.registers.1
  exact {
    types := hr.type_names ▸ ho.nodup_types
    annotations := hr.annotation_keys ho ▸ OrderedMap.keys_nodup _
    globals := hr.global_keys ho ▸ OrderedMap.keys_nodup _
    automata := hr.automaton_names ▸ ho.nodup_automata }

theorem not_mem_of_nodup_split {α β : Type} {f : α → β} {items done rest : List α} {a : α}
    (h : (items.map f).Nodup) (hitems : items = done ++ a :: rest) : f a ∉ done.map f := by
  rw [hitems, List.map_append, List.map_cons] at h
  intro hmem
  exact (List.nodup_append.mp h).2.2 _ hmem _ List.mem_cons_self rfl

/-- Types of different names can be declared. -/
theorem exists_clean_declare {ds : List TypeDecl} (hnames : (ds.map fun d => d.name.name).Nodup)
    (hfree : ∀ d ∈ ds, BracketFree d.name.name) :
    ∃ declared t, (ds.mapM TypeDecl.declare).Clean .empty declared t ∧ t.DeclaresTypes ds ∧
      t.Orderly := by
  refine exists_clean_mapM (I := fun ds _ t => t.DeclaresTypes ds ∧ t.Orderly) ?_ ⟨.empty, .empty⟩
  rintro done d rest results t hitems ⟨ht, ho⟩
  have hd : d ∈ ds := hitems ▸ List.mem_append_right done List.mem_cons_self
  obtain ⟨u, hu⟩ := TypeDecl.clean_declare ht ho.wellFormed (hfree d hd)
    (not_mem_of_nodup_split hnames hitems)
  exact ⟨(), u, hu, TypeDecl.declaresTypes ht hu.yields, hu.yields.orderly (d.declare_within t) ho⟩

section Phases

variable (h : DeclaresCleanly l) (hl : l.Reorders l') (hfree : l.BracketFree)

include h hl hfree

/-- Both looks at the types end cleanly in the other order. -/
theorem DeclaresCleanly.reorders_types :
    (withTypes l').Faultless ∧ (withTypes l').table.DeclaresTypes l'.types ∧
      (withTypes l').table.Orderly := by
  obtain ⟨declared, t', hdeclared, ht', ho'⟩ := exists_clean_declare
    (h.namesDistinct.reorders hl).types fun d hd => hfree.declared (hl.types.mem_iff.mpr hd)
  obtain ⟨t, done, checked, hdone, hchecked⟩ := h.types
  obtain ⟨ht, ho⟩ : t.DeclaresTypes l.types ∧ t.Orderly :=
    clean_mapM_invariant (I := fun ds _ t => t.DeclaresTypes ds ∧ t.Orderly)
      (fun d _ ds _ t _ u ht hd => ⟨TypeDecl.declaresTypes ht.1 hd.yields,
        hd.yields.orderly (d.declare_within t) ht.2⟩) hdone ⟨.empty, .empty⟩
  -- the second look finds the same types
  have htypes : ∀ name, t.type? name = t'.type? name :=
    ht.type?_eq ht' ho.wellFormed ho'.wellFormed hl.types fun _ hd => hfree.declared hd
  obtain ⟨checked', _, hchecked', rfl⟩ :
      ∃ checked' u, (l'.types.mapM TypeDecl.validate).Clean t' checked' u ∧ u = t' := by
    refine exists_clean_mapM_of_counterparts (P := fun _ s => s = t) (I := fun _ _ u => u = t') hchecked
      rfl ?_ rfl ?_
    · rintro done d rest _ _ _ hitems rfl hclean
      have hd : d ∈ l.types := hitems ▸ List.mem_append_right done List.mem_cons_self
      exact (TypeDecl.validate_clean (ht.interned d hd) hclean).1
    · rintro done d rest results _ hitems rfl
      have hd' : d ∈ l'.types := hitems ▸ List.mem_append_right done List.mem_cons_self
      have hd := hl.types.mem_iff.mpr hd'
      refine ⟨d, hd, ?_⟩
      rintro _ _ _ _ _ - rfl hclean
      obtain ⟨b', u', hu', -, hsame⟩ :=
        d.carries_validate htypes (ht.interned d hd) (ht'.interned d hd') _ _ hclean
      exact ⟨b', u', hu', hsame.symm⟩
  obtain ⟨hfaultless, htable⟩ := withTypes_of_clean hdeclared hchecked'
  rw [htable]
  exact ⟨hfaultless, ht', ho'⟩

end Phases

/-! ### Annotations, variables and automata -/

section Phases

variable (hl : l.Reorders l') (hfree : l.BracketFree)
  (hnames : l'.NamesDistinct)

include hl hfree hnames

theorem reorders_annotations {results : List Unit} (ht : t.Ready l.types)
    (hd : (l.annotations.mapM AnnotationDecl.declare).Clean t results u)
    (hr : t'.Registers l'.types [] [] []) (ho : t'.Orderly) :
    ∃ results' u', (l'.annotations.mapM AnnotationDecl.declare).Clean t' results' u' ∧
      u'.Registers l'.types l'.annotations [] [] ∧ u'.Orderly := by
  refine exists_clean_mapM_of_counterparts (P := fun _ s => s.Ready l.types)
    (I := fun ds _ u => u.Registers l'.types ds [] [] ∧ u.Orderly) hd ht
    (fun _ d _ t _ u _ ht hd => d.declare_ready hd.yields ht) ⟨hr, ho⟩ ?_
  rintro done d rest _ t' hitems ⟨hr, ho⟩
  have hmem : d ∈ l'.annotations := hitems ▸ List.mem_append_right done List.mem_cons_self
  refine ⟨d, hl.annotations.mem_iff.mpr hmem, fun _ _ t _ u _ ht hd => ?_⟩
  have hready : t'.Ready l'.types := ⟨ho, hr.types⟩
  obtain ⟨hreserved, hnodup⟩ := List.nodup_cons.mp hnames.annotations
  have hnew : t'.annotations.contains d.name.name = false := by
    rw [Bool.eq_false_iff, ne_eq, OrderedMap.contains_iff_mem_keys, hr.annotation_keys ho,
      List.mem_cons, not_or]
    refine ⟨fun heq => hreserved ?_, not_mem_of_nodup_split hnodup hitems⟩
    rw [← heq]
    exact List.mem_map_of_mem hmem
  obtain ⟨_, u', hu', -⟩ := AnnotationDecl.carries_declare (ht.knownIn hready hl.types)
    (fun e he => hfree.mentioned (Library.mem_typeExprs.mpr
      (.inr (.inl ⟨d, hl.annotations.mem_iff.mpr hmem, he⟩)))) hnew _ _ hd
  exact ⟨_, u', hu', hr.annotation hu'.yields, (d.declare_ready hu'.yields hready).orderly⟩

theorem reorders_globals {results : List Unit} (ht : t.Ready l.types)
    (hd : (l.globals.mapM (VariableDecl.declare .global)).Clean t results u)
    (hr : t'.Registers l'.types l'.annotations [] []) (ho : t'.Orderly) :
    ∃ results' u', (l'.globals.mapM (VariableDecl.declare .global)).Clean t' results' u' ∧
      u'.Registers l'.types l'.annotations l'.globals [] ∧ u'.Orderly := by
  refine exists_clean_mapM_of_counterparts (P := fun _ s => s.Ready l.types)
    (I := fun ds _ u => u.Registers l'.types l'.annotations ds [] ∧ u.Orderly) hd ht
    (fun _ d _ t _ u _ ht hd => d.declare_ready hd.yields ht) ⟨hr, ho⟩ ?_
  rintro done d rest _ t' hitems ⟨hr, ho⟩
  have hmem : d ∈ l'.globals := hitems ▸ List.mem_append_right done List.mem_cons_self
  refine ⟨d, hl.globals.mem_iff.mpr hmem, fun _ _ t _ u _ ht hd => ?_⟩
  have hready : t'.Ready l'.types := ⟨ho, hr.types⟩
  have hnew : (t'.variablesIn .global).contains d.name.name = false := by
    show t'.globals.contains d.name.name = false
    rw [Bool.eq_false_iff, ne_eq, OrderedMap.contains_iff_mem_keys, hr.global_keys ho]
    exact not_mem_of_nodup_split hnames.globals hitems
  have hg : ∀ t : SymbolTable, t.Houses .global := fun _ => trivial
  obtain ⟨_, u', hu', -⟩ := VariableDecl.carries_declare (ht.knownIn hready hl.types) (hg t) (hg t')
    (hfree.mentioned (Library.mem_typeExprs.mpr
      (.inr (.inr (.inl ⟨d, hl.globals.mem_iff.mpr hmem, rfl⟩))))) (fun _ => hnew) _ _ hd
  exact ⟨_, u', hu', hr.globalVariable hu'.yields, (d.declare_ready hu'.yields hready).orderly⟩

theorem reorders_automata {pending : List PendingAutomaton} (ht : t.Ready l.types)
    (hd : (l.automata.mapM AutomatonDecl.declare).Clean t pending u)
    (hr : t'.Registers l'.types l'.annotations l'.globals []) (ho : t'.Orderly) :
    ∃ pending' u', (l'.automata.mapM AutomatonDecl.declare).Clean t' pending' u' ∧
      u'.Registers l'.types l'.annotations l'.globals l'.automata ∧ u'.Orderly := by
  refine exists_clean_mapM_of_counterparts (P := fun _ s => s.Ready l.types)
    (I := fun ds _ u => u.Registers l'.types l'.annotations l'.globals ds ∧ u.Orderly) hd ht
    (fun _ d _ t _ u _ ht hd => d.declare_ready hd ht) ⟨hr, ho⟩ ?_
  rintro done d rest _ t' hitems ⟨hr, ho⟩
  have hmem : d ∈ l'.automata := hitems ▸ List.mem_append_right done List.mem_cons_self
  refine ⟨d, hl.automata.mem_iff.mpr hmem, fun _ _ t _ u _ ht hd => ?_⟩
  have hready : t'.Ready l'.types := ⟨ho, hr.types⟩
  have hnew := hr.automaton_free ho (not_mem_of_nodup_split hnames.automata hitems)
  obtain ⟨_, u', hu', -⟩ := AutomatonDecl.carries_declare (ht.knownIn hready hl.types)
    (fun e he => hfree.mentioned (Library.mem_typeExprs.mpr
      (.inr (.inr (.inr (.inl ⟨d, hl.automata.mem_iff.mpr hmem, he⟩)))))) hnew _ _ hd
  exact ⟨_, u', hu', (hr.automaton hu').1, (d.declare_ready hu' hready).orderly⟩

end Phases

/-- The first phases end cleanly in every order of the declarations. -/
theorem DeclaresCleanly.reorders (h : DeclaresCleanly l) (hl : l.Reorders l')
    (hfree : l.BracketFree) : DeclaresCleanly l' := by
  have hnames := h.namesDistinct.reorders hl
  obtain ⟨hfaultless, htypes, ho⟩ := h.reorders_types hl hfree
  have hready : (withTypes l).table.Ready l.types :=
    ⟨keeps_of_reflTransGen (registerTypes_declares l.types start) (fun _ _ => Declares.orderly) .empty,
      h.withTypes_named⟩
  obtain ⟨_, hannotations⟩ := h.annotations
  obtain ⟨_, _, hclean, hr, ho⟩ :=
    reorders_annotations hl hfree hnames hready hannotations htypes.registers ho
  obtain ⟨hfaultless, rfl⟩ := withAnnotations_of_clean hfaultless hclean
  have hready := clean_mapM_keeps (fun d _ t _ u ht hd => d.declare_ready hd.yields ht) hannotations
    hready
  obtain ⟨_, hglobals⟩ := h.globals
  obtain ⟨_, _, hclean, hr, ho⟩ := reorders_globals hl hfree hnames hready hglobals hr ho
  obtain ⟨hfaultless, rfl⟩ := withGlobals_of_clean hfaultless hclean
  have hready := clean_mapM_keeps (fun d _ t _ u ht hd => d.declare_ready hd.yields ht) hglobals hready
  obtain ⟨_, _, hclean, -, -⟩ := reorders_automata hl hfree hnames hready h.automata hr ho
  exact clean_withAutomata (withAutomata_of_clean hfaultless hclean).1

end Run

/-! ## One interface -/

theorem OrderedMap.LabelledBy.map_eq {κ α β : Type} [DecidableEq κ] {label : α → κ}
    {m n : OrderedMap κ α} (h : m.LabelledBy label) (h' : n.LabelledBy label) {f : α → β}
    (hv : m.values.map (fun v => (label v, f v)) = n.values.map fun v => (label v, f v)) :
    m.map f = n.map f := by
  refine ext ?_
  simp only [map, h.entries_eq, h'.entries_eq, List.map_map]
  exact hv

namespace SymbolTable.Orderly

theorem type?_eq_some_iff (h : t.Orderly) {name : String} {type : DataType} :
    t.interface.type? name = some type ↔ type ∈ t.namedTypes ∧ type.name = name := by
  simp only [interface, Option.filter_eq_some_iff, Bool.not_eq_true', h.mem_namedTypes]
  constructor
  · rintro ⟨htype, harray⟩
    obtain rfl := h.wellFormed.type_name name type htype
    exact ⟨⟨htype, harray⟩, rfl⟩
  · rintro ⟨hmem, rfl⟩
    exact hmem

theorem automatonNamed?_eq_some_iff (h : t.Orderly) {name : String} {a : Automaton} :
    t.automatonNamed? name = some a ↔ a ∈ t.automata ∧ a.name = name := by
  rw [automatonNamed?, Option.bind_eq_some_iff]
  constructor
  · rintro ⟨id, hid, ha⟩
    obtain ⟨b, hb, hname⟩ := (h.wellFormed.automatonId?_iff name id).mp hid
    obtain rfl := Option.some.inj (ha.symm.trans hb)
    exact ⟨List.mem_of_getElem? ha, hname⟩
  · rintro ⟨hmem, hname⟩
    obtain ⟨i, hi⟩ := List.mem_iff_getElem?.mp hmem
    exact ⟨⟨i⟩, (h.wellFormed.automatonId?_iff name ⟨i⟩).mpr ⟨a, hi, hname⟩, hi⟩

end SymbolTable.Orderly

namespace SymbolTable

/-- Tables that register one automaton show one face of it. -/
theorem Orderly.face_eq (h : t.Orderly) (h' : t'.Orderly) {d : AutomatonDecl} {a a' : Automaton}
    (ha : a ∈ t.automata) (ha' : a' ∈ t'.automata) (hd : d.Registers a) (hd' : d.Registers a') :
    a.face = a'.face := by
  obtain ⟨i, hi⟩ := List.mem_iff_getElem?.mp ha
  obtain ⟨i', hi'⟩ := List.mem_iff_getElem?.mp ha'
  have hhome : ∀ {s : SymbolTable} {i : Nat} {b : Automaton}, s.Orderly → s.automata[i]? = some b →
      b.constructorVariables.LabelledBy Variable.name ∧
        b.instanceVariables.LabelledBy Variable.name := by
    intro s i b hs hb
    have hconstructor := hs.housed.labelledBy (.constructorParameter ⟨i⟩)
    have hinstance := hs.housed.labelledBy (.automaton ⟨i⟩)
    simp only [variablesIn, show s.automaton? ⟨i⟩ = some b from hb, Option.map_some,
      Option.getD_some] at hconstructor hinstance
    exact ⟨hconstructor, hinstance⟩
  have hvariables : ∀ (home home' : VariableScope) (ds : List VariableDecl),
      (ds.map (VariableDecl.toVariable home)).map (fun v => (v.name, v.type)) =
        (ds.map (VariableDecl.toVariable home')).map fun v => (v.name, v.type) := by
    intro home home' ds
    rw [List.map_map, List.map_map]
    rfl
  have hstates : a.states = a'.states := by
    refine OrderedMap.ext ?_
    rw [(h.labelled.states ⟨i⟩ a hi).entries_eq, (h'.labelled.states ⟨i'⟩ a' hi').entries_eq, hd.states,
      hd'.states]
  have hconstructor := (hhome h hi).1.map_eq (hhome h' hi').1 (f := Variable.type)
    (by rw [hd.constructorVariables, hd'.constructorVariables]; exact hvariables _ _ _)
  have hinstance := (hhome h hi).2.map_eq (hhome h' hi').2 (f := Variable.type)
    (by rw [hd.instanceVariables, hd'.instanceVariables]; exact hvariables _ _ _)
  rw [Automaton.face, Automaton.face, hd.type, hd'.type, hstates, hconstructor, hinstance]

theorem Registers.automaton?_reorders {l l' : SyntaxTree.Library}
    (h : t.Registers l.types l.annotations l.globals l.automata) (hl : l.Reorders l') (ho : t.Orderly)
    (h' : t'.Registers l'.types l'.annotations l'.globals l'.automata) (ho' : t'.Orderly)
    {name : String} {face : Automaton.Face} (hface : t.interface.automaton? name = some face) :
    t'.interface.automaton? name = some face := by
  obtain ⟨a, hnamed, rfl⟩ := Option.map_eq_some_iff.mp hface
  obtain ⟨ha, rfl⟩ := ho.automatonNamed?_eq_some_iff.mp hnamed
  obtain ⟨d, hd, hregisters⟩ := forall₂_exists_left h.automata ha
  obtain ⟨a', ha', hregisters'⟩ := forall₂_exists_left h'.automata.flip (hl.automata.mem_iff.mp hd)
  refine Option.map_eq_some_iff.mpr ⟨a', ho'.automatonNamed?_eq_some_iff.mpr ⟨ha', ?_⟩, ?_⟩
  · rw [hregisters'.name, hregisters.name]
  · exact (ho.face_eq ho' ha ha' hregisters hregisters').symm

/-- Tables that register the same declarations answer alike to names. -/
theorem Registers.interface_eq {l l' : SyntaxTree.Library}
    (h : t.Registers l.types l.annotations l.globals l.automata) (hl : l.Reorders l') (ho : t.Orderly)
    (h' : t'.Registers l'.types l'.annotations l'.globals l'.automata) (ho' : t'.Orderly) :
    t.interface = t'.interface := by
  refine Interface.ext (funext fun name => ?_) (funext fun name => ?_) (funext fun name => ?_)
    (funext fun name => ?_)
  · refine Option.ext fun type => ?_
    rw [ho.type?_eq_some_iff, ho'.type?_eq_some_iff, h.types, h'.types, (hl.types.map _).mem_iff]
  · refine ho.labelled.annotations.get?_eq ho'.labelled.annotations ?_ name
    rw [h.annotations, h'.annotations]
    exact (hl.annotations.map _).cons _
  · have hlabelled : ∀ {s : SymbolTable}, s.Orderly → s.globals.LabelledBy Variable.name :=
      fun hs => hs.housed.labelledBy .global
    refine congrArg (Option.map Variable.type) ((hlabelled ho).get?_eq (hlabelled ho') ?_ name)
    rw [h.globals, h'.globals]
    exact hl.globals.map _
  · exact Option.ext fun face => ⟨h.automaton?_reorders hl ho h' ho',
      h'.automaton?_reorders hl.symm ho' h ho⟩

end SymbolTable

namespace Run

variable {l l' : SyntaxTree.Library}

/-- What a library answers to names when its automata are declared. -/
def interface (l : SyntaxTree.Library) : Interface := (withAutomata l).2.table.interface

theorem DeclaresCleanly.shows (h : DeclaresCleanly l) :
    (withAutomata l).2.table.Shows (interface l) :=
  ⟨rfl, withAutomata_wellFormed l, h.closed_withAutomata, withAutomata_housed l⟩

/-- The order of the declarations does not matter for the answers. -/
theorem DeclaresCleanly.interface_eq (h : DeclaresCleanly l) (h' : DeclaresCleanly l')
    (hl : l.Reorders l') : interface l = interface l' :=
  h.registers.1.interface_eq hl (withAutomata_orderly l) h'.registers.1 (withAutomata_orderly l')

end Run

end LibraryContract
