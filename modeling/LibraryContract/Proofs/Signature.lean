import LibraryContract.Proofs.Arena
import LibraryContract.Proofs.Growth
import LibraryContract.Proofs.Traversal

/-!
# What a declaration says about its operation

The signature of an operation, read off its declaration: its key, its arguments and the automaton
that it works on. An argument annotated with `target` has the type of the automaton that it names,
every other argument has the type that is written.

* `FunctionDecl.signature_describes`: the signature of a declaration is the one that it describes.
-/

namespace LibraryContract

namespace SyntaxTree

open Build

/-- Whether a parameter stands for the automaton that the operation works on. -/
def Parameter.isTarget (p : Parameter) : Bool :=
  p.annotations.any fun use => decide (use.name.name = LibraryContract.targetName)

/-- The argument of a parameter has this type. -/
def Parameter.HasType (t : SymbolTable) (p : Parameter) (type : String) : Prop :=
  if p.isTarget then ∃ a, t.automatonNamed? p.type.canonicalName = some a ∧ a.type = type
  else p.type.canonicalName = type

/-- The argument is the one that the parameter declares. -/
structure Parameter.Gives (t : SymbolTable) (p : Parameter) (a : Argument) : Prop where
  name : a.name = p.name.name
  type : p.HasType t a.type
  annotations : a.annotations.map LibraryContract.AnnotationUse.name =
    p.annotations.map fun use => use.name.name

/-- The automaton that a parameter names, if it is a target. -/
def Parameter.Targets (t : SymbolTable) (p : Parameter) (target : Option AutomatonId) : Prop :=
  if p.isTarget then
    ∃ id a, target = some id ∧ t.automaton? id = some a ∧ a.name = p.type.canonicalName
  else target = none

/-- The automaton that a declaration wants its operation to work on: the one that the first `target`
parameter names, or else the owner. -/
def FunctionDecl.targetName (d : FunctionDecl) (owner : String) : String :=
  ((d.parameters.find? Parameter.isTarget).map fun p => p.type.canonicalName).getD owner

/-- The signature is the one that the declaration describes. -/
structure FunctionDecl.Describes (t : SymbolTable) (d : FunctionDecl) (s : Signature) : Prop where
  kind : s.kind = d.kind
  name : s.name = d.name.map Identifier.name
  arguments : List.Forall₂ (Parameter.Gives t) d.parameters s.arguments
  target : s.target = d.targetName s.owner
  hasBody : s.hasBody = d.body.isSome

variable {t u : SymbolTable}

theorem Parameter.HasType.mono {p : Parameter} {type : String} (h : p.HasType t type)
    (hu : t.GrowsTo u) : p.HasType u type := by
  unfold HasType at h ⊢
  split
  · rename_i hp
    rw [if_pos hp] at h
    obtain ⟨a, ha, rfl⟩ := h
    obtain ⟨id, hid, ha⟩ := Option.bind_eq_some_iff.mp ha
    obtain ⟨b, hb, hab⟩ := hu.automaton? ha
    exact ⟨b, Option.bind_eq_some_iff.mpr ⟨id, hu.automatonId? hid, hb⟩, hab.type⟩
  · rename_i hp
    rw [if_neg hp] at h
    exact h

theorem Parameter.Gives.mono {p : Parameter} {a : Argument} (h : p.Gives t a) (hu : t.GrowsTo u) :
    p.Gives u a := { h with type := h.type.mono hu }

theorem Parameter.Targets.mono {p : Parameter} {target : Option AutomatonId}
    (h : p.Targets t target) (hu : t.GrowsTo u) : p.Targets u target := by
  unfold Targets at h ⊢
  split
  · rename_i hp
    rw [if_pos hp] at h
    obtain ⟨id, a, htarget, ha, hname⟩ := h
    obtain ⟨b, hb, hab⟩ := hu.automaton? ha
    exact ⟨id, b, htarget, hb, hab.name.trans hname⟩
  · rename_i hp
    rw [if_neg hp] at h
    exact h

/-! ## Annotations -/

theorem AnnotationUse.resolve_yields {scope : Scope} {use : AnnotationUse}
    {r : LibraryContract.AnnotationUse} (h : (use.resolve scope).Yields t r) :
    r.name = use.name.name ∧
      (∃ a, t.annotation? r.name = some a ∧ a.parameters.length = r.arguments.length) ∧
        List.Forall₂ (fun (e : Expr) v => (e.elaborate scope).Yields t v) use.arguments
          r.arguments := by
  rw [AnnotationUse.resolve] at h
  simp only [Check.yields_bind, Check.yields_look] at h
  obtain ⟨found, rfl, h⟩ := h
  split at h
  · simp at h
  · rename_i expected hexpected
    rw [Check.yields_ite] at h
    split at h
    · simp at h
    · rename_i hlength
      simp only [Check.yields_bind, Check.yields_mapM, Check.yields_pure] at h
      obtain ⟨values, hvalues, rfl⟩ := h
      obtain ⟨a, ha, rfl⟩ := Option.map_eq_some_iff.mp hexpected
      refine ⟨rfl, ⟨a, ha, ?_⟩, hvalues⟩
      rw [not_not] at hlength
      exact hlength.trans hvalues.length_eq

theorem resolveAnnotations_yields {scope : Scope} {uses : List AnnotationUse}
    {rs : List LibraryContract.AnnotationUse} (h : (resolveAnnotations scope uses).Yields t rs) :
    List.Forall₂ (fun use r => (use.resolve scope).Yields t r) uses rs := Check.yields_mapM.mp h

theorem resolveAnnotations_names {scope : Scope} {uses : List AnnotationUse}
    {rs : List LibraryContract.AnnotationUse} (h : (resolveAnnotations scope uses).Yields t rs) :
    rs.map LibraryContract.AnnotationUse.name = uses.map fun use => use.name.name := by
  have hall := resolveAnnotations_yields h
  clear h
  induction hall with
  | nil => rfl
  | cons huse _ ih => rw [List.map_cons, List.map_cons, (AnnotationUse.resolve_yields huse).1, ih]

/-- A parameter is a target when one of its annotations says so. -/
theorem Parameter.isTarget_of_names {p : Parameter} {rs : List LibraryContract.AnnotationUse}
    (h : rs.map LibraryContract.AnnotationUse.name = p.annotations.map fun use => use.name.name) :
    (rs.any fun use => decide (use.name = LibraryContract.targetName)) = p.isTarget := by
  have hany := congrArg (List.any · fun n => decide (n = LibraryContract.targetName)) h
  simpa only [List.any_map, Function.comp_def, isTarget] using hany

/-! ## Arguments -/

/-- A resolved parameter gives its argument, and the automaton that it names if it is a target. -/
theorem Parameter.resolve_yields (ht : t.WellFormed) {scope : Scope} {index : Nat} {p : Parameter}
    {a : Argument} {target : Option AutomatonId}
    (h : (p.resolve scope index).Yields t (a, target) u) :
    p.Gives u a ∧ p.Targets u target := by
  rw [Parameter.resolve] at h
  simp only [yields_bind, yields_liftM] at h
  obtain ⟨annotations, v, ⟨hannotations, rfl⟩, h⟩ := h
  have hnames := resolveAnnotations_names hannotations
  rw [isTarget_of_names hnames, yields_ite] at h
  split at h
  · rename_i hp
    simp only [yields_bind, yields_liftM, Check.yields_look, yields_pure] at h
    obtain ⟨id, w, ⟨hid, rfl⟩, type, x, ⟨rfl, rfl⟩, hpair, rfl⟩ := h
    cases hpair
    rw [Parameter.resolveTarget] at hid
    rcases htype : p.type with name | element
    · simp only [htype] at hid
      rw [Identifier.yields_resolveAutomaton] at hid
      obtain ⟨aut, haut, hname⟩ := (ht.automatonId?_iff _ _).mp hid
      have hnamed : t.automatonNamed? p.type.canonicalName = some aut := by
        rw [htype, SymbolTable.automatonNamed?]
        exact Option.bind_eq_some_iff.mpr ⟨id, hid, haut⟩
      refine ⟨⟨rfl, ?_, hnames⟩, ?_⟩
      · rw [HasType, if_pos hp]
        exact ⟨aut, hnamed, by simp [haut]⟩
      · rw [Targets, if_pos hp]
        exact ⟨id, aut, rfl, haut, by rw [hname, htype]; rfl⟩
    · simp only [htype] at hid
      simp at hid
  · rename_i hp
    simp only [yields_bind, yields_pure] at h
    obtain ⟨type, w, htype, hpair, rfl⟩ := h
    cases hpair
    obtain ⟨rfl, -⟩ := TypeExpr.resolve_known htype
    refine ⟨⟨rfl, ?_, hnames⟩, ?_⟩
    · rw [HasType, if_neg hp]
    · rw [Targets, if_neg hp]

theorem Parameter.yields_resolveAll_cons {scope : Scope} {words : String} {seen : List String}
    {index : Nat} {p : Parameter} {rest : List Parameter}
    {arguments : List (Argument × Option AutomatonId)}
    (h : (Parameter.resolveAll scope words seen index (p :: rest)).Yields t arguments u) :
    ∃ a v others, (p.resolve scope index).Yields t a v ∧
      (Parameter.resolveAll scope words (p.name.name :: seen) (index + 1) rest).Yields v others u ∧
        arguments = a :: others := by
  rw [Parameter.resolveAll] at h
  simp only [yields_ite, yields_bind, yields_liftM, Check.yields_fail, yields_pure] at h
  split at h
  · obtain ⟨-, -, ⟨hfalse, -⟩, -⟩ := h
    exact hfalse.elim
  · obtain ⟨a, v, ha, others, w, hothers, rfl, rfl⟩ := h
    exact ⟨a, v, others, ha, hothers, rfl⟩

theorem Parameter.resolveAll_yields (ht : t.WellFormed) {scope : Scope} {words : String}
    {seen : List String} {index : Nat} {ps : List Parameter}
    {arguments : List (Argument × Option AutomatonId)}
    (h : (Parameter.resolveAll scope words seen index ps).Yields t arguments u) :
    List.Forall₂ (fun p a => p.Gives u a.1 ∧ p.Targets u a.2) ps arguments := by
  induction ps generalizing seen index t arguments with
  | nil =>
    obtain ⟨rfl, rfl⟩ := yields_pure.mp h
    exact .nil
  | cons p rest ih =>
    obtain ⟨⟨a, target⟩, v, others, ha, hothers, rfl⟩ := Parameter.yields_resolveAll_cons h
    have hp := (p.resolve_within scope index t)
    have hps := Parameter.resolveAll_within scope words (p.name.name :: seen) (index + 1) rest v
    have hv : v.WellFormed :=
      keeps_of_reflTransGen (ha.reaches hp) (fun _ _ => Interns.wellFormed) ht
    have hgrows : v.GrowsTo u := .of_reflTransGen (hothers.reaches hps) fun _ _ => Interns.growsTo
    obtain ⟨hgives, htarget⟩ := p.resolve_yields ht ha
    exact .cons ⟨hgives.mono hgrows, htarget.mono hgrows⟩ (ih hv hothers)

/-- The first target among the arguments is the one that the first target parameter names. -/
theorem Parameter.first_target {ps : List Parameter} {arguments : List (Argument × Option AutomatonId)}
    (h : List.Forall₂ (fun p a => p.Gives t a.1 ∧ p.Targets t a.2) ps arguments) :
    ((arguments.findSome? Prod.snd).bind t.automaton?).map Automaton.name =
      (ps.find? Parameter.isTarget).map fun p => p.type.canonicalName := by
  induction h with
  | nil => rfl
  | @cons p a ps arguments hpa _ ih =>
    obtain ⟨-, htarget⟩ := hpa
    rw [Targets] at htarget
    split at htarget
    · rename_i hp
      obtain ⟨id, b, hid, hb, hname⟩ := htarget
      simp [hid, hb, hp, hname]
    · rename_i hp
      simp [htarget, hp, ih]

/-- The signature of a declaration is the one that it describes. -/
theorem FunctionDecl.signature_describes (ht : t.WellFormed) {d : FunctionDecl}
    {owner : AutomatonId} {s : Signature} (h : (d.signature owner).Yields t s u) :
    d.Describes u s ∧ s.owner = ((t.automaton? owner).map Automaton.name).getD "" := by
  obtain ⟨annotations, arguments, v, returnType, _, -, harguments, -, hinterns, rfl, rfl⟩ :=
    FunctionDecl.signature_yields h
  have hv := Parameter.resolveAll_yields ht harguments
  have hgrows : v.GrowsTo u := .of_reflTransGen hinterns fun _ _ => Interns.growsTo
  have hw : List.Forall₂ (fun p a => Parameter.Gives u p a.1 ∧ Parameter.Targets u p a.2)
      d.parameters arguments :=
    hv.imp fun p a hpa => ⟨hpa.1.mono hgrows, hpa.2.mono hgrows⟩
  refine ⟨⟨rfl, rfl, ?_, ?_, rfl⟩, rfl⟩
  · exact List.forall₂_map_right_iff.mpr (hw.imp fun p a hpa => hpa.1)
  · simp only [Parameter.first_target hw, FunctionDecl.targetName]

end SyntaxTree

end LibraryContract
