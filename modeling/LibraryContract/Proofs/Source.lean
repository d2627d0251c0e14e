import LibraryContract.Proofs.Origin

/-!
# A library and its expressions

Every value of an analysed library stands where an expression of the tree stands.
`SymbolTable.Sourced` says so for all of them at once: the values that variables start from, the
arguments of annotations, the contracts and the statements. It is stated for any relation `R` between
the place, the expression and the value, so that what is known of one value (`SymbolTable.Origin`)
becomes known of a whole library.

* `SymbolTable.Annotated.register`: an accepted declaration adds its annotations;
* `analyze_sourced`: every value of an analysed library has its origin.
-/

namespace LibraryContract

open SyntaxTree Build

variable {t u : SymbolTable} {R R' : Place → Expr → Value → Prop}

/-! ## Annotations -/

/-- The annotation is the used one, and its arguments are those at the use. -/
structure SyntaxTree.AnnotationUse.Sourced (S : Expr → Value → Prop)
    (use : SyntaxTree.AnnotationUse) (r : LibraryContract.AnnotationUse) : Prop where
  name : r.name = use.name.name
  arguments : List.Forall₂ S use.arguments r.arguments

/-- The argument of an operation has the annotations of its parameter. -/
structure SyntaxTree.Parameter.Sourced (S : Expr → Value → Prop) (p : Parameter) (a : Argument) :
    Prop where
  name : a.name = p.name.name
  annotations : List.Forall₂ (AnnotationUse.Sourced S) p.annotations a.annotations

/-- The operation has the annotations of all its declarations, and the arguments of the last one. -/
structure Signature.Annotated (R : Place → Expr → Value → Prop) (owner : AutomatonId)
    (items : List Placed) (s : Signature) : Prop where
  annotations : List.Forall₂ (AnnotationUse.Sourced (R (.automaton owner)))
    (items.flatMap fun item => item.1.annotations) s.annotations
  arguments : ∃ last, items.getLast? = some last ∧
    List.Forall₂ (Parameter.Sourced (R (.automaton owner))) last.1.parameters s.arguments

/-- Each value of the operation stands where its declarations have an expression: the annotations of
all of them stay, the rest is that of the last one. -/
structure Operation.Sourced (R : Place → Expr → Value → Prop) (owner : AutomatonId)
    (items : List Placed) (last : FunctionDecl) (o : Operation) : Prop where
  annotations : List.Forall₂ (AnnotationUse.Sourced (R (.automaton owner)))
    (items.flatMap fun item => item.1.annotations) o.annotations
  arguments : List.Forall₂ (Parameter.Sourced (R (.automaton owner))) last.parameters o.arguments
  contracts : ∀ c ∈ o.contracts, ∃ d ∈ last.contracts, d.Mirrors c ∧
    R (.contract o.id c.kind) d.expression c.expression
  statements : ∀ n s, o.statements[n]? = some s → ∃ d ∈ last.body.getD [], d.Mirrors o.id s ∧
    List.Forall₂ (R (.statement o.id n)) d.expressions s.values
  /-- A variable of the body that starts from a value is declared by a statement. -/
  locals : ∀ v ∈ o.locals.values, v.initial.isSome = true → .declaration v ∈ o.statements

/-- Each value in the table stands where the library has an expression. -/
structure SymbolTable.Sourced (R : Place → Expr → Value → Prop) (library : SyntaxTree.Library)
    (entries : List LedgerEntry) (t : SymbolTable) : Prop where
  initials : ∀ home, home.OutsideOperations → ∀ v ∈ (t.variablesIn home).values, ∀ x ∈ v.initial,
    ∃ d e, library.Introduces t home d ∧ d.Mirrors home v ∧ d.initializer = some e ∧
      R home.place e x
  operations : ∀ o ∈ t.operations, ∃ owner last, t.automatonId? o.owner = some owner ∧
    (declarationsOf entries o.id).getLast? = some last ∧
      o.Sourced R owner (declarationsOf entries o.id) last.1

/-- The annotations of all operations come from their declarations in the ledger. -/
def SymbolTable.Annotated (R : Place → Expr → Value → Prop) (entries : List LedgerEntry)
    (t : SymbolTable) : Prop :=
  ∀ id o, t.operation? id = some o → ∃ owner, t.automatonId? o.owner = some owner ∧
    o.toSignature.Annotated R owner (declarationsOf entries id)

namespace SyntaxTree

variable {S S' : Expr → Value → Prop}

theorem AnnotationUse.Sourced.imp {use : AnnotationUse} {r : LibraryContract.AnnotationUse}
    (h : use.Sourced S r) (hS : ∀ e v, S e v → S' e v) : use.Sourced S' r :=
  ⟨h.name, h.arguments.imp fun _ _ => hS _ _⟩

theorem Parameter.Sourced.imp {p : Parameter} {a : Argument} (h : p.Sourced S a)
    (hS : ∀ e v, S e v → S' e v) : p.Sourced S' a :=
  ⟨h.name, h.annotations.imp fun _ _ huse => huse.imp hS⟩

end SyntaxTree

theorem Signature.Annotated.imp {owner : AutomatonId} {items : List Placed} {s : Signature}
    (h : s.Annotated R owner items)
    (hR : ∀ e v, R (.automaton owner) e v → R' (.automaton owner) e v) :
    s.Annotated R' owner items where
  annotations := h.annotations.imp fun _ _ huse => huse.imp hR
  arguments := by
    obtain ⟨last, hlast, harguments⟩ := h.arguments
    exact ⟨last, hlast, harguments.imp fun _ _ hp => hp.imp hR⟩

theorem Operation.Sourced.imp {owner : AutomatonId} {items : List Placed} {last : FunctionDecl}
    {o : Operation} (h : o.Sourced R owner items last)
    (hR : ∀ place e v, R place e v → R' place e v) : o.Sourced R' owner items last where
  annotations := h.annotations.imp fun _ _ huse => huse.imp (hR _)
  arguments := h.arguments.imp fun _ _ hp => hp.imp (hR _)
  contracts c hc := by
    obtain ⟨d, hd, hmirrors, hexpression⟩ := h.contracts c hc
    exact ⟨d, hd, hmirrors, hR _ _ _ hexpression⟩
  statements n s hs := by
    obtain ⟨d, hd, hmirrors, hvalues⟩ := h.statements n s hs
    exact ⟨d, hd, hmirrors, hvalues.imp fun _ _ => hR _ _ _⟩
  locals := h.locals

theorem SymbolTable.Sourced.imp {library : SyntaxTree.Library} {entries : List LedgerEntry}
    (h : t.Sourced R library entries) (hR : ∀ place e v, R place e v → R' place e v) :
    t.Sourced R' library entries where
  initials home hh v hv x hx := by
    obtain ⟨d, e, hd, hmirrors, he, hvalue⟩ := h.initials home hh v hv x hx
    exact ⟨d, e, hd, hmirrors, he, hR _ _ _ hvalue⟩
  operations o ho := by
    obtain ⟨owner, last, howner, hlast, hsourced⟩ := h.operations o ho
    exact ⟨owner, last, howner, hlast, hsourced.imp hR⟩

/-- What can be named in an automaton outside of its operations does not change. -/
theorem SymbolTable.Origin.settles {owner : AutomatonId} {e : Expr} {v : Value}
    (h : t.Origin (.automaton owner) e v) (hu : t.Settles u) : u.Origin (.automaton owner) e v :=
  h.mono hu trivial (hu.visible_automaton owner)

namespace SyntaxTree

/-- Annotations are looked at in the automaton that owns the operation. -/
theorem resolveAnnotations_origin (hw : t.WellFormed) (ht : t.Housed) {owner : AutomatonId}
    {uses : List AnnotationUse} {rs : List LibraryContract.AnnotationUse}
    (h : (resolveAnnotations (.inAutomaton owner) uses).Yields t rs) (hu : t.Settles u) :
    List.Forall₂ (AnnotationUse.Sourced (u.Origin (.automaton owner))) uses rs := by
  refine (resolveAnnotations_yields h).imp fun use r huse => ?_
  obtain ⟨hname, -, harguments⟩ := AnnotationUse.resolve_yields huse
  have hcurrent : t.Current (.automaton owner) := trivial
  have horigin : ∀ (e : Expr) (v : Value), (e.elaborate (.inAutomaton owner)).Yields t v →
      t.Origin (.automaton owner) e v :=
    fun e v hv => ⟨t, hcurrent.precedes hw ht, hv⟩
  exact ⟨hname, harguments.imp fun e v hv => (horigin e v hv).settles hu⟩

theorem Parameter.resolve_origin (hw : t.WellFormed) (ht : t.Housed) {owner : AutomatonId}
    {index : Nat} {p : Parameter} {a : Argument × Option AutomatonId} {v : SymbolTable}
    (h : (p.resolve (.inAutomaton owner) index).Yields t a v) (hu : t.Settles u) :
    p.Sourced (u.Origin (.automaton owner)) a.1 := by
  rw [Parameter.resolve] at h
  simp only [yields_bind, yields_liftM] at h
  obtain ⟨annotations, _, ⟨hannotations, rfl⟩, h⟩ := h
  have hall := resolveAnnotations_origin hw ht hannotations hu
  rw [yields_ite] at h
  split at h
  · simp only [yields_bind, yields_liftM, yields_pure] at h
    obtain ⟨_, _, -, _, _, -, rfl, -⟩ := h
    exact ⟨rfl, hall⟩
  · simp only [yields_bind, yields_pure] at h
    obtain ⟨_, _, -, rfl, -⟩ := h
    exact ⟨rfl, hall⟩

theorem Parameter.resolveAll_origin (hw : t.WellFormed) (ht : t.Housed) {owner : AutomatonId}
    {words : String} {seen : List String} {index : Nat} {ps : List Parameter}
    {arguments : List (Argument × Option AutomatonId)} {v : SymbolTable}
    (h : (Parameter.resolveAll (.inAutomaton owner) words seen index ps).Yields t arguments v)
    (hu : v.Settles u) :
    List.Forall₂ (Parameter.Sourced (u.Origin (.automaton owner))) ps (arguments.map Prod.fst) := by
  induction ps generalizing seen index t arguments with
  | nil =>
    obtain ⟨rfl, -⟩ := yields_pure.mp h
    exact .nil
  | cons p rest ih =>
    obtain ⟨a, w, others, ha, hothers, rfl⟩ := Parameter.yields_resolveAll_cons h
    have hfirst : Relation.ReflTransGen Interns t w := ha.reaches (p.resolve_within _ index t)
    have hrest : Relation.ReflTransGen Interns w v :=
      hothers.reaches (Parameter.resolveAll_within _ words (p.name.name :: seen) (index + 1) rest w)
    have hsettles : t.Settles v :=
      .of_reflTransGen (hfirst.trans hrest) fun _ _ => Interns.settles
    have hnames := elaborates_of_interns hfirst
    have hw' : w.WellFormed := keeps_of_reflTransGen hnames (fun _ _ => Elaborates.wellFormed) hw
    have ht' : w.Housed := keeps_of_reflTransGen hnames (fun _ _ => Elaborates.housed) ht
    exact .cons (p.resolve_origin hw ht ha (hsettles.trans hu)) (ih hw' ht' hothers)

theorem FunctionDecl.signature_origin (hw : t.WellFormed) (ht : t.Housed) {owner : AutomatonId}
    {d : FunctionDecl} {s : Signature} {v : SymbolTable} (h : (d.signature owner).Yields t s v)
    (hu : v.Settles u) :
    List.Forall₂ (AnnotationUse.Sourced (u.Origin (.automaton owner))) d.annotations s.annotations ∧
      List.Forall₂ (Parameter.Sourced (u.Origin (.automaton owner))) d.parameters s.arguments := by
  have hsettles : t.Settles v :=
    .of_reflTransGen (h.reaches (d.signature_within owner t)) fun _ _ => Interns.settles
  obtain ⟨_, _, w, _, _, hannotations, harguments, -, hinterns, -, rfl⟩ :=
    FunctionDecl.signature_yields h
  have hmore : w.Settles v := .of_reflTransGen hinterns fun _ _ => Interns.settles
  exact ⟨resolveAnnotations_origin hw ht hannotations (hsettles.trans hu),
    Parameter.resolveAll_origin hw ht harguments (hmore.trans hu)⟩

end SyntaxTree

/-! ## The ledger -/

/-- The automaton that owns a declared operation is registered. -/
theorem Placed.owner_known (ht : t.WellFormed) {options : Options} {item : Placed}
    (hitem : ∀ id, item.2 = some id → ∃ a, t.automaton? id = some a) {owner : AutomatonId}
    (howner : (item.1.resolveOwner options item.2).Yields t owner) :
    ∃ a, t.automaton? owner = some a := by
  rcases FunctionDecl.resolveOwner_yields howner with hid | ⟨-, qualifier, -, hid⟩
  · exact hitem owner hid
  · obtain ⟨a, ha, -⟩ := (ht.automatonId?_iff _ _).mp hid
    exact ⟨a, ha⟩

/-- A definition adds its annotations to those of the declaration that it completes. -/
theorem Signature.Annotated.complete {owner : AutomatonId} {items : List Placed} {o : Operation}
    (h : o.toSignature.Annotated R owner items) {item : Placed} {s : Signature}
    (hannotations : List.Forall₂ (AnnotationUse.Sourced (R (.automaton owner))) item.1.annotations
      s.annotations)
    (harguments : List.Forall₂ (Parameter.Sourced (R (.automaton owner))) item.1.parameters
      s.arguments) :
    (o.complete s).toSignature.Annotated R owner (items ++ [item]) where
  annotations := by
    rw [List.flatMap_append, List.flatMap_singleton]
    exact List.rel_append h.annotations hannotations
  arguments := ⟨item, List.getLast?_concat, harguments⟩

theorem SymbolTable.Annotated.settles {entries : List LedgerEntry} (h : t.Annotated t.Origin entries)
    (hops : ∀ id o, u.operation? id = some o →
      ∃ p, t.operation? id = some p ∧ o.toSignature = p.toSignature)
    (hu : t.Settles u) : u.Annotated u.Origin entries := by
  intro id o ho
  obtain ⟨p, hp, hsignature⟩ := hops id o ho
  obtain ⟨owner, howner, hannotated⟩ := h id p hp
  rw [hsignature]
  exact ⟨owner, hu.grows.automatonId? howner, hannotated.imp fun _ _ hv => hv.settles hu⟩

theorem SymbolTable.Annotated.interns {entries : List LedgerEntry} (h : t.Annotated t.Origin entries)
    (hu : Relation.ReflTransGen Interns t u) : u.Annotated u.Origin entries := by
  refine h.settles (fun id o ho => ⟨o, ?_, rfl⟩) (.of_reflTransGen hu fun _ _ => Interns.settles)
  obtain ⟨types, rfl⟩ := Interns.types_only hu
  exact ho

/-- An accepted declaration is entered with its annotations. -/
theorem SymbolTable.Annotated.register {entries : List LedgerEntry} (he : t.Explained entries)
    (ht : t.Housed) (h : t.Annotated t.Origin entries) {options : Options} {item : Placed}
    (hitem : ∀ id, item.2 = some id → ∃ a, t.automaton? id = some a) {r : Registration}
    (hr : (item.1.register options item.2).Yields t r u) :
    u.Annotated u.Origin (entries ++ [(r, item)]) := by
  obtain ⟨owner, s, v, w, howner, hs, hw, rfl⟩ := FunctionDecl.register_yields hr
  have hinterns := hs.reaches (item.1.signature_within owner t)
  have hv : v.Explained entries := he.interns hinterns
  have htv : t.Settles v := .of_reflTransGen hinterns fun _ _ => Interns.settles
  have hu : v.Settles (w.withResult r.id item.1.span) := (Signs.operation hs hw).settles
  have hold : v.Annotated v.Origin entries := h.interns hinterns
  have hknown : (w.withResult r.id item.1.span).automatonId? s.owner = some owner := by
    obtain ⟨a, ha⟩ := Placed.owner_known he.wellFormed hitem howner
    obtain ⟨-, hname⟩ := FunctionDecl.signature_describes he.wellFormed hs
    rw [ha, Option.map_some, Option.getD_some] at hname
    have hid : t.automatonId? s.owner = some owner :=
      (he.wellFormed.automatonId?_iff _ _).mpr ⟨a, ha, hname.symm⟩
    exact hu.grows.automatonId? (htv.grows.automatonId? hid)
  obtain ⟨hannotations, harguments⟩ := FunctionDecl.signature_origin he.wellFormed ht hs hu
  intro id p hp
  rw [declarationsOf_concat]
  cases hv.wellFormed.registerOperation_operation? hw hp with
  | other hid ho =>
    obtain ⟨owner', howner', hannotated⟩ := hold id p ho
    rw [if_neg (Ne.symm hid)]
    exact ⟨owner', hu.grows.automatonId? howner', hannotated.imp fun _ _ hx => hx.settles hu⟩
  | new hnew hlast =>
    have hnone := hv.declarationsOf_eq_nil hlast
    rw [if_pos (by rw [hnew]; rfl), hnone, Operation.toSignature_withResult]
    refine ⟨owner, hknown, ?_, item, rfl, harguments⟩
    rw [List.nil_append, List.flatMap_singleton]
    exact hannotations
  | @completed o hcompleted ho hbody hbrings hreturn hkind hname hsame htypes =>
    obtain ⟨owner', howner', hannotated⟩ := hold id o ho
    -- the definition is owned by the same automaton as the declaration
    have hknown' := hu.grows.automatonId? howner'
    rw [hsame, hknown] at hknown'
    cases hknown'
    rw [if_pos (by rw [hcompleted]; rfl), Operation.toSignature_withResult]
    refine ⟨owner, ?_, ?_⟩
    · rw [← hsame] at hknown
      exact hknown
    · exact (hannotated.imp fun _ _ hx => hx.settles hu).complete hannotations harguments

namespace Run

theorem withSignatures_annotated (options : Options) (library : SyntaxTree.Library) :
    (withSignatures options library).2.table.Annotated (withSignatures options library).2.table.Origin
      (ledger options library) := by
  have hledger : (withSignatures options library).2.table.Explained (ledger options library) ∧
      (withSignatures options library).2.table.Housed ∧
      (withSignatures options library).2.table.Annotated
        (withSignatures options library).2.table.Origin (ledger options library) := by
    apply ledger_invariant (I := fun entries t => t.Explained entries ∧ t.Housed ∧
      t.Annotated t.Origin entries)
    · rintro entries t item r u ⟨he, ht, h⟩ hitem hr
      have hsigns := hr.reaches (item.1.register_within options item.2 t)
      exact ⟨he.register hitem hr, keeps_of_reflTransGen hsigns (fun _ _ => Signs.housed) ht,
        h.register he ht hitem hr⟩
    · rintro entries t u ⟨he, ht, h⟩ hu
      have hnames := elaborates_of_interns hu
      exact ⟨he.interns hu, keeps_of_reflTransGen hnames (fun _ _ => Elaborates.housed) ht,
        h.interns hu⟩
    · refine ⟨withAutomata_explained library, withAutomata_housed library, fun id o ho => ?_⟩
      rw [SymbolTable.operation?, withAutomata_operations library] at ho
      cases ho
  exact hledger.2.2

/-- Every annotation of an operation comes from its declarations. -/
theorem analyze_annotated (options : Options) (library : SyntaxTree.Library) :
    (analyze options library).table.Annotated (analyze options library).table.Origin
      (ledger options library) := by
  have helaborates := analyze_elaborates options library
  have hsettles : (withSignatures options library).2.table.Settles (analyze options library).table :=
    .of_reflTransGen helaborates fun _ _ => Elaborates.settles
  refine (withSignatures_annotated options library).settles (fun id o ho => ?_) hsettles
  obtain ⟨p, hp, -, hsignature⟩ := signature_of_elaborates helaborates ho
  exact ⟨p, hp, hsignature⟩

/-! ## Libraries -/

/-- The declaration behind a pending operation is the last one of its number. -/
theorem pending_last {options : Options} {library : SyntaxTree.Library} {p : PendingOperation}
    (hp : p ∈ (withSignatures options library).1) :
    ∃ last, (declarationsOf (ledger options library) p.id).getLast? = some last ∧
      p.declaration = last.1 := by
  rw [withSignatures_recorded] at hp
  exact (mem_recordOperations (withSignatures_explained options library).sequential).mp hp

/-- A value that was left for later belongs to the declaration of its variable. -/
theorem valuesLeft_mirrors {options : Options} {library : SyntaxTree.Library}
    {p : PendingInitializer} (hp : p ∈ valuesLeft library) {v : Variable}
    (hv : ((analyze options library).table.variablesIn p.scope).get? p.name = some v)
    (hinitial : v.initial.isSome = true) :
    ∃ d, library.Introduces (analyze options library).table p.scope d ∧ d.Mirrors p.scope v ∧
      d.initializer = some p.value := by
  have hgrows : (withAutomata library).2.table.GrowsTo (analyze options library).table := by
    refine .trans ?_ (analyze_growsTo options library)
    exact .of_reflTransGen (registerSignatures_signs options _ _ _) fun _ _ => Signs.growsTo
  obtain ⟨-, d, hd, hpending, w, hw, hgrown⟩ := (valuesLeft_belongs library p hp).mono hgrows
  obtain ⟨e, hinitializer, heq⟩ := Option.map_eq_some_iff.mp hpending
  have hname : d.name.name = p.name := congrArg PendingInitializer.name heq
  have hvalue : e = p.value := congrArg PendingInitializer.value heq
  rw [hname, hv] at hw
  cases hw
  rw [hvalue] at hinitializer
  refine ⟨d, hd, ⟨hgrown.name, hgrown.type, hgrown.scope, hgrown.span, ?_⟩, hinitializer⟩
  rw [hinitial, hinitializer]
  rfl

/-- Every value of an analysed library comes from the expression at its place. -/
theorem analyze_sourced (options : Options) (library : SyntaxTree.Library) :
    (analyze options library).table.Sourced (analyze options library).table.Origin library
      (ledger options library) := by
  have htraced := analyze_traced options library
  refine ⟨fun home hh v hv x hx => ?_, fun o ho => ?_⟩
  · obtain ⟨name, hname⟩ := OrderedMap.mem_values.mp hv
    obtain ⟨p, hp, rfl, rfl, horigin⟩ := htraced.initials home hh name v hname x hx
    obtain ⟨d, hd, hmirrors, hinitializer⟩ := valuesLeft_mirrors hp hname (by rw [hx]; rfl)
    exact ⟨d, p.value, hd, hmirrors, hinitializer, horigin⟩
  · have hself := (analyze_wellFormed options library).operation?_id ho
    obtain ⟨owner, howner, hannotated⟩ := analyze_annotated options library o.id o hself
    obtain ⟨last, hlast, harguments⟩ := hannotated.arguments
    obtain ⟨hcontracts, hstatements, hlaid⟩ := htraced.bodies o.id o hself
    -- whichever pending operation a value comes from has the last declaration
    have hdeclaration : ∀ p ∈ (withSignatures options library).1, p.id = o.id →
        p.declaration = last.1 := by
      intro p hp hpid
      obtain ⟨last', hlast', heq⟩ := pending_last hp
      rw [hpid, hlast] at hlast'
      cases hlast'
      exact heq
    refine ⟨owner, last, howner, hlast, hannotated.annotations, harguments, fun c hc => ?_,
      fun n s hs => ?_, fun v hv hinitial => hlaid.declared hv hinitial⟩
    · obtain ⟨p, hp, hpid, d, hd, hmirrors, horigin⟩ := hcontracts c hc
      rw [hdeclaration p hp hpid] at hd
      exact ⟨d, hd, hmirrors, horigin⟩
    · obtain ⟨p, hp, hpid, d, hd, hmirrors, hvalues⟩ := hstatements n s hs
      rw [hdeclaration p hp hpid] at hd
      exact ⟨d, hd, hmirrors, hvalues⟩

end Run

end LibraryContract
