import LibraryContract.Proofs.Closure
import LibraryContract.Proofs.ConstructorCall
import LibraryContract.Proofs.Member
import LibraryContract.Proofs.Signature

/-!
# No dangling references

What a closed table resolves is closed: a variable that is found has a known type, a field or an
element of a known type has a known type, and so every location, value, statement and signature that
is resolved mentions only what is there. The phases of an analysis that finds no error therefore keep
the table closed from one to the next.

* `compile_closed`: the table of a library that compiles is closed, and its numbers, names and lists
  agree with each other.
-/

namespace LibraryContract

open SyntaxTree Build

variable {t u : SymbolTable}

/-! ## Members -/

/-- What is behind the aliases of a name is registered. -/
theorem SymbolTable.Denotes.registered {name : String} {type : DataType}
    (h : t.Denotes name type) : ∃ n, t.type? n = some type := by
  induction h with
  | named h => exact ⟨_, h⟩
  | aliased _ _ ih => exact ih

theorem SymbolTable.Denotes.knows {name : String} {type : DataType} (h : t.Denotes name type) :
    t.Knows name := by
  cases h with
  | named h => exact ⟨_, h⟩
  | aliased h => exact ⟨_, h⟩

theorem SymbolTable.HasField.knows (ht : t.Closed) (hw : t.WellFormed)
    {current field type : String} (h : t.HasField current field type) : t.Knows type := by
  obtain ⟨base, hbase, hfield⟩ := h
  obtain ⟨n, hn⟩ := hbase.registered
  cases hfield with
  | structured h => exact (ht.types n _ hn).mentions _ (OrderedMap.mem_values.mpr ⟨_, h⟩)
  | enum =>
    obtain rfl : type = n := hw.type_name n _ hn
    exact ⟨_, hn⟩
  | enumLike =>
    exact (ht.types n _ hn).mentions _ (List.mem_cons_of_mem _ List.mem_cons_self)
  | real | array => exact hbase.knows

theorem SymbolTable.HasElement.knows (ht : t.Closed) {current type : String}
    (h : t.HasElement current type) : t.Knows type := by
  obtain ⟨base, hbase, helement⟩ := h
  obtain ⟨n, hn⟩ := hbase.registered
  cases helement with
  | array => exact (ht.types n _ hn).mentions _ List.mem_cons_self
  | real => exact hbase.knows

theorem fieldType_known (ht : t.Closed) (hw : t.WellFormed) {current result : String}
    {field : Identifier} (h : (fieldType current field).Yields t result) : t.Knows result :=
  (fieldType_yields h).knows ht hw

theorem elementType_known (ht : t.Closed) {current result : String} {span : Span}
    (h : (elementType current span).Yields t result) : t.Knows result :=
  (elementType_yields h).knows ht

/-! ## Values -/

theorem SymbolTable.Closed.variableNamed? (ht : t.Closed) {id : AutomatonId} {a : Automaton}
    (ha : t.automaton? id = some a) {name : String} {v : Variable}
    (hv : a.variableNamed? name = some v) : v.Closed t := by
  rcases Option.or_eq_some_iff.mp hv with hv | ⟨-, hv⟩
  · exact (ht.automata id a ha).instanceVariables name v hv
  · exact (ht.automata id a ha).constructorVariables name v hv

/-- What a name stands for has a known type and an owner that exists. -/
theorem SymbolTable.Closed.lookup? (ht : t.Closed) {scope : Scope} {name type : String}
    {home : VariableScope} (h : scope.lookup? t name = some (home, type)) :
    home.Closed t ∧ t.Knows type := by
  rw [Scope.lookup?, Option.or_eq_some_iff] at h
  rcases h with hinside | ⟨-, houtside⟩
  · obtain ⟨id, -, hid⟩ := Option.bind_eq_some_iff.mp hinside
    obtain ⟨o, ho, hfound⟩ := Option.bind_eq_some_iff.mp hid
    have hclosed := ht.operations id o ho
    rcases Option.or_eq_some_iff.mp hfound with harg | ⟨-, hlocal⟩
    · obtain ⟨a, ha, heq⟩ := Option.map_eq_some_iff.mp harg
      cases heq
      exact ⟨⟨o, ho⟩, (hclosed.signature.arguments a (List.mem_of_find?_eq_some ha)).type⟩
    · obtain ⟨v, hv, heq⟩ := Option.map_eq_some_iff.mp hlocal
      cases heq
      exact ⟨(hclosed.locals name v hv).scope, (hclosed.locals name v hv).type⟩
  · obtain ⟨v, hv, heq⟩ := Option.map_eq_some_iff.mp houtside
    cases heq
    have hclosed : v.Closed t := by
      rcases Option.or_eq_some_iff.mp hv with hv | ⟨-, hv⟩
      · obtain ⟨id, -, hid⟩ := List.exists_of_findSome?_eq_some hv
        obtain ⟨a, ha, hva⟩ := Option.bind_eq_some_iff.mp hid
        exact ht.variableNamed? ha hva
      · exact ht.globals name v hv
    exact ⟨hclosed.scope, hclosed.type⟩

namespace SyntaxTree

variable {scope : Scope}

theorem resolveRest_closed (ht : t.Closed) (hw : t.WellFormed) {segments : List Segment}
    {current : String} {links : List Link}
    (h : (resolveRest scope current segments).Yields t links) : ∀ link ∈ links, link.Closed t := by
  induction segments generalizing current links with
  | nil =>
    obtain rfl := Check.yields_pure.mp h
    exact List.forall_mem_nil _
  | cons segment rest ih =>
    rcases segment with name | index | ⟨automaton, argument⟩
    · obtain ⟨type, htype, links, hlinks, rfl⟩ := yields_resolveRest_name.mp h
      exact List.forall_mem_cons.mpr ⟨⟨fieldType_known ht hw htype, by simp⟩, ih hlinks⟩
    · obtain ⟨type, htype, value, -, links, hlinks, rfl⟩ := yields_resolveRest_index.mp h
      exact List.forall_mem_cons.mpr ⟨elementType_known ht htype, ih hlinks⟩
    · cases h

theorem Chain.resolve_closed (ht : t.Closed) (hw : t.WellFormed) {c : Chain} {a : Access}
    (h : (c.resolve scope).Yields t a) : a.Closed t := by
  have hgetter : ∀ {automaton argument : Identifier} {id : AutomatonId} {type : String},
      (resolveGetter automaton argument scope).Yields t (id, type) →
        (Link.getter id argument.name type).Closed t := by
    intro automaton argument id type hget
    obtain ⟨hid, -, rfl⟩ := yields_resolveGetter.mp hget
    obtain ⟨b, hb, -⟩ := (hw.automatonId?_iff _ _).mp hid
    refine ⟨⟨b, hb⟩, ?_⟩
    rw [hb]
    exact (ht.automata id b hb).type
  obtain ⟨segments, span⟩ := c
  cases Chain.resolves_of_resolve h with
  | named hname hrest =>
    obtain ⟨hlookup, -⟩ := Identifier.yields_resolveVariable.mp hname
    obtain ⟨hhome, htype⟩ := ht.lookup? hlookup
    refine List.forall_mem_cons.mpr ⟨⟨htype, fun s hs => ?_⟩, resolveRest_closed ht hw hrest⟩
    cases hs
    exact hhome
  | getter hget _ hrest =>
    exact List.forall_mem_cons.mpr ⟨hgetter hget, resolveRest_closed ht hw hrest⟩
  | automatonVariable hget hname hrest =>
    obtain ⟨b, v, hb, hv, rfl, rfl⟩ := Identifier.yields_resolveAutomatonVariable.mp hname
    have hclosed := ht.variableNamed? hb hv
    refine List.forall_mem_cons.mpr ⟨hgetter hget, List.forall_mem_cons.mpr ⟨?_, ?_⟩⟩
    · refine ⟨hclosed.type, fun s hs => ?_⟩
      cases hs
      exact hclosed.scope
    · exact resolveRest_closed ht hw hrest

theorem Expr.elaborate_closed (ht : t.Closed) (hw : t.WellFormed) {e : Expr} {v : Value}
    (h : (e.elaborate scope).Yields t v) : v.Closed t := by
  intro a ha
  obtain ⟨c, hc⟩ := Expr.accesses_elaborate h a ha
  exact Chain.resolve_closed ht hw hc

theorem Expr.mapM_elaborate_closed (ht : t.Closed) (hw : t.WellFormed) {es : List Expr}
    {values : List Value}
    (h : List.Forall₂ (fun (e : Expr) v => (e.elaborate scope).Yields t v) es values) :
    ∀ v ∈ values, v.Closed t := by
  induction h with
  | nil => exact List.forall_mem_nil _
  | cons hv _ ih => exact List.forall_mem_cons.mpr ⟨Expr.elaborate_closed ht hw hv, ih⟩

theorem AnnotationUse.resolve_closed (ht : t.Closed) (hw : t.WellFormed) {use : AnnotationUse}
    {r : LibraryContract.AnnotationUse} (h : (use.resolve scope).Yields t r) : r.Closed t := by
  obtain ⟨-, hregistered, harguments⟩ := AnnotationUse.resolve_yields h
  exact ⟨hregistered, Expr.mapM_elaborate_closed ht hw harguments⟩

theorem resolveAnnotations_closed (ht : t.Closed) (hw : t.WellFormed) {uses : List AnnotationUse}
    {rs : List LibraryContract.AnnotationUse} (h : (resolveAnnotations scope uses).Yields t rs) :
    ∀ r ∈ rs, r.Closed t := by
  have hall := resolveAnnotations_yields h
  clear h
  induction hall with
  | nil => exact List.forall_mem_nil _
  | cons hr _ ih => exact List.forall_mem_cons.mpr ⟨AnnotationUse.resolve_closed ht hw hr, ih⟩

/-! ## Statements -/

theorem ConstructorCall.resolve_closed (ht : t.Closed) (hw : t.WellFormed) {call : ConstructorCall}
    {c : LibraryContract.ConstructorCall} (h : (call.resolve scope).Yields t c) : c.Closed t := by
  obtain ⟨-, ⟨value, -, hvalue⟩, hbinds, hdistinct⟩ := ConstructorCall.yields_resolve.mp h
  obtain ⟨name, -, hname⟩ := ConstructorCall.yields_resolveState.mp hvalue
  obtain ⟨-, a, ha, hstate⟩ := Identifier.yields_resolveState.mp hname
  refine ⟨⟨a, ha, hstate, fun x hx => ?_⟩, hdistinct, fun x hx => ?_⟩
  · obtain ⟨argument, -, hx⟩ := forall₂_exists_left hbinds hx
    rw [hx.name]
    exact (ConstructorCall.yields_takes ha).mp hx.takes
  · obtain ⟨argument, -, hx⟩ := forall₂_exists_left hbinds hx
    exact Expr.elaborate_closed ht hw hx.value

theorem Chain.access_closed (ht : t.Closed) (hw : t.WellFormed) {c : Chain} {a : Access}
    (h : (c.resolve scope).Yields t a) : (Value.access a).Closed t := by
  have he : ((Expr.access c c.span).elaborate scope).Yields t (.access a) :=
    Expr.yields_access.mpr ⟨a, h, rfl⟩
  exact Expr.elaborate_closed ht hw he

theorem Statement.elaborate_closed (ht : t.Closed) (hw : t.WellFormed) {id : OperationId}
    {d : Statement} {s : LibraryContract.Statement} (hs : ∀ v, s ≠ .declaration v)
    (h : (d.elaborate scope id).Yields t s t) : s.Closed t := by
  cases Statement.resolves_of_elaborate h with
  | assignment htarget hvalue =>
    exact ⟨Chain.access_closed ht hw htarget, Expr.elaborate_closed ht hw hvalue⟩
  | construction htarget hcall =>
    exact ⟨Chain.access_closed ht hw htarget, ConstructorCall.resolve_closed ht hw hcall⟩
  | action harguments => exact Expr.mapM_elaborate_closed ht hw harguments
  | declaration h =>
    obtain ⟨type, v, initial, -, -, rfl, -⟩ := VariableDecl.declareLocal_yields h
    exact (hs _ rfl).elim

/-! ## Signatures -/

theorem Parameter.resolve_closed (ht : t.Closed) (hw : t.WellFormed) {index : Nat} {p : Parameter}
    {a : Argument} {target : Option AutomatonId} (h : (p.resolve scope index).Yields t (a, target) u)
    (hu : u.Closed) (hgrows : t.GrowsTo u) :
    a.Closed u ∧ ∀ id ∈ target, ∃ b, t.automaton? id = some b := by
  rw [Parameter.resolve] at h
  obtain ⟨annotations, v, hyields, h⟩ := yields_bind.mp h
  obtain ⟨hannotations, rfl⟩ := yields_liftM.mp hyields
  have hclosed : ∀ use ∈ annotations, use.Closed u :=
    fun use huse => (resolveAnnotations_closed ht hw hannotations use huse).mono hgrows
  rw [yields_ite] at h
  split at h
  · simp only [yields_bind, yields_liftM, Check.yields_look, yields_pure] at h
    obtain ⟨id, _, ⟨hid, rfl⟩, type, _, ⟨rfl, rfl⟩, hpair, rfl⟩ := h
    cases hpair
    have htarget : ∃ b, t.automaton? id = some b := by
      unfold Parameter.resolveTarget at hid
      split at hid
      · obtain ⟨b, hb, -⟩ := (hw.automatonId?_iff _ _).mp (Identifier.yields_resolveAutomaton.mp hid)
        exact ⟨b, hb⟩
      · exact (Check.yields_fail.mp hid).elim
    refine ⟨⟨?_, hclosed⟩, fun id' hid' => ?_⟩
    · obtain ⟨b, hb⟩ := htarget
      show t.Knows (((t.automaton? id).map Automaton.type).getD "")
      rw [hb]
      exact (ht.automata id b hb).type
    · cases hid'
      exact htarget
  · obtain ⟨type, w, htype, h⟩ := yields_bind.mp h
    obtain ⟨hpair, rfl⟩ := yields_pure.mp h
    cases hpair
    exact ⟨⟨(TypeExpr.resolve_known htype).2, hclosed⟩, by simp⟩

end SyntaxTree

/-! ## Changes -/

theorem Interns.closed (h : Interns t u) (ht : t.Closed) : u.Closed := by
  cases h with
  | array hk => exact ht.internArray hk

theorem Furnishes.closed (h : Furnishes t u) (ht : t.Closed) : u.Closed := by
  cases h with
  | interns h => exact h.closed ht
  | annotationType hk h => exact ht.registerAnnotationType hk h
  | @state id s hnew =>
    have hgrows := (Furnishes.state hnew).growsTo
    refine ht.modifyAutomaton hgrows fun a ha hclosed => ?_
    refine ⟨hclosed.type, hclosed.instanceVariables, hclosed.constructorVariables, fun shift hs => ?_⟩
    have hmore : a.GrowsTo { a with states := a.states.insert s.name s } :=
      { Automaton.GrowsTo.refl a with states := .insert (fun _ => rfl) (hnew a ha) s }
    exact (hclosed.shifts shift hs).mono (.refl _) hmore
  | «variable» _ hk hi h =>
    refine ht.registerVariable hk (fun x hx => ?_) h
    rw [hi] at hx
    cases hx

theorem Elaborates.closed (h : Elaborates t u) (ht : t.Closed) (hw : t.WellFormed) : u.Closed := by
  have hgrows := h.growsTo
  cases h with
  | array hk => exact ht.internArray hk
  | @initial _ _ _ home name _ _ _ h =>
    exact ht.setInitial home name (Expr.elaborate_closed ht hw h)
  | @shift id shift h =>
    refine ht.modifyAutomaton hgrows fun a ha hclosed => { hclosed with shifts := fun s hs => ?_ }
    have hmore : a.GrowsTo { a with shifts := a.shifts ++ [shift] } :=
      { Automaton.GrowsTo.refl a with shifts := List.prefix_append _ _ }
    rcases List.mem_append.mp hs with hs | hs
    · exact (hclosed.shifts s hs).mono (.refl _) hmore
    · rw [List.mem_singleton.mp hs]
      obtain ⟨hsource, htarget, hne, hsourceState, htargetState, hlisted⟩ := h a ha
      refine ⟨hsource, htarget, hsourceState, htargetState, hne, fun f hf => ?_⟩
      obtain ⟨name, hname⟩ := hlisted f hf
      obtain ⟨o, ho, howner, -⟩ := hw.indexed_owner hname
      exact ⟨o, ho, howner⟩
  | contract _ h =>
    obtain ⟨expression, hexpression, rfl⟩ := ContractDecl.yields_elaborate h
    refine ht.modifyOperation hgrows fun o _ hclosed => { hclosed with contracts := fun c hc => ?_ }
    rcases List.mem_append.mp hc with hc | hc
    · exact hclosed.contracts c hc
    · rw [List.mem_singleton.mp hc]
      exact (Expr.elaborate_closed ht hw hexpression).mono hgrows
  | localVariable _ _ _ _ hk hi h =>
    refine ht.registerVariable hk (fun x hx => ?_) h
    obtain ⟨e, he⟩ := hi x hx
    exact Expr.elaborate_closed ht hw he
  | statement _ _ h hd =>
    refine ht.modifyOperation hgrows fun o ho hclosed => { hclosed with statements := fun s hs => ?_ }
    rcases List.mem_append.mp hs with hs | hs
    · exact hclosed.statements s hs
    · rw [List.mem_singleton.mp hs]
      rcases hd with ⟨hne, hd⟩ | ⟨v, rfl, hv⟩
      · exact (Statement.elaborate_closed ht hw hne hd).mono hgrows
      · exact hclosed.locals v.name v (hv o ho)

/-- Arrays of known types keep a table closed. -/
theorem SymbolTable.Closed.interns (ht : t.Closed) (h : Relation.ReflTransGen Interns t u) :
    u.Closed :=
  keeps_of_reflTransGen h (fun _ _ => Interns.closed) ht

theorem SymbolTable.WellFormed.interns (hw : t.WellFormed)
    (h : Relation.ReflTransGen Interns t u) : u.WellFormed :=
  keeps_of_reflTransGen h (fun _ _ => Interns.wellFormed) hw

namespace SyntaxTree

theorem Parameter.resolveAll_closed (ht : t.Closed) (hw : t.WellFormed) {scope : Scope}
    {words : String} {seen : List String} {index : Nat} {ps : List Parameter}
    {arguments : List (Argument × Option AutomatonId)}
    (h : (Parameter.resolveAll scope words seen index ps).Yields t arguments u) :
    ∀ a ∈ arguments, a.1.Closed u ∧ ∀ id ∈ a.2, ∃ b, u.automaton? id = some b := by
  induction ps generalizing seen index t arguments with
  | nil =>
    obtain ⟨rfl, rfl⟩ := yields_pure.mp h
    exact List.forall_mem_nil _
  | cons p rest ih =>
    obtain ⟨⟨a, target⟩, v, others, ha, hothers, rfl⟩ := Parameter.yields_resolveAll_cons h
    have hv := ha.reaches (p.resolve_within scope index t)
    have hu := hothers.reaches (Parameter.resolveAll_within _ _ _ _ rest v)
    have hgrows : v.GrowsTo u := .of_reflTransGen hu fun _ _ => Interns.growsTo
    have hsteps : t.GrowsTo v := .of_reflTransGen hv fun _ _ => Interns.growsTo
    obtain ⟨hclosed, htarget⟩ := p.resolve_closed ht hw ha (ht.interns hv) hsteps
    refine List.forall_mem_cons.mpr ⟨⟨hclosed.mono hgrows, fun id hid => ?_⟩, ?_⟩
    · obtain ⟨b, hb⟩ := htarget id hid
      obtain ⟨c, hc, -⟩ := (hsteps.trans hgrows).automaton? hb
      exact ⟨c, hc⟩
    · exact ih (ht.interns hv) (hw.interns hv) hothers

/-- The signature of a declaration is closed when its owner exists. -/
theorem FunctionDecl.signature_closed (ht : t.Closed) (hw : t.WellFormed) {d : FunctionDecl}
    {owner : AutomatonId} {s : Signature} (h : (d.signature owner).Yields t s u)
    (howner : ∃ a, u.automatonNamed? s.owner = some a) : s.Closed u := by
  have hgrows : t.GrowsTo u :=
    .of_reflTransGen (h.reaches (d.signature_within owner t)) fun _ _ => Interns.growsTo
  have hwu := hw.interns (h.reaches (d.signature_within owner t))
  obtain ⟨annotations, arguments, v, returnType, ownerName, hannotations, harguments, hreturn,
    hinterns, -, rfl⟩ := FunctionDecl.signature_yields h
  have hv := Parameter.resolveAll_closed ht hw harguments
  have hmore : v.GrowsTo u := .of_reflTransGen hinterns fun _ _ => Interns.growsTo
  refine ⟨howner, ?_, fun a ha => ?_, fun type htype => ?_, fun use huse => ?_⟩
  · cases htarget : (arguments.findSome? Prod.snd).bind u.automaton? with
    | none => exact howner
    | some b =>
      -- the name is that of an automaton with a number
      obtain ⟨id, -, hid⟩ := Option.bind_eq_some_iff.mp htarget
      exact ⟨b, Option.bind_eq_some_iff.mpr ⟨id, (hwu.automatonId?_iff _ _).mpr ⟨b, hid, rfl⟩, hid⟩⟩
  · obtain ⟨a, hmem, rfl⟩ := List.mem_map.mp ha
    exact (hv a hmem).1.mono hmore
  · rcases yields_optionMapM.mp hreturn with ⟨-, rfl, -⟩ | ⟨e, type', -, rfl, htype'⟩
    · cases htype
    · cases htype
      exact (TypeExpr.resolve_known htype').2
  · exact (resolveAnnotations_closed ht hw hannotations use huse).mono hgrows

theorem FunctionDecl.register_closed (ht : t.Closed) (hw : t.WellFormed) {options : Options}
    {d : FunctionDecl} {enclosing : Option AutomatonId} {r : Registration}
    (h : (d.register options enclosing).Yields t r u) : u.Closed ∧ u.WellFormed := by
  obtain ⟨owner, s, v, w, -, hs, hr, rfl⟩ := FunctionDecl.register_yields h
  have hinterns := hs.reaches (d.signature_within owner t)
  have hv := ht.interns hinterns
  have hwv := hw.interns hinterns
  obtain ⟨id, hid, -⟩ := SymbolTable.registerOperation_cases hr
  obtain ⟨a, ha, -⟩ := (hwv.automatonId?_iff _ _).mp hid
  have howner : ∃ a, v.automatonNamed? s.owner = some a :=
    ⟨a, Option.bind_eq_some_iff.mpr ⟨id, hid, ha⟩⟩
  have hclosed := FunctionDecl.signature_closed ht hw hs howner
  refine ⟨(hv.registerOperation hclosed hr).withResult _ _, ?_⟩
  exact (hwv.registerOperation hr).withResult _ _

/-- Without an error, an automaton comes in with a known type. -/
theorem AutomatonDecl.declare_closed (ht : t.Closed) {d : AutomatonDecl} {a : PendingAutomaton}
    (h : d.declare.Clean t a u) : u.Closed := by
  rw [AutomatonDecl.declare] at h
  obtain ⟨type, v, hattempt, hregistering⟩ := clean_bind.mp h
  obtain ⟨name, rfl, htype⟩ := clean_attempt d.type.candid_resolve hattempt
  obtain ⟨id, w, hnew, hrest⟩ := clean_bind.mp hregistering
  have hv := ht.interns (htype.yields.reaches (d.type.resolve_within t))
  have hregister := clean_register.mp hnew
  have hw := hv.registerAutomaton (TypeExpr.resolve_known htype.yields).2 hregister
  exact keeps_of_reflTransGen (hrest.yields.reaches (d.furnish_within (hasSeen_registered hregister)))
    (fun _ _ => Furnishes.closed) hw

end SyntaxTree

/-! ## Runs -/

namespace Run

variable {options : Options} {library : SyntaxTree.Library}

theorem DeclaresCleanly.closed_withTypes (h : DeclaresCleanly library) :
    (withTypes library).table.Closed := by
  have hgrows : SymbolTable.empty.GrowsTo (withTypes library).table :=
    .of_reflTransGen (registerTypes_declares library.types start) fun _ _ => Declares.growsTo
  obtain ⟨types, heq⟩ := h.declaresTypes.1.only
  refine SymbolTable.Closed.empty.of_growsTo hgrows ?_ (fun name a ha => ?_) (fun name v hv => ?_)
    (fun id a ha => ?_) fun id o ho => ?_
  · exact fun name type htype => Or.inr (h.withTypes_closed htype)
  · rw [heq] at ha
    exact Or.inl ha
  · rw [heq] at hv
    exact Or.inl hv
  · rw [heq] at ha
    exact Or.inl ha
  · rw [heq] at ho
    exact Or.inl ho

theorem DeclaresCleanly.closed_withAutomata (h : DeclaresCleanly library) :
    (withAutomata library).2.table.Closed := by
  have hkeep : ∀ {t u : SymbolTable}, Relation.ReflTransGen Furnishes t u → t.Closed → u.Closed :=
    fun h ht => keeps_of_reflTransGen h (fun _ _ => Furnishes.closed) ht
  obtain ⟨_, hannotations⟩ := h.annotations
  obtain ⟨_, hglobals⟩ := h.globals
  have hannotated : (withAnnotations library).table.Closed := by
    refine clean_mapM_keeps (fun d _ t _ u ht hd => ?_) hannotations h.closed_withTypes
    exact hkeep (hd.yields.reaches (d.declare_within t)) ht
  have hglobal : (withGlobals library).2.table.Closed := by
    have hg : VariableScope.global.OutsideOperations := trivial
    refine clean_mapM_keeps (fun d _ t _ u ht hd => ?_) hglobals hannotated
    exact hkeep (hd.yields.reaches (d.declare_within hg t)) ht
  refine clean_mapM_keeps (fun d _ t _ u ht hd => ?_) h.automata hglobal
  exact AutomatonDecl.declare_closed ht hd

theorem RunsCleanly.closed_withSignatures (h : RunsCleanly options library) :
    (withSignatures options library).2.table.Closed := by
  have hboth : (withSignatures options library).2.table.Closed ∧
      (withSignatures options library).2.table.WellFormed := by
    refine clean_mapM_keeps (P := fun t => t.Closed ∧ t.WellFormed) ?_ h.signatures
      ⟨h.closed_withAutomata, withAutomata_wellFormed library⟩
    rintro item - t e u ⟨ht, hw⟩ hd
    obtain ⟨r, v, hr, hpure⟩ := yields_bind.mp hd.yields
    obtain ⟨-, rfl⟩ := yields_pure.mp hpure
    exact FunctionDecl.register_closed ht hw hr
  exact hboth.1

/-- An analysis without errors leaves nothing dangling. -/
theorem RunsCleanly.closed (h : RunsCleanly options library) :
    (analyze options library).table.Closed := by
  have hkeep : ∀ t u, Elaborates t u → t.Closed ∧ t.WellFormed → u.Closed ∧ u.WellFormed :=
    fun t u he ht => ⟨he.closed ht.1 ht.2, he.wellFormed ht.2⟩
  exact (keeps_of_reflTransGen (analyze_elaborates options library) hkeep
    ⟨h.closed_withSignatures, withSignatures_wellFormed options library⟩).1

end Run

/-- Nothing dangles in a library that compiles. -/
theorem compile_closed {options : Options} {library : SyntaxTree.Library} {l : Library}
    (h : ((Session.start options).compile library).1 = .ok l) :
    l.table.Closed ∧ l.table.WellFormed := by
  obtain ⟨hclean, rfl⟩ := Run.clean_of_compile h
  exact ⟨hclean.closed, Run.analyze_wellFormed options library⟩

/-- There is a library that compiles. -/
theorem compile_closed_sample :
    ∃ l, ((Session.start .standard).compile Sample.library).1 = .ok l ∧
      l.table.Closed ∧ l.table.WellFormed := by
  obtain ⟨l, hl⟩ := Sample.library_compiles
  exact ⟨l, hl, compile_closed hl⟩

end LibraryContract
