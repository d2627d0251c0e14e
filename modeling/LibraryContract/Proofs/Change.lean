import LibraryContract.Proofs.Registration
import LibraryContract.Proofs.Run

/-!
# What an analysis can do to the table

Three relations list every change that an analysis makes to its symbol table, one constructor for
each: `Declares` while names are registered, `Signs` while operations are, `Elaborates` while
everything else is looked at. `Furnishes` is the part of the first that needs no new type and no new
automaton, `Connects` the part of the last that shifts need. A constructor keeps what was known at its
moment, so that whatever these changes preserve holds of an analysis without another look at its
steps.

* `withAutomata_declares`: types, annotations, global variables and automata;
* `registerSignatures_signs`: signatures;
* `analyze_elaborates`: initial values, shifts, contracts and bodies.

All three hold of every run, with or without errors.
-/

namespace LibraryContract

open SyntaxTree Build

/-- The name belongs to a registered type. -/
def SymbolTable.Knows (t : SymbolTable) (name : String) : Prop := ∃ type, t.type? name = some type

theorem SymbolTable.knows_iff_contains {t : SymbolTable} {name : String} :
    t.Knows name ↔ t.types.contains name = true := by
  unfold Knows
  exact Option.isSome_iff_exists.symm

/-- A variable of the library or of an automaton. -/
def VariableScope.OutsideOperations : VariableScope → Prop
  | .global | .automaton _ | .constructorParameter _ => True
  | .argument _ | .body _ | .result _ => False

namespace SymbolTable

theorem operations_modifyVariables (t : SymbolTable) {home : VariableScope}
    (hh : home.OutsideOperations) (f : OrderedMap String Variable → OrderedMap String Variable) :
    (t.modifyVariables home f).operations = t.operations := by
  cases home <;> first | rfl | exact hh.elim

/-- Operations have no part in the variables outside of them. -/
theorem variablesIn_outside_modifyOperation (t : SymbolTable) (id : OperationId)
    (f : Operation → Operation) {home : VariableScope} (hh : home.OutsideOperations) :
    (t.modifyOperation id f).variablesIn home = t.variablesIn home := by
  cases home <;> first | rfl | exact hh.elim

end SymbolTable

/-- The operation with the variable for the value that it returns, if it returns one. -/
def Operation.withResult (id : OperationId) (span : Span) (o : Operation) : Operation :=
  match o.returnType with
  | none => o
  | some type =>
    if o.locals.contains resultName then o
    else
      { o with
        locals := o.locals.insert resultName ⟨resultName, type, .result id, none, span⟩ }

/-- The table in which the operation `id` has the variable for the value that it returns. -/
def SymbolTable.withResult (t : SymbolTable) (id : OperationId) (span : Span) : SymbolTable :=
  t.modifyOperation id (Operation.withResult id span)

theorem Operation.toSignature_withResult (id : OperationId) (span : Span) (o : Operation) :
    (o.withResult id span).toSignature = o.toSignature := by
  unfold withResult
  split
  · rfl
  · split <;> rfl

theorem Operation.id_withResult (id : OperationId) (span : Span) (o : Operation) :
    (o.withResult id span).id = o.id := by
  unfold withResult
  split
  · rfl
  · split <;> rfl

theorem SymbolTable.withResult_cases (t : SymbolTable) (id : OperationId) (span : Span) :
    t.withResult id span = t ∨ ∃ o type, t.operation? id = some o ∧ o.returnType = some type ∧
      o.locals.contains resultName = false ∧ t.withResult id span =
        t.modifyVariables (.result id) fun m =>
          m.insert resultName ⟨resultName, type, .result id, none, span⟩ := by
  have hkeep : (∀ o, t.operation? id = some o → o.withResult id span = o) →
      t.withResult id span = t := by
    intro h
    rw [withResult, modifyOperation_congr h, modifyOperation_id]
  have hown : ∀ {o : Operation} {P : Operation → Prop}, t.operation? id = some o → P o →
      ∀ p, t.operation? id = some p → P p := by
    intro o P ho h p hp
    rw [ho] at hp
    cases hp
    exact h
  cases ho : t.operation? id with
  | none =>
    refine Or.inl (hkeep fun o h => ?_)
    rw [ho] at h
    cases h
  | some o =>
    cases hr : o.returnType with
    | none => exact Or.inl (hkeep (hown ho (by simp only [Operation.withResult, hr])))
    | some type =>
      cases hl : o.locals.contains resultName with
      | true => exact Or.inl (hkeep (hown ho (by simp only [Operation.withResult, hr, hl, if_true])))
      | false =>
        refine Or.inr ⟨o, type, rfl, hr, hl, modifyOperation_congr (hown ho ?_)⟩
        simp only [Operation.withResult, hr, hl, Bool.false_eq_true, if_false]

/-- What is known of a shift when it is added to the automaton `a`. -/
structure Shift.Fits (s : Shift) (t : SymbolTable) (a : Automaton) : Prop where
  source_ne_stay : s.source ≠ .stay
  target_ne_any : s.target ≠ .any
  functions_ne_nil : s.functions ≠ []
  source_declared : ∀ n, s.source = .state n → (a.state? n).isSome = true
  target_declared : ∀ n, s.target = .state n → (a.state? n).isSome = true
  functions_listed : ∀ f ∈ s.functions, ∃ name, f ∈ (t.operationIds.get? (a.name, name)).getD []

/-- The arrays of a registered type become known. -/
inductive Interns (t : SymbolTable) : SymbolTable → Prop
  | array {element : String} (h : t.Knows element) : Interns t (t.internArray element)

/-- Annotations, states and variables of known types come in. -/
inductive Furnishes (t : SymbolTable) : SymbolTable → Prop
  | interns {u : SymbolTable} (h : Interns t u) : Furnishes t u
  | annotationType {a : Annotation} {u : SymbolTable} (hk : ∀ p ∈ a.parameters, t.Knows p.type)
      (h : t.registerAnnotationType a = .ok u) : Furnishes t u
  | state {id : AutomatonId} {s : State}
      (h : ∀ a, t.automaton? id = some a → a.states.contains s.name = false) :
      Furnishes t (t.modifyAutomaton id fun a => { a with states := a.states.insert s.name s })
  | variable {v : Variable} {u : SymbolTable} (hv : v.scope.OutsideOperations)
      (hk : t.Knows v.type) (hi : v.initial = none) (h : t.registerVariable v = .ok u) :
      Furnishes t u

/-- Changes while types, annotations, global variables and automata are registered. -/
inductive Declares (t : SymbolTable) : SymbolTable → Prop
  | array (element : String) : Declares t (t.internArray element)
  | type {type : DataType} {u : SymbolTable} (h : t.registerType type = .ok u) : Declares t u
  | automaton {name type : String} {span : Span} {id : AutomatonId} {u : SymbolTable}
      (h : t.registerAutomaton name type span = .ok (id, u)) : Declares t u
  | furnishes {u : SymbolTable} (h : Furnishes t u) : Declares t u

/-- Changes while operations are registered. -/
inductive Signs (t : SymbolTable) : SymbolTable → Prop
  | array {element : String} (h : t.Knows element) : Signs t (t.internArray element)
  | operation {d : FunctionDecl} {owner : AutomatonId} {s : Signature} {t₀ u : SymbolTable}
      {r : Registration} (hs : (d.signature owner).Yields t₀ s t)
      (h : t.registerOperation s = .ok (r, u)) : Signs t (u.withResult r.id d.span)

/-- Changes while the shifts of automata are looked at. -/
inductive Connects (t : SymbolTable) : SymbolTable → Prop
  | interns {u : SymbolTable} (h : Interns t u) : Connects t u
  | shift {id : AutomatonId} {s : Shift} (h : ∀ a, t.automaton? id = some a → s.Fits t a) :
      Connects t (t.modifyAutomaton id fun a => { a with shifts := a.shifts ++ [s] })

/-- Changes while initial values, shifts, contracts and bodies are looked at. -/
inductive Elaborates (t : SymbolTable) : SymbolTable → Prop
  | array {element : String} (h : t.Knows element) : Elaborates t (t.internArray element)
  | initial {scope : Scope} {e : Expr} {value : Value} {home : VariableScope} (name : String)
      (hs : scope.operation = none) (hc : scope.contract = none) (hh : home.OutsideOperations)
      (h : (e.elaborate scope).Yields t value) : Elaborates t (t.setInitial home name value)
  | shift {id : AutomatonId} {s : Shift} (h : ∀ a, t.automaton? id = some a → s.Fits t a) :
      Elaborates t (t.modifyAutomaton id fun a => { a with shifts := a.shifts ++ [s] })
  | contract {scope : Scope} {id : OperationId} {d : ContractDecl} {c : Contract}
      (hs : scope.operation = some id) (h : (d.elaborate scope).Yields t c) :
      Elaborates t (t.modifyOperation id fun o => { o with contracts := o.contracts ++ [c] })
  | localVariable {scope : Scope} {id : OperationId} {v : Variable} {u : SymbolTable}
      (hs : scope.operation = some id) (hc : scope.contract = none) (hv : v.scope = .body id)
      (ha : ∀ o, t.operation? id = some o → o.argument? v.name = none) (hk : t.Knows v.type)
      (hi : ∀ x ∈ v.initial, ∃ e : Expr, (e.elaborate scope).Yields t x)
      (h : t.registerVariable v = .ok u) : Elaborates t u
  | statement {scope : Scope} {id : OperationId} {d : SyntaxTree.Statement}
      {s : LibraryContract.Statement} {t₀ : SymbolTable} (hs : scope.operation = some id)
      (hc : scope.contract = none) (h : (d.elaborate scope id).Yields t₀ s t)
      (hd : (∀ v, s ≠ .declaration v) ∧ (d.elaborate scope id).Yields t s t ∨
        ∃ v, s = .declaration v ∧ ∀ o, t.operation? id = some o → o.locals.get? v.name = some v) :
      Elaborates t (t.modifyOperation id fun o => { o with statements := o.statements ++ [s] })

theorem Interns.declares {t u : SymbolTable} (h : Interns t u) : Declares t u := by
  cases h with
  | array _ => exact .array _

theorem Interns.signs {t u : SymbolTable} (h : Interns t u) : Signs t u := by
  cases h with
  | array h => exact .array h

theorem Interns.elaborates {t u : SymbolTable} (h : Interns t u) : Elaborates t u := by
  cases h with
  | array h => exact .array h

theorem Connects.elaborates {t u : SymbolTable} (h : Connects t u) : Elaborates t u := by
  cases h with
  | interns h => exact h.elaborates
  | shift h => exact .shift h

theorem SymbolTable.knows_internArray {t : SymbolTable} {element name : String} :
    (t.internArray element).Knows name ↔ t.Knows name ∨ name = DataType.arrayName element := by
  rw [knows_iff_contains, knows_iff_contains]
  unfold internArray TypeRegistry.internArray TypeRegistry.insert?
  split
  · rename_i h
    exact (or_iff_left_of_imp fun hname => hname ▸ h).symm
  · rw [Option.getD_some, TypeRegistry.contains, OrderedMap.contains_insert, Bool.or_eq_true,
      decide_eq_true_iff, or_comm]
    rfl

theorem Interns.knows {t u : SymbolTable} {name : String} (h : Relation.ReflTransGen Interns t u)
    (hn : t.Knows name) : u.Knows name := by
  induction h with
  | refl => exact hn
  | tail _ h ih =>
    cases h with
    | array _ => exact SymbolTable.knows_internArray.mpr (.inl ih)

namespace SyntaxTree

/-! ## Type expressions -/

theorem TypeExpr.yields_resolve_named {name : Identifier} {t u : SymbolTable} {result : String} :
    (TypeExpr.named name).resolve.Yields t result u ↔
      t.Knows name.name ∧ name.name = result ∧ t = u := by
  rw [TypeExpr.resolve, SymbolTable.knows_iff_contains]
  simp only [yields_bind, yields_liftM, Check.yields_look, yields_ite, yields_pure,
    Check.yields_fail, false_and]
  constructor
  · rintro ⟨b, s, ⟨rfl, rfl⟩, h⟩
    split at h
    · rename_i hb
      exact ⟨hb, h⟩
    · exact h.elim
  · rintro ⟨hb, h⟩
    exact ⟨_, _, ⟨rfl, rfl⟩, by rw [if_pos hb]; exact h⟩

theorem TypeExpr.yields_resolve_array {element : TypeExpr} {t u : SymbolTable} {result : String} :
    (TypeExpr.array element).resolve.Yields t result u ↔
      ∃ inner s, element.resolve.Yields t inner s ∧ DataType.arrayName inner = result ∧
        s.internArray inner = u := by
  rw [TypeExpr.resolve]
  simp only [yields_bind, yields_modify, yields_pure]
  constructor
  · rintro ⟨inner, s, h, -, v, rfl, rfl, rfl⟩
    exact ⟨inner, s, h, rfl, rfl⟩
  · rintro ⟨inner, s, h, rfl, rfl⟩
    exact ⟨inner, s, h, (), _, rfl, rfl, rfl⟩

/-- A resolved type expression gives its canonical name, which is known from then on. -/
theorem TypeExpr.resolve_known {e : TypeExpr} {t u : SymbolTable} {name : String}
    (h : e.resolve.Yields t name u) : name = e.canonicalName ∧ u.Knows name := by
  induction e generalizing name u with
  | named identifier =>
    obtain ⟨hk, rfl, rfl⟩ := TypeExpr.yields_resolve_named.mp h
    exact ⟨rfl, hk⟩
  | array element ih =>
    obtain ⟨inner, s, hs, rfl, rfl⟩ := TypeExpr.yields_resolve_array.mp h
    obtain ⟨rfl, -⟩ := ih hs
    exact ⟨rfl, SymbolTable.knows_internArray.mpr (.inr rfl)⟩

theorem TypeExpr.resolve_within (e : TypeExpr) (t : SymbolTable) : e.resolve.Within Interns t := by
  induction e generalizing t with
  | named name =>
    rw [TypeExpr.resolve]
    refine within_bind (within_liftM _) fun b u _ => ?_
    exact within_ite (fun _ => within_pure _) fun _ => within_liftM _
  | array element ih =>
    rw [TypeExpr.resolve]
    refine within_bind (ih t) fun inner u hu => ?_
    refine within_bind (within_modify (.array ?_)) fun _ _ _ => within_pure _
    exact (TypeExpr.resolve_known hu).2

theorem TypeExpr.intern_declares (e : TypeExpr) (t : SymbolTable) :
    Relation.ReflTransGen Declares t (e.intern t) := by
  induction e with
  | named name => exact .refl
  | array element ih => exact ih.tail (.array _)

/-! ## Registering names -/

theorem TypeDecl.declare_within (d : TypeDecl) (t : SymbolTable) : d.declare.Within Declares t := by
  have hfold : ∀ (es : List TypeExpr) (t : SymbolTable),
      Relation.ReflTransGen Declares t (es.foldl (fun t e => e.intern t) t) := by
    intro es
    induction es with
    | nil => exact fun t => .refl
    | cons e rest ih => exact fun t => (e.intern_declares t).trans (ih _)
  refine within_bind (b := Build.modify _) (hfold d.mentioned t) fun _ u _ => ?_
  exact within_registerUnit fun v hv => .type hv

theorem TypeDecl.noteRepeated_within {S : SymbolTable → SymbolTable → Prop}
    (words : String → String) (seen : List String) (names : List Identifier) (t : SymbolTable) :
    (TypeDecl.noteRepeated words seen names).Within S t := by
  induction names generalizing seen t with
  | nil => exact within_pure _
  | cons name rest ih =>
    rw [TypeDecl.noteRepeated]
    refine within_ite (fun _ => ?_) fun _ => ih _ _
    exact within_bind (within_note _ _ _) fun _ u _ => ih _ u

theorem TypeDecl.validateFields_within {S : SymbolTable → SymbolTable → Prop} (typeName : String)
    (seen : List String) (fields : List FieldDecl) (t : SymbolTable)
    (h : ∀ f ∈ fields, ∀ u, Relation.ReflTransGen S t u → f.type.resolve.Within S u) :
    (TypeDecl.validateFields typeName seen fields).Within S t := by
  induction fields generalizing seen t with
  | nil => exact within_pure _
  | cons field rest ih =>
    have hfield := within_attempt (h field List.mem_cons_self t .refl)
    have hrest : (field.type.resolve.attempt >>= fun _ =>
        TypeDecl.validateFields typeName (field.name.name :: seen) rest).Within S t := by
      refine within_bind hfield fun _ u hu => ih _ u fun f hf v hv => ?_
      exact h f (List.mem_cons_of_mem field hf) v ((hu.reaches hfield).trans hv)
    rw [TypeDecl.validateFields]
    refine within_ite (fun _ => ?_) fun _ => hrest
    refine within_bind (within_note _ _ _) fun _ u hu => ?_
    obtain rfl := yields_note.mp hu
    exact hrest

/-- A second look changes the table as looking at the type expressions does. -/
theorem TypeDecl.validate_within_of {S : SymbolTable → SymbolTable → Prop} (d : TypeDecl)
    (t : SymbolTable)
    (h : ∀ e ∈ d.mentioned, ∀ u, Relation.ReflTransGen S t u → e.resolve.Within S u) :
    d.validate.Within S t := by
  obtain ⟨name, definition⟩ := d
  cases definition with
  | simple | real => exact within_pure _
  | «alias» target =>
    refine within_bind (h target List.mem_cons_self t .refl) fun _ u _ => ?_
    refine within_bind (within_liftM _) fun _ v _ => ?_
    exact within_ite (fun _ => within_liftM _) fun _ => within_pure _
  | structured fields =>
    exact TypeDecl.validateFields_within _ _ fields t fun f hf => h f.type (List.mem_map_of_mem hf)
  | enum members => exact TypeDecl.noteRepeated_within _ _ _ t
  | enumLike underlying backing =>
    have hrest : (backing.resolve >>= fun _ => (Pure.pure () : Build Unit)).Within S t :=
      within_bind (h backing List.mem_cons_self t .refl) fun _ u _ => within_pure _
    refine within_bind (within_liftM _) fun _ u hu => ?_
    obtain ⟨-, rfl⟩ := yields_liftM.mp hu
    refine within_ite (fun _ => ?_) fun _ => hrest
    refine within_bind (within_note _ _ _) fun _ v hv => ?_
    obtain rfl := yields_note.mp hv
    exact hrest

theorem TypeDecl.validate_within (d : TypeDecl) (t : SymbolTable) : d.validate.Within Interns t :=
  d.validate_within_of t fun e _ u _ => e.resolve_within u

/-- The annotation that a declaration declares. -/
def AnnotationDecl.toAnnotation (d : AnnotationDecl) : Annotation :=
  ⟨d.name.name, d.parameters.map fun p => ⟨p.name.name, p.type.canonicalName⟩⟩

theorem AnnotationDecl.parameters_yields {ps : List Parameter} {t u : SymbolTable}
    {parameters : List AnnotationParameter}
    (h : (ps.mapM fun p => p.type.resolve >>= fun type =>
      (Pure.pure ⟨p.name.name, type⟩ : Build AnnotationParameter)).Yields t parameters u) :
    parameters = (ps.map fun p => ⟨p.name.name, p.type.canonicalName⟩) ∧
      ∀ p ∈ parameters, u.Knows p.type := by
  induction ps generalizing t parameters with
  | nil =>
    obtain ⟨rfl, -⟩ := yields_mapM_nil.mp h
    exact ⟨rfl, List.forall_mem_nil _⟩
  | cons p rest ih =>
    obtain ⟨parameter, v, others, hp, hothers, rfl⟩ := yields_mapM_cons.mp h
    obtain ⟨type, w, htype, hpure⟩ := yields_bind.mp hp
    obtain ⟨rfl, rfl⟩ := yields_pure.mp hpure
    obtain ⟨rfl, hknown⟩ := TypeExpr.resolve_known htype
    obtain ⟨rfl, hrest⟩ := ih hothers
    have hwithin : Relation.ReflTransGen Interns w u := by
      refine hothers.reaches (within_mapM (fun p _ t => ?_) w)
      exact within_bind (p.type.resolve_within t) fun _ _ _ => within_pure _
    exact ⟨rfl, List.forall_mem_cons.mpr ⟨Interns.knows hwithin hknown, hrest⟩⟩

theorem AnnotationDecl.declare_within (d : AnnotationDecl) (t : SymbolTable) :
    d.declare.Within Furnishes t := by
  refine within_bind (within_mapM (fun p _ t => ?_) t) fun parameters u hu => ?_
  · refine within_bind ?_ fun _ u _ => within_pure _
    exact (p.type.resolve_within t).mono fun _ _ => .interns
  · exact within_registerUnit fun v hv => .annotationType (parameters_yields hu).2 hv

theorem VariableDecl.declare_within {scope : VariableScope} (hs : scope.OutsideOperations)
    (d : VariableDecl) (t : SymbolTable) : (d.declare scope).Within Furnishes t := by
  refine within_bind ?_ fun type u hu => ?_
  · exact (d.type.resolve_within t).mono fun _ _ => .interns
  · exact within_registerUnit fun v hv => .variable hs (TypeExpr.resolve_known hu).2 rfl hv

namespace AutomatonDecl

/-- The states of the automaton are among the names seen so far. -/
def HasSeen (seen : List String) (id : AutomatonId) (t : SymbolTable) : Prop :=
  ∀ a, t.automaton? id = some a → ∀ n, a.states.contains n = true → n ∈ seen

theorem HasSeen.cons {seen : List String} {id : AutomatonId} {t : SymbolTable}
    (h : HasSeen seen id t) (name : String) : HasSeen (name :: seen) id t :=
  fun a ha n hn => List.mem_cons_of_mem _ (h a ha n hn)

theorem HasSeen.insert {seen : List String} {id : AutomatonId} {t : SymbolTable}
    (h : HasSeen seen id t) (s : State) :
    HasSeen (s.name :: seen) id
      (t.modifyAutomaton id fun a => { a with states := a.states.insert s.name s }) := by
  intro a ha n hn
  rw [SymbolTable.automaton?_modifyAutomaton, if_pos rfl, Option.map_eq_some_iff] at ha
  obtain ⟨b, hb, rfl⟩ := ha
  rw [OrderedMap.contains_iff_mem_keys, OrderedMap.keys_insert] at hn
  have hb := h b hb
  split at hn
  · exact List.mem_cons_of_mem _ (hb n (OrderedMap.contains_iff_mem_keys.mpr hn))
  · rcases List.mem_append.mp hn with hn | hn
    · exact List.mem_cons_of_mem _ (hb n (OrderedMap.contains_iff_mem_keys.mpr hn))
    · rw [List.mem_singleton.mp hn]
      exact List.mem_cons_self

/-- The states of the automaton are among the names seen so far, so no state is replaced. -/
theorem declareStates_within {id : AutomatonId} {automaton : String} (states : List StateDecl)
    {seen : List String} {t : SymbolTable} (h : HasSeen seen id t) :
    (declareStates id automaton seen states).Within Furnishes t := by
  induction states generalizing seen t with
  | nil => exact within_pure _
  | cons state rest ih =>
    rw [declareStates]
    refine within_ite (fun hmem => ?_) fun hmem => ?_
    · refine within_bind (within_note _ _ _) fun _ u hu => ih ?_
      obtain rfl := yields_note.mp hu
      exact h.cons _
    · refine within_bind (within_modify (.state (s := ⟨_, _, _⟩) fun a ha => ?_)) fun _ u hu => ih ?_
      · by_contra hc
        rw [Bool.not_eq_false] at hc
        exact hmem (h a ha _ hc)
      · obtain rfl := yields_modify.mp hu
        exact h.insert ⟨_, _, _⟩

theorem declareVariables_within {scope : VariableScope} (hs : scope.OutsideOperations)
    (ds : List VariableDecl) (t : SymbolTable) :
    (declareVariables scope ds).Within Furnishes t := by
  induction ds generalizing t with
  | nil => exact within_pure _
  | cons d rest ih =>
    rw [declareVariables]
    refine within_bind (within_attempt (d.declare_within hs t)) fun _ u _ => ?_
    exact within_bind (ih u) fun _ v _ => within_pure _

/-- What is registered behind the head of an automaton. -/
def furnish (id : AutomatonId) (d : AutomatonDecl) : Build PendingAutomaton := do
  declareStates id d.name.name [] d.states
  let parameters ← declareVariables (.constructorParameter id) d.constructorVariables
  let members ← declareVariables (.automaton id) d.instanceVariables
  return ⟨id, d, parameters ++ members⟩

/-- A new automaton has no state yet. -/
theorem hasSeen_registered {t u : SymbolTable} {name type : String} {span : Span} {id : AutomatonId}
    (h : t.registerAutomaton name type span = .ok (id, u)) : HasSeen [] id u := by
  intro a ha n hn
  rw [SymbolTable.registerAutomaton_skeleton h] at ha
  cases ha
  cases hn

theorem furnish_within (d : AutomatonDecl) {id : AutomatonId} {t : SymbolTable}
    (h : HasSeen [] id t) : (furnish id d).Within Furnishes t := by
  have hp : (VariableScope.constructorParameter id).OutsideOperations := trivial
  have hm : (VariableScope.automaton id).OutsideOperations := trivial
  refine within_bind (declareStates_within d.states h) fun _ w _ => ?_
  refine within_bind (declareVariables_within hp _ w) fun _ x _ => ?_
  exact within_bind (declareVariables_within hm _ x) fun _ y _ => within_pure _

theorem declare_within (d : AutomatonDecl) (t : SymbolTable) : d.declare.Within Declares t := by
  refine within_bind (within_attempt ?_) fun type u _ => ?_
  · exact (d.type.resolve_within t).mono fun _ _ => Interns.declares
  refine within_bind (within_register fun id v hv => .automaton hv) fun id v hv => ?_
  exact (d.furnish_within (hasSeen_registered (yields_register.mp hv))).mono fun _ _ => .furnishes

end AutomatonDecl

/-! ## Registering operations -/

theorem Parameter.resolve_within (scope : Scope) (index : Nat) (p : Parameter) (t : SymbolTable) :
    (p.resolve scope index).Within Interns t := by
  refine within_bind (within_liftM _) fun annotations u _ => ?_
  refine within_ite (fun _ => ?_) fun _ => ?_
  · refine within_bind (within_liftM _) fun _ v _ => ?_
    exact within_bind (within_liftM _) fun _ w _ => within_pure _
  · exact within_bind (p.type.resolve_within u) fun _ v _ => within_pure _

theorem Parameter.resolveAll_within (scope : Scope) (words : String) (seen : List String)
    (index : Nat) (ps : List Parameter) (t : SymbolTable) :
    (Parameter.resolveAll scope words seen index ps).Within Interns t := by
  induction ps generalizing seen index t with
  | nil => exact within_pure _
  | cons p rest ih =>
    have hrest : ∀ t, (p.resolve scope index >>= fun argument =>
        Parameter.resolveAll scope words (p.name.name :: seen) (index + 1) rest >>= fun arguments =>
          (Pure.pure (argument :: arguments) : Build _)).Within Interns t := by
      intro t
      refine within_bind (p.resolve_within scope index t) fun _ u _ => ?_
      exact within_bind (ih _ _ u) fun _ v _ => within_pure _
    rw [Parameter.resolveAll]
    refine within_ite (fun _ => ?_) fun _ => hrest t
    exact within_bind (within_liftM _) fun _ u _ => hrest u

namespace FunctionDecl

theorem signature_within (d : FunctionDecl) (owner : AutomatonId) (t : SymbolTable) :
    (d.signature owner).Within Interns t := by
  refine within_bind (within_liftM _) fun _ u _ => ?_
  refine within_bind (within_liftM _) fun _ v _ => ?_
  refine within_bind (Parameter.resolveAll_within _ _ _ _ _ v) fun _ w _ => ?_
  refine within_bind (within_optionMapM (fun e t => e.resolve_within t) _) fun _ x _ => ?_
  exact within_bind (within_liftM _) fun _ y _ => within_pure _

/-- A signature is put together from what the parts of its declaration stand for; the type of the
returned value comes last. -/
theorem signature_yields {d : FunctionDecl} {owner : AutomatonId} {s : Signature}
    {t u : SymbolTable} (h : (d.signature owner).Yields t s u) :
    ∃ annotations arguments v returnType ownerName,
      (resolveAnnotations (.inAutomaton owner) d.annotations).Yields t annotations ∧
      (Parameter.resolveAll (.inAutomaton owner) d.words [] 0 d.parameters).Yields t arguments v ∧
      (d.returnType.mapM TypeExpr.resolve).Yields v returnType u ∧
      Relation.ReflTransGen Interns v u ∧
      ownerName = ((t.automaton? owner).map Automaton.name).getD "" ∧
      s = {
        kind := d.kind
        name := d.name.map Identifier.name
        owner := ownerName
        target := (((arguments.findSome? Prod.snd).bind u.automaton?).map Automaton.name).getD
          ownerName
        arguments := arguments.map Prod.fst
        returnType := returnType
        annotations := annotations
        hasBody := d.body.isSome
        span := d.span } := by
  rw [signature] at h
  simp only [yields_bind, yields_liftM, Check.yields_look, yields_pure] at h
  obtain ⟨ownerName, _, ⟨howner, rfl⟩, annotations, _, ⟨hannotations, rfl⟩, arguments, v,
    harguments, returnType, _, hreturn, _, _, ⟨rfl, rfl⟩, rfl, rfl⟩ := h
  refine ⟨annotations, arguments, v, returnType, ownerName, hannotations, harguments, hreturn, ?_,
    howner.symm, rfl⟩
  exact hreturn.reaches (within_optionMapM (fun e t => e.resolve_within t) _)

theorem run_declareResult (id : OperationId) (span : Span) (t : SymbolTable) :
    (declareResult id span).run t = (⟨.ok (), []⟩, t.withResult id span) := by
  unfold declareResult
  rw [run_look_bind]
  rcases t.withResult_cases id span with hsame | ⟨o, type, ho, hr, hl, hresult⟩
  · rw [hsame]
    cases ho : t.operation? id with
    | none => rfl
    | some o =>
      cases hr : o.returnType with
      | none =>
        simp only [hr]
        rfl
      | some type =>
        cases hl : o.locals.contains resultName with
        | true =>
          simp only [hr, hl]
          rfl
        | false =>
          have hset : (t.withResult id span).operation? id = some
              { o with
                locals := o.locals.insert resultName ⟨resultName, type, .result id, none, span⟩ } := by
            rw [SymbolTable.withResult, SymbolTable.operation?_modifyOperation, if_pos rfl, ho]
            simp only [Option.map_some, Operation.withResult, hr, hl, Bool.false_eq_true, if_false]
          rw [hsame, ho] at hset
          have hlocals := congrArg Operation.locals (Option.some.inj hset)
          rw [hlocals, OrderedMap.contains, OrderedMap.get?_insert_self] at hl
          cases hl
  · rw [hresult, ho]
    simp only [hr, hl]
    simp [registerUnit, Build.register, SymbolTable.registerVariable, SymbolTable.variablesIn, ho,
      hl, Except.map]

theorem register_within (options : Options) (d : FunctionDecl) (enclosing : Option AutomatonId)
    (t : SymbolTable) : (d.register options enclosing).Within Signs t := by
  refine within_bind (within_liftM _) fun owner u _ => ?_
  refine within_bind ?_ fun s v hs => ?_
  · exact (d.signature_within owner u).mono fun _ _ => Interns.signs
  refine within_register_bind fun r w hw => ?_
  show Relation.ReflTransGen Signs v
    ((Build.bind (declareResult r.id d.span) fun _ => Build.pure r).run w).2
  simp only [Build.bind, run_declareResult, Build.pure]
  exact .single (.operation hs hw)

end FunctionDecl

/-! ## Initial values and shifts -/

theorem elaborateInitializer_within {scope : Scope} (hs : scope.operation = none)
    (hc : scope.contract = none) {p : PendingInitializer} (hp : p.scope.OutsideOperations)
    (t : SymbolTable) : (p.elaborate scope).Within Elaborates t := by
  refine within_bind (within_liftM _) fun value u hu => ?_
  obtain ⟨hv, rfl⟩ := yields_liftM.mp hu
  exact within_modify (.initial p.name hs hc hp hv)

theorem Identifier.resolveState_yields {name : Identifier} {id : AutomatonId} {t : SymbolTable}
    {state : String} (h : (name.resolveState id).Yields t state) :
    name.name = state ∧ ∃ a, t.automaton? id = some a ∧ (a.state? state).isSome = true := by
  rw [Identifier.resolveState] at h
  simp only [Check.yields_bind, Check.yields_look, Check.yields_ite, Check.yields_pure,
    Check.yields_fail] at h
  obtain ⟨owner, rfl, h⟩ := h
  split at h
  · rename_i hs
    subst h
    cases ha : t.automaton? id with
    | none => simp [ha] at hs
    | some a => exact ⟨rfl, a, rfl, by simpa [ha] using hs⟩
  · exact h.elim

/-- An end of a shift is what the special word `p` of it stands for, or a state of the automaton. -/
theorem Identifier.yields_endpoint {p q : Prop} [Decidable p] [Decidable q] {name : Identifier}
    {id : AutomatonId} {t : SymbolTable} {special e : Endpoint} {kind : DiagnosticKind}
    {message : String} {span : Span}
    (h : (if p then pure special
      else if q then Check.fail kind message span
      else do
        let state ← name.resolveState id
        pure (.state state) : Check Endpoint).Yields t e) :
    (p ∧ e = special) ∨ (¬p ∧ e = .state name.name ∧
      ∃ a, t.automaton? id = some a ∧ (a.state? name.name).isSome = true) := by
  simp only [Check.yields_ite, Check.yields_bind, Check.yields_pure, Check.yields_fail] at h
  split at h
  · rename_i hp
    exact Or.inl ⟨hp, h.symm⟩
  · rename_i hp
    split at h
    · exact h.elim
    · obtain ⟨state, hstate, rfl⟩ := h
      obtain ⟨rfl, hdeclared⟩ := Identifier.resolveState_yields hstate
      exact Or.inr ⟨hp, rfl, hdeclared⟩

theorem Identifier.resolveSource_yields {name : Identifier} {id : AutomatonId} {t : SymbolTable}
    {source : Endpoint} (h : (name.resolveSource id).Yields t source) :
    (name.name = Endpoint.anyWord ∧ source = .any) ∨
      (name.name ≠ Endpoint.anyWord ∧ source = .state name.name ∧
        ∃ a, t.automaton? id = some a ∧ (a.state? name.name).isSome = true) :=
  yields_endpoint h

theorem Identifier.resolveTarget_yields {name : Identifier} {id : AutomatonId} {t : SymbolTable}
    {target : Endpoint} (h : (name.resolveTarget id).Yields t target) :
    (name.name = Endpoint.stayWord ∧ target = .stay) ∨
      (name.name ≠ Endpoint.stayWord ∧ target = .state name.name ∧
        ∃ a, t.automaton? id = some a ∧ (a.state? name.name).isSome = true) :=
  yields_endpoint h

theorem lookupOperation_mem {t : SymbolTable} {name automaton : String}
    {types : Option (List String)} {id : OperationId}
    (h : t.lookupOperation name automaton types = .found id) :
    id ∈ (t.operationIds.get? (automaton, name)).getD [] := by
  unfold SymbolTable.lookupOperation at h
  generalize (t.operationIds.get? (automaton, name)).getD [] = ids at h ⊢
  cases types with
  | some types =>
    simp only at h
    split at h
    · rename_i found hf
      cases h
      exact List.mem_of_find?_eq_some hf
    · cases h
  | none =>
    rcases ids with _ | ⟨first, _ | ⟨second, rest⟩⟩
    · cases h
    · cases h
      exact List.mem_singleton_self _
    · cases h

theorem resolveOperation_mem {t : SymbolTable} {name automaton : String}
    {types : Option (List String)} {id : OperationId}
    (h : t.resolveOperation name automaton types = .ok id) :
    id ∈ (t.operationIds.get? (automaton, name)).getD [] := by
  unfold SymbolTable.resolveOperation at h
  split at h
  · rename_i hl
    cases h
    exact lookupOperation_mem hl
  · cases h
  · cases h

theorem Trigger.resolve_within (automaton : String) (trigger : Trigger) (t : SymbolTable) :
    (trigger.resolve automaton).Within Interns t := by
  refine within_bind (within_optionMapM (fun types t => ?_) _) fun types u _ => ?_
  · exact within_mapM (fun e _ t => e.resolve_within t) t
  refine within_bind (within_liftM _) fun found v _ => ?_
  rcases found with (_ | _) | id
  · exact within_liftM _
  · exact within_liftM _
  · exact within_pure _

theorem Trigger.resolve_listed {automaton : String} {trigger : Trigger} {t u : SymbolTable}
    {id : OperationId} (h : (trigger.resolve automaton).Yields t id u) :
    id ∈ (u.operationIds.get? (automaton, trigger.name.name)).getD [] := by
  rw [Trigger.resolve] at h
  simp only [yields_bind, yields_liftM, Check.yields_look] at h
  obtain ⟨types, v, -, found, w, ⟨hfound, rfl⟩, h⟩ := h
  rcases found with (_ | _) | found
  · simp at h
  · simp at h
  · obtain ⟨rfl, rfl⟩ := yields_pure.mp h
    exact resolveOperation_mem hfound

theorem Interns.types_only {t u : SymbolTable} (h : Relation.ReflTransGen Interns t u) :
    ∃ types, u = { t with types := types } := by
  induction h with
  | refl => exact ⟨t.types, rfl⟩
  | tail _ h ih =>
    obtain ⟨types, rfl⟩ := ih
    cases h with
    | array _ => exact ⟨_, rfl⟩

theorem Trigger.mapM_resolve_listed {automaton : String} {triggers : List Trigger}
    {t u : SymbolTable} {ids : List OperationId}
    (h : (triggers.mapM fun trigger : Trigger => trigger.resolve automaton).Yields t ids u) :
    ids.length = triggers.length ∧
      ∀ id ∈ ids, ∃ name, id ∈ (u.operationIds.get? (automaton, name)).getD [] := by
  induction triggers generalizing t ids with
  | nil =>
    obtain ⟨rfl, rfl⟩ := yields_mapM_nil.mp h
    exact ⟨rfl, by simp⟩
  | cons trigger rest ih =>
    obtain ⟨first, s, others, hfirst, hrest, rfl⟩ := yields_mapM_cons.mp h
    obtain ⟨hlength, hothers⟩ := ih hrest
    obtain ⟨types, rfl⟩ :=
      Interns.types_only (hrest.reaches (within_mapM (fun a _ t => a.resolve_within automaton t) _))
    refine ⟨by simp [hlength], ?_⟩
    intro id hid
    rcases List.mem_cons.mp hid with rfl | hid
    · have hlisted := Trigger.resolve_listed hfirst
      exact ⟨trigger.name.name, hlisted⟩
    · exact hothers id hid

namespace ShiftDecl

/-- A shift fits whatever its source, once it does from every state. -/
theorem addShifts_within {id : AutomatonId} {target : Endpoint} {functions : List OperationId}
    {span : Span} (names : List Identifier) {t : SymbolTable}
    (h : ∀ a, t.automaton? id = some a → (⟨.any, target, functions, span⟩ : Shift).Fits t a) :
    (addShifts id target functions span names).Within Connects t := by
  induction names generalizing t with
  | nil => exact within_pure _
  | cons name rest ih =>
    rw [addShifts]
    refine within_bind (within_attempt (within_ofCheck _)) fun source u hu => ?_
    cases source with
    | none =>
      obtain ⟨-, rfl⟩ := yields_attempt_none.mp hu
      exact ih h
    | some source =>
      obtain ⟨hsource, rfl⟩ := yields_ofCheck.mp (yields_attempt_some.mp hu)
      refine within_bind (within_modify (.shift fun a ha => ?_)) fun _ v hv => ih ?_
      · obtain ⟨-, htarget, hfunctions, -, hdeclared, hlisted⟩ := h a ha
        refine ⟨?_, htarget, hfunctions, ?_, hdeclared, hlisted⟩
        · rcases Identifier.resolveSource_yields hsource with ⟨-, rfl⟩ | ⟨-, rfl, -⟩ <;> simp
        · intro n hn
          rcases Identifier.resolveSource_yields hsource with ⟨-, rfl⟩ | ⟨-, rfl, b, hb, hs⟩
          · cases hn
          · cases hn
            rw [ha] at hb
            cases hb
            exact hs
      · obtain rfl := yields_modify.mp hv
        intro a ha
        rw [SymbolTable.automaton?_modifyAutomaton, if_pos rfl, Option.map_eq_some_iff] at ha
        obtain ⟨b, hb, rfl⟩ := ha
        obtain ⟨h₁, h₂, h₃, h₄, h₅, h₆⟩ := h b hb
        exact ⟨h₁, h₂, h₃, h₄, h₅, h₆⟩

theorem resolveTriggers_within (automaton : String) (d : ShiftDecl) (t : SymbolTable) :
    (d.resolveTriggers automaton).Within Interns t := by
  refine within_ite (fun _ => within_liftM _) fun _ => ?_
  exact within_mapM (fun a _ t => a.resolve_within automaton t) _

theorem resolveTriggers_listed {automaton : String} {d : ShiftDecl} {t u : SymbolTable}
    {ids : List OperationId} (h : (d.resolveTriggers automaton).Yields t ids u) :
    d.functions ≠ [] ∧ ids.length = d.functions.length ∧
      ∀ id ∈ ids, ∃ name, id ∈ (u.operationIds.get? (automaton, name)).getD [] := by
  rw [resolveTriggers, yields_ite] at h
  split at h
  · simp at h
  · rename_i hne
    exact ⟨by simpa using hne, Trigger.mapM_resolve_listed h⟩

theorem elaborate_within (id : AutomatonId) (d : ShiftDecl) (t : SymbolTable) :
    (d.elaborate id).Within Connects t := by
  unfold elaborate
  cases d.target with
  | none => exact within_liftM _
  | some target =>
    refine within_ite (fun _ => within_liftM _) fun _ => ?_
    refine within_bind (within_liftM _) fun automaton u hu => ?_
    obtain ⟨hname, rfl⟩ := yields_liftM.mp hu
    refine within_bind (within_liftM _) fun target v hv => ?_
    obtain ⟨htarget, rfl⟩ := yields_liftM.mp hv
    have hwithin := d.resolveTriggers_within automaton t
    refine within_bind (hwithin.mono fun _ _ => .interns) fun ids w hw => ?_
    obtain ⟨hne, hlength, hlisted⟩ := resolveTriggers_listed hw
    obtain ⟨types, rfl⟩ := Interns.types_only (hw.reaches hwithin)
    refine addShifts_within _ fun a ha => ⟨by simp, ?_, ?_, by simp, ?_, ?_⟩
    · rcases Identifier.resolveTarget_yields htarget with ⟨-, rfl⟩ | ⟨-, rfl, -⟩ <;> simp
    · rintro rfl
      exact hne (List.length_eq_zero_iff.mp hlength.symm)
    · intro n hn
      rcases Identifier.resolveTarget_yields htarget with ⟨-, rfl⟩ | ⟨-, rfl, b, hb, hs⟩
      · cases hn
      · cases hn
        rw [show t.automaton? id = some a from ha] at hb
        cases hb
        exact hs
    · rw [Check.yields_look, show t.automaton? id = some a from ha] at hname
      obtain rfl : a.name = automaton := hname
      exact hlisted

end ShiftDecl

/-! ## Contracts and bodies -/

theorem VariableDecl.declareLocal_within {scope : Scope} {id : OperationId}
    (hs : scope.operation = some id) (hc : scope.contract = none) (d : VariableDecl)
    (t : SymbolTable) : (d.declareLocal scope id).Within Elaborates t := by
  refine within_bind (within_liftM _) fun operation u hu => ?_
  obtain ⟨hlook, rfl⟩ := yields_liftM.mp hu
  rw [Check.yields_look] at hlook
  refine within_guard fun hnone => ?_
  have hargument : ∀ o, t.operation? id = some o → o.argument? d.name.name = none := by
    intro o ho
    rw [← hlook, ho] at hnone
    simpa using hnone
  have hwithin := d.type.resolve_within t
  refine within_bind (hwithin.mono fun _ _ => Interns.elaborates) fun type u hu => ?_
  obtain ⟨types, rfl⟩ := Interns.types_only (hu.reaches hwithin)
  refine within_bind (within_optionMapM (fun e t => within_liftM _) _) fun initial v hv => ?_
  have hvu : { t with types := types } = v ∧
      ∀ x ∈ initial, ∃ e : Expr, (e.elaborate scope).Yields { t with types := types } x := by
    rcases yields_optionMapM.mp hv with ⟨-, rfl, rfl⟩ | ⟨e, x, -, rfl, hx⟩
    · exact ⟨rfl, by simp⟩
    · obtain ⟨he, rfl⟩ := yields_liftM.mp hx
      exact ⟨rfl, by simpa using ⟨e, he⟩⟩
  obtain ⟨rfl, hinitial⟩ := hvu
  refine within_bind (within_registerUnit fun w hw => ?_) fun _ w _ => within_pure _
  exact .localVariable hs hc rfl (fun o ho => hargument o ho) (TypeExpr.resolve_known hu).2 hinitial hw

theorem VariableDecl.declareLocal_yields {scope : Scope} {id : OperationId} {d : VariableDecl}
    {s : LibraryContract.Statement} {t u : SymbolTable}
    (h : (d.declareLocal scope id).Yields t s u) :
    ∃ type v initial, d.type.resolve.Yields t type v ∧
      (d.initializer = none ∧ initial = none ∨ ∃ e x, d.initializer = some e ∧ initial = some x ∧
        (e.elaborate scope).Yields v x) ∧
      s = .declaration ⟨d.name.name, type, .body id, initial, d.name.span⟩ ∧
      v.registerVariable ⟨d.name.name, type, .body id, initial, d.name.span⟩ = .ok u := by
  rw [declareLocal] at h
  simp only [yields_bind, yields_liftM, yields_ite, Check.yields_fail, yields_optionMapM,
    yields_registerUnit, yields_pure] at h
  obtain ⟨operation, _, ⟨-, rfl⟩, h⟩ := h
  split at h
  · obtain ⟨-, -, ⟨hfalse, -⟩, -⟩ := h
    exact hfalse.elim
  · obtain ⟨type, v, htype, initial, w, hinitial, _, x, hregister, rfl, rfl⟩ := h
    rcases hinitial with ⟨hnone, rfl, rfl⟩ | ⟨e, value, hsome, rfl, hvalue, rfl⟩
    · exact ⟨type, v, none, htype, Or.inl ⟨hnone, rfl⟩, rfl, hregister⟩
    · exact ⟨type, v, some value, htype, Or.inr ⟨e, value, hsome, rfl, hvalue⟩, rfl, hregister⟩

/-- What a statement stands for, and the table after it. A statement that assigns both a value and a
new automaton, or neither, stands for nothing. -/
inductive Statement.Resolves (scope : Scope) (id : OperationId) (t : SymbolTable) :
    Statement → LibraryContract.Statement → SymbolTable → Prop
  | assignment {target : Chain} {value : Expr} {span : Span} {location : Access} {assigned : Value}
      (htarget : (target.resolve scope).Yields t location)
      (hvalue : (value.elaborate scope).Yields t assigned) :
      Resolves scope id t (.assignment target (some value) none span)
        (.assignment location (.value assigned) span) t
  | construction {target : Chain} {call : ConstructorCall} {span : Span} {location : Access}
      {created : LibraryContract.ConstructorCall} (htarget : (target.resolve scope).Yields t location)
      (hcall : (call.resolve scope).Yields t created) :
      Resolves scope id t (.assignment target none (some call) span)
        (.assignment location (.constructed created) span) t
  | action {name : Identifier} {arguments : List Expr} {span : Span} {values : List Value}
      (harguments : List.Forall₂ (fun e v => (Expr.elaborate scope e).Yields t v) arguments values) :
      Resolves scope id t (.action name arguments span) (.action name.name values span) t
  | declaration {d : VariableDecl} {s : LibraryContract.Statement} {u : SymbolTable}
      (h : (d.declareLocal scope id).Yields t s u) : Resolves scope id t (.variable d) s u

theorem Statement.resolves_of_elaborate {scope : Scope} {id : OperationId} {d : Statement}
    {s : LibraryContract.Statement} {t u : SymbolTable} (h : (d.elaborate scope id).Yields t s u) :
    d.Resolves scope id t s u := by
  cases d with
  | assignment target value call span =>
    cases value with
    | none =>
      cases call with
      | none => cases h.1
      | some call =>
        obtain ⟨location, _, ⟨htarget, rfl⟩, h⟩ := yields_bind.mp h
        obtain ⟨created, _, ⟨hcall, rfl⟩, h⟩ := yields_bind.mp h
        obtain ⟨rfl, rfl⟩ := yields_pure.mp h
        exact .construction htarget hcall
    | some value =>
      cases call with
      | none =>
        obtain ⟨location, _, ⟨htarget, rfl⟩, h⟩ := yields_bind.mp h
        obtain ⟨assigned, _, ⟨hvalue, rfl⟩, h⟩ := yields_bind.mp h
        obtain ⟨rfl, rfl⟩ := yields_pure.mp h
        exact .assignment htarget hvalue
      | some call => cases h.1
  | action name arguments span =>
    obtain ⟨values, _, harguments, h⟩ := yields_bind.mp h
    obtain ⟨hvalues, rfl⟩ := yields_mapM_liftM.mp harguments
    obtain ⟨rfl, rfl⟩ := yields_pure.mp h
    exact .action hvalues
  | «variable» declaration => exact .declaration h

/-- A statement changes nothing, unless it declares a variable, and that is then there. -/
theorem Statement.elaborate_stays {scope : Scope} {id : OperationId} {d : Statement}
    {s : LibraryContract.Statement} {t u : SymbolTable}
    (h : (d.elaborate scope id).Yields t s u) :
    (∀ v, s ≠ .declaration v) ∧ (d.elaborate scope id).Yields u s u ∨
      ∃ v, s = .declaration v ∧ ∀ o, u.operation? id = some o → o.locals.get? v.name = some v := by
  cases Statement.resolves_of_elaborate h with
  | assignment | construction | action => exact Or.inl ⟨by simp, h⟩
  | declaration h =>
    obtain ⟨type, v, initial, -, -, rfl, hu⟩ := VariableDecl.declareLocal_yields h
    refine Or.inr ⟨_, rfl, fun o ho => ?_⟩
    obtain ⟨-, -, rfl⟩ := SymbolTable.registerVariable_eq_ok.mp hu
    rw [SymbolTable.modifyVariables, SymbolTable.operation?_modifyOperation, if_pos rfl,
      Option.map_eq_some_iff] at ho
    obtain ⟨p, -, rfl⟩ := ho
    exact OrderedMap.get?_insert_self _ _ _

theorem Statement.elaborate_within {scope : Scope} {id : OperationId}
    (hs : scope.operation = some id) (hc : scope.contract = none) (d : Statement)
    (t : SymbolTable) : (d.elaborate scope id).Within Elaborates t := by
  cases d with
  | assignment target value call span =>
    cases value with
    | none =>
      cases call with
      | none => exact within_liftM _
      | some call =>
        refine within_bind (within_liftM _) fun _ u _ => ?_
        exact within_bind (within_liftM _) fun _ v _ => within_pure _
    | some value =>
      cases call with
      | none =>
        refine within_bind (within_liftM _) fun _ u _ => ?_
        exact within_bind (within_liftM _) fun _ v _ => within_pure _
      | some call => exact within_liftM _
  | action name arguments span =>
    refine within_bind (within_mapM (fun e _ t => within_liftM _) t) fun _ u _ => ?_
    exact within_pure _
  | «variable» declaration => exact declaration.declareLocal_within hs hc t

namespace FunctionDecl

theorem elaborateContracts_within {scope : Scope} {id : OperationId}
    (hs : scope.operation = some id) (ds : List ContractDecl) (t : SymbolTable) :
    (elaborateContracts scope id ds).Within Elaborates t := by
  induction ds generalizing t with
  | nil => exact within_pure _
  | cons d rest ih =>
    rw [elaborateContracts]
    refine within_bind (within_attempt (within_ofCheck _)) fun contract u hu => ?_
    cases contract with
    | none => exact ih u
    | some contract =>
      obtain ⟨hd, rfl⟩ := yields_ofCheck.mp (yields_attempt_some.mp hu)
      exact within_bind (within_modify (.contract hs hd)) fun _ v _ => ih v

theorem elaborateBody_within {scope : Scope} {id : OperationId} (hs : scope.operation = some id)
    (hc : scope.contract = none) (statements : List Statement) (t : SymbolTable) :
    (elaborateBody scope id statements).Within Elaborates t := by
  induction statements generalizing t with
  | nil => exact within_pure _
  | cons d rest ih =>
    rw [elaborateBody]
    refine within_bind (within_attempt (d.elaborate_within hs hc t)) fun statement u hu => ?_
    cases statement with
    | none => exact ih u
    | some statement =>
      have hd := yields_attempt_some.mp hu
      have hstays := Statement.elaborate_stays hd
      exact within_bind (within_modify (.statement hs hc hd hstays)) fun _ v _ => ih v

theorem bodyScope_inside {id : OperationId} {t : SymbolTable} {scope : Scope}
    (h : (bodyScope id).Yields t scope) : scope.operation = some id ∧ scope.contract = none := by
  rw [bodyScope, Check.yields_look] at h
  rw [← h]
  exact ⟨rfl, rfl⟩

theorem elaborate_within (id : OperationId) (d : FunctionDecl) (t : SymbolTable) :
    (d.elaborate id).Within Elaborates t := by
  refine within_bind (within_liftM _) fun scope u hu => ?_
  obtain ⟨hscope, rfl⟩ := yields_liftM.mp hu
  obtain ⟨hs, hc⟩ := bodyScope_inside hscope
  refine within_bind (elaborateContracts_within hs _ t) fun _ v _ => ?_
  exact elaborateBody_within hs hc _ v

end FunctionDecl

end SyntaxTree

/-! ## Phases -/

/-- A value that is left for later belongs to a variable that was declared on the way. -/
theorem SyntaxTree.AutomatonDecl.declareVariables_pending {scope : VariableScope}
    (hs : scope.OutsideOperations) {ds : List VariableDecl} {t u : SymbolTable}
    {pending : List PendingInitializer}
    (h : (AutomatonDecl.declareVariables scope ds).Yields t pending u) :
    ∀ p ∈ pending, ∃ d ∈ ds, d.pending scope = some p ∧
      ∃ v w, Relation.ReflTransGen Furnishes t v ∧ (d.declare scope).Yields v () w ∧
        Relation.ReflTransGen Furnishes w u := by
  induction ds generalizing t pending with
  | nil =>
    obtain ⟨rfl, -⟩ := yields_pure.mp h
    simp
  | cons d rest ih =>
    rw [declareVariables] at h
    simp only [yields_bind, yields_pure] at h
    obtain ⟨declared, v, hdeclared, others, w, hothers, rfl, rfl⟩ := h
    have hfirst := hdeclared.reaches (within_attempt (d.declare_within hs t))
    have hrest := hothers.reaches (declareVariables_within hs rest v)
    intro p hp
    rcases List.mem_append.mp hp with hp | hp
    · rw [Option.mem_toList, Option.bind_eq_some_iff] at hp
      obtain ⟨_, rfl, hpending⟩ := hp
      have hd := yields_attempt_some.mp hdeclared
      exact ⟨d, List.mem_cons_self, hpending, t, v, .refl, hd, hrest⟩
    · obtain ⟨d', hd', hp, t', u', hbefore, hd, hafter⟩ := ih hothers p hp
      exact ⟨d', List.mem_cons_of_mem d hd', hp, t', u', hfirst.trans hbefore, hd, hafter⟩

theorem SyntaxTree.VariableDecl.scope_pending {d : VariableDecl} {scope : VariableScope}
    {p : PendingInitializer} (h : d.pending scope = some p) : p.scope = scope := by
  obtain ⟨value, -, rfl⟩ := Option.map_eq_some_iff.mp h
  rfl

theorem SyntaxTree.AutomatonDecl.declare_scope {d : AutomatonDecl} {t u : SymbolTable}
    {a : PendingAutomaton} (h : d.declare.Yields t a u) :
    ∀ p ∈ a.initializers, p.scope.OutsideOperations := by
  rw [AutomatonDecl.declare] at h
  simp only [yields_bind, yields_pure] at h
  obtain ⟨_, _, -, id, _, -, _, _, -, _, _, hparameters, _, _, hmembers, rfl, rfl⟩ := h
  have hparameter : (VariableScope.constructorParameter id).OutsideOperations := trivial
  have hmember : (VariableScope.automaton id).OutsideOperations := trivial
  intro p hp
  rcases List.mem_append.mp hp with hp | hp
  · obtain ⟨v, -, hv, -⟩ := declareVariables_pending hparameter hparameters p hp
    exact v.scope_pending hv ▸ hparameter
  · obtain ⟨v, -, hv, -⟩ := declareVariables_pending hmember hmembers p hp
    exact v.scope_pending hv ▸ hmember

namespace Run

theorem registerTypes_declares (ds : List TypeDecl) (r : Run) :
    Relation.ReflTransGen Declares r.table (r.registerTypes ds).table := by
  refine .trans (within_collect (fun d _ t => ?_) r) (within_performAll (fun d _ t => ?_) _)
  · exact within_bind (d.declare_within t) fun _ u _ => within_pure _
  · exact (d.validate_within t).mono fun _ _ => Interns.declares

/-- Up to the registration of the automata. -/
theorem withAutomata_declares (library : SyntaxTree.Library) :
    Relation.ReflTransGen Declares .empty (withAutomata library).2.table := by
  have hannotations : Relation.ReflTransGen Declares (withTypes library).table
      (withAnnotations library).table :=
    within_performAll (fun d _ t => (d.declare_within t).mono fun _ _ => .furnishes) _
  have hglobals : Relation.ReflTransGen Declares (withAnnotations library).table
      (withGlobals library).2.table := by
    have hg : VariableScope.global.OutsideOperations := trivial
    refine within_collect (fun d _ t => ?_) _
    refine within_bind ?_ fun _ u _ => within_pure _
    exact (d.declare_within hg t).mono fun _ _ => .furnishes
  have hautomata : Relation.ReflTransGen Declares (withGlobals library).2.table
      (withAutomata library).2.table := within_collect (fun d _ t => d.declare_within t) _
  exact (((registerTypes_declares _ _).trans hannotations).trans hglobals).trans hautomata

theorem registerSignature_snd (options : Options) (state : List PendingOperation × Run)
    (item : FunctionDecl × Option AutomatonId) :
    (registerSignature options state item).2 =
      (state.2.settle (item.1.register options item.2)).2 := by
  unfold registerSignature
  rcases state.2.settle (item.1.register options item.2) with ⟨_ | registration, r⟩ <;> rfl

theorem registerSignature_signs (options : Options) (state : List PendingOperation × Run)
    (item : FunctionDecl × Option AutomatonId) :
    Relation.ReflTransGen Signs state.2.table (registerSignature options state item).2.table := by
  rw [registerSignature_snd]
  exact within_settle (item.1.register_within options item.2 state.2.table)

theorem foldl_registerSignature_signs (options : Options)
    (items : List (FunctionDecl × Option AutomatonId)) (state : List PendingOperation × Run) :
    Relation.ReflTransGen Signs state.2.table
      (items.foldl (registerSignature options) state).2.table := by
  induction items generalizing state with
  | nil => exact .refl
  | cons item rest ih => exact (registerSignature_signs options state item).trans (ih _)

theorem registerSignatures_signs (options : Options) (automata : List PendingAutomaton)
    (topLevel : List FunctionDecl) (r : Run) :
    Relation.ReflTransGen Signs r.table
      (r.registerSignatures options automata topLevel).2.table :=
  foldl_registerSignature_signs options _ ([], r)

theorem elaborateAutomaton_elaborates {a : PendingAutomaton}
    (ha : ∀ p ∈ a.initializers, p.scope.OutsideOperations) (r : Run) :
    Relation.ReflTransGen Elaborates r.table (elaborateAutomaton r a).table := by
  refine .trans (within_performAll (fun p hp t => ?_) r)
    (within_performAll (fun d _ t => ?_) _)
  · exact elaborateInitializer_within rfl rfl (ha p hp) t
  · exact (d.elaborate_within a.id t).mono fun _ _ => Connects.elaborates

/-- After the registration of the operations. -/
theorem analyze_elaborates (options : Options) (library : SyntaxTree.Library) :
    Relation.ReflTransGen Elaborates (withSignatures options library).2.table
      (analyze options library).table := by
  have hglobals : Relation.ReflTransGen Elaborates (withSignatures options library).2.table
      (withInitials options library).table := by
    refine within_performAll (fun p hp t => elaborateInitializer_within rfl rfl ?_ t) _
    obtain ⟨d, -, hd⟩ := List.mem_filterMap.mp hp
    obtain ⟨value, -, rfl⟩ := Option.map_eq_some_iff.mp hd
    trivial
  have hpending : ∀ a ∈ (withAutomata library).1,
      ∀ p ∈ a.initializers, p.scope.OutsideOperations :=
    collect_forall fun d _ t a u h => AutomatonDecl.declare_scope h
  have hautomata : ∀ (automata : List PendingAutomaton) (r : Run),
      (∀ a ∈ automata, ∀ p ∈ a.initializers, p.scope.OutsideOperations) →
        Relation.ReflTransGen Elaborates r.table (automata.foldl elaborateAutomaton r).table := by
    intro automata
    induction automata with
    | nil => exact fun r _ => .refl
    | cons a rest ih =>
      intro r h
      refine (elaborateAutomaton_elaborates (h a List.mem_cons_self) r).trans (ih _ ?_)
      exact fun b hb => h b (List.mem_cons_of_mem a hb)
  rw [analyze_eq]
  refine (hglobals.trans (hautomata _ _ hpending)).trans ?_
  exact within_performAll (fun o _ t => o.declaration.elaborate_within o.id t) _

end Run

end LibraryContract
