import LibraryContract.Proofs.Change

/-!
# Steps without warnings

Nearly all that an analysis finds are errors. A step is built from lookups, errors, rejections and
registrations; as long as no warning is put in, whatever such a step reports is an error, and when it
gives up on a semantic error it has reported one. `Check.Warnless` and `Build.Warnless` say that a
step is built in this way.

* `Warnless.candid`, `Warnless.isError`, `Warnless.silent`: what follows for every such step;
* the rest of this file goes through the steps, from expressions up to whole declarations, one lemma
  for each. Only the choice of an owner can warn.
-/

namespace LibraryContract

/-! ## What such steps have in common -/

/-- The step is built from lookups, errors and rejections, in whatever way. -/
inductive Check.Warnless : {α : Type} → Check α → Prop
  | pure {α : Type} (a : α) : Warnless (Pure.pure a : Check α)
  | bind {α β : Type} {c : Check α} {f : α → Check β} (hc : Warnless c)
      (hf : ∀ a, Warnless (f a)) : Warnless (c >>= f)
  | look {α : Type} (f : SymbolTable → α) : Warnless (look f)
  | fail {α : Type} (kind : DiagnosticKind) (message : String) (span : Span) :
      Warnless (fail kind message span : Check α)
  | reject {α : Type} (message : String) (span : Span) : Warnless (reject message span : Check α)
  | both {α β : Type} {c : Check α} {d : Check β} (hc : Warnless c) (hd : Warnless d) :
      Warnless (both c d)

/-- The step is built from such steps, from changes of the table and from registrations. -/
inductive Build.Warnless : {α : Type} → Build α → Prop
  | pure {α : Type} (a : α) : Warnless (Pure.pure a : Build α)
  | bind {α β : Type} {b : Build α} {f : α → Build β} (hb : Warnless b)
      (hf : ∀ a, Warnless (f a)) : Warnless (b >>= f)
  | ofCheck {α : Type} {c : Check α} (hc : c.Warnless) : Warnless (ofCheck c)
  | modify (f : SymbolTable → SymbolTable) : Warnless (modify f)
  | note (kind : DiagnosticKind) (message : String) (span : Span) :
      Warnless (note kind message span)
  | register {α : Type} (f : SymbolTable → Except RegistrationError (α × SymbolTable))
      (span : Span) : Warnless (register f span)
  | attempt {α : Type} {b : Build α} (hb : Warnless b) : Warnless b.attempt

variable {α β : Type}

namespace Check

theorem Warnless.candid {c : Check α} (h : c.Warnless) : c.Candid := by
  induction h with
  | pure a => exact candid_pure a
  | bind _ _ hc hf => exact candid_bind hc hf
  | look f => exact candid_look f
  | fail kind message span => exact candid_fail kind message span
  | reject message span => exact candid_reject message span
  | both _ _ hc hd => exact candid_both hc hd

/-- Whatever the step reports is an error. -/
theorem Warnless.isError {c : Check α} (h : c.Warnless) (t : SymbolTable) :
    ∀ d ∈ (c.run t).diagnostics, d.isError = true := by
  induction h with
  | pure a => exact List.forall_mem_nil _
  | @bind α β c f _ _ hc hf =>
    show ∀ d ∈ ((Check.bind c f).run t).diagnostics, d.isError = true
    cases hr : (c.run t).result with
    | error e =>
      rw [run_bind_of_error hr]
      exact hc
    | ok a =>
      rw [run_bind_of_ok hr]
      exact List.forall_mem_append.mpr ⟨hc, hf a⟩
  | look f => exact List.forall_mem_nil _
  | fail kind message span => exact List.forall_mem_singleton.mpr rfl
  | reject message span => exact List.forall_mem_nil _
  | both _ _ hc hd => exact List.forall_mem_append.mpr ⟨hc, hd⟩

/-- A step that can only report errors reports nothing when it ends with a value. -/
theorem Warnless.silent {c : Check α} (h : c.Warnless) {t : SymbolTable} {a : α}
    (ha : c.Yields t a) : (c.run t).diagnostics = [] := by
  induction h with
  | pure b => rfl
  | @bind α β c f _ _ hc hf =>
    obtain ⟨b, hb, hrest⟩ := yields_bind.mp ha
    show ((Check.bind c f).run t).diagnostics = []
    rw [run_bind_of_ok hb, hc hb, hf b hrest]
    rfl
  | look f => rfl
  | fail kind message span => exact (yields_fail.mp ha).elim
  | reject message span => rfl
  | both _ _ hc hd =>
    obtain ⟨hleft, hright⟩ := yields_both.mp ha
    show _ ++ _ = []
    rw [hc hleft, hd hright]
    rfl

theorem warnless_ite {p : Prop} [Decidable p] {c d : Check α} (hc : c.Warnless) (hd : d.Warnless) :
    (if p then c else d).Warnless := by
  split
  · exact hc
  · exact hd

/-- An error may be reported first. -/
theorem warnless_guard {p : Prop} [Decidable p] {c : Check α} {d : Check β} (hc : c.Warnless)
    (hd : d.Warnless) : (if p then c >>= fun _ => d else d).Warnless :=
  warnless_ite (.bind hc fun _ => hd) hd

theorem warnless_mapM {f : α → Check β} (hf : ∀ a, (f a).Warnless) (items : List α) :
    (items.mapM f).Warnless := by
  induction items with
  | nil => exact .pure _
  | cons a rest ih =>
    rw [List.mapM_cons]
    exact .bind (hf a) fun b => .bind ih fun bs => .pure _

end Check

namespace Build

theorem Warnless.candid {b : Build α} (h : b.Warnless) : b.Candid := by
  induction h with
  | pure a => exact candid_pure a
  | bind _ _ hb hf => exact candid_bind hb hf
  | ofCheck hc => exact candid_ofCheck hc.candid
  | modify f => exact candid_modify f
  | note kind message span => exact candid_note kind message span
  | register f span => exact candid_register f span
  | attempt _ _ => exact candid_attempt _

/-- Whatever the step reports is an error. -/
theorem Warnless.isError {b : Build α} (h : b.Warnless) (t : SymbolTable) :
    ∀ d ∈ (b.run t).1.diagnostics, d.isError = true := by
  induction h generalizing t with
  | pure a => exact List.forall_mem_nil _
  | @bind α β b f _ _ hb hf =>
    show ∀ d ∈ ((Build.bind b f).run t).1.diagnostics, d.isError = true
    cases hr : (b.run t).1.result with
    | error e =>
      rw [run_bind_of_error hr]
      exact hb t
    | ok a =>
      rw [run_bind_of_ok hr]
      exact List.forall_mem_append.mpr ⟨hb t, hf a _⟩
  | ofCheck hc => exact hc.isError t
  | modify f => exact List.forall_mem_nil _
  | note kind message span => exact List.forall_mem_singleton.mpr rfl
  | register f span =>
    simp only [Build.register]
    rcases f t with e | ⟨a, u⟩
    · exact List.forall_mem_singleton.mpr rfl
    · exact List.forall_mem_nil _
  | @attempt α b _ hb =>
    have hb := hb t
    unfold Build.attempt
    rcases hr : b.run t with ⟨⟨(_ | m) | x, ds⟩, v⟩ <;> simpa [hr] using hb

theorem warnless_liftM {c : Check α} (hc : c.Warnless) : (liftM c : Build α).Warnless := .ofCheck hc

theorem warnless_registerUnit (f : SymbolTable → Except RegistrationError SymbolTable)
    (span : Span) : (registerUnit f span).Warnless := .register _ span

theorem warnless_ite {p : Prop} [Decidable p] {b c : Build α} (hb : b.Warnless) (hc : c.Warnless) :
    (if p then b else c).Warnless := by
  split
  · exact hb
  · exact hc

/-- An error may be reported first. -/
theorem warnless_guard {p : Prop} [Decidable p] {b : Build α} {c : Build β} (hb : b.Warnless)
    (hc : c.Warnless) : (if p then b >>= fun _ => c else c).Warnless :=
  warnless_ite (.bind hb fun _ => hc) hc

theorem warnless_mapM {f : α → Build β} (hf : ∀ a, (f a).Warnless) (items : List α) :
    (items.mapM f).Warnless := by
  induction items with
  | nil => exact .pure _
  | cons a rest ih =>
    rw [List.mapM_cons]
    exact .bind (hf a) fun b => .bind ih fun bs => .pure _

theorem warnless_optionMapM {f : α → Build β} (hf : ∀ a, (f a).Warnless) (item : Option α) :
    (item.mapM f).Warnless := by
  cases item with
  | none => exact .pure _
  | some a => exact .bind (hf a) fun b => .pure _

end Build

/-! ## Looking at expressions -/

section Looking

open Check

theorem warnless_reachedType (name : String) (span : Span) : (reachedType name span).Warnless := by
  refine .bind (.look _) fun found => ?_
  cases found with
  | ok type => exact .pure _
  | error e => exact .fail _ _ _

theorem warnless_fieldOf (surface : String) (field : SyntaxTree.Identifier) (depth : Nat)
    (type : DataType) : (fieldOf surface field depth type).Warnless := by
  fun_induction fieldOf surface field depth type with
  | case5 _ _ underlying backing =>
    -- the members of an enum-like type are those of its enum
    refine .bind (warnless_reachedType _ _) fun base => ?_
    split
    · exact warnless_ite (.pure _) (.fail _ _ _)
    · exact .fail _ _ _
  | case7 depth _ target ih => exact .bind (warnless_reachedType _ _) ih
  | _ => first | exact .pure _ | exact .fail _ _ _

theorem warnless_elementOf (surface : String) (span : Span) (depth : Nat) (type : DataType) :
    (elementOf surface span depth type).Warnless := by
  fun_induction elementOf surface span depth type with
  | case4 depth _ target ih => exact .bind (warnless_reachedType _ _) ih
  | _ => first | exact .pure _ | exact .fail _ _ _

theorem warnless_fieldType (current : String) (field : SyntaxTree.Identifier) :
    (fieldType current field).Warnless :=
  .bind (warnless_reachedType _ _) fun type => warnless_fieldOf _ _ _ type

theorem warnless_elementType (current : String) (span : Span) : (elementType current span).Warnless :=
  .bind (warnless_reachedType _ _) fun type => warnless_elementOf _ _ _ type

namespace SyntaxTree

theorem Identifier.warnless_resolveVariable (name : Identifier) (scope : Scope) :
    (name.resolveVariable scope).Warnless := by
  refine .bind (.look _) fun found => ?_
  cases found with
  | none => exact .fail _ _ _
  | some found => exact warnless_ite (.fail _ _ _) (.pure _)

theorem Identifier.warnless_resolveAutomaton (name : Identifier) : name.resolveAutomaton.Warnless := by
  refine .bind (.look _) fun found => ?_
  cases found with
  | none => exact .fail _ _ _
  | some id => exact .pure _

theorem warnless_resolveGetter (automaton argument : Identifier) (scope : Scope) :
    (resolveGetter automaton argument scope).Warnless := by
  refine .bind automaton.warnless_resolveAutomaton fun id => ?_
  refine .bind (.look _) fun _ => warnless_ite (.fail _ _ _) ?_
  exact .bind (.look _) fun _ => .pure _

theorem Identifier.warnless_resolveAutomatonVariable (name : Identifier) (id : AutomatonId) :
    (name.resolveAutomatonVariable id).Warnless := by
  refine .bind (.look _) fun found => ?_
  cases found with
  | none => exact .bind (.look _) fun owner => .fail _ _ _
  | some v => exact .pure _

variable (scope : Scope)

mutual

theorem Expr.warnless_elaborate (e : Expr) : (e.elaborate scope).Warnless := by
  cases e with
  | literal value span => exact .pure _
  | access chain span => exact .bind chain.warnless_resolve fun _ => .pure _
  | old chain span =>
    refine warnless_guard (.fail _ _ _) ?_
    exact .bind chain.warnless_resolve fun _ => .pure _
  | unary token operand span =>
    rw [Expr.elaborate]
    cases UnaryOperator.ofToken? token with
    | none => exact .reject _ _
    | some operator => exact .bind operand.warnless_elaborate fun _ => .pure _
  | binary token left right span =>
    rw [Expr.elaborate]
    cases BinaryOperator.ofToken? token with
    | none => exact .reject _ _
    | some operator =>
      refine .bind (.both left.warnless_elaborate right.warnless_elaborate) fun operands => ?_
      exact .pure _
  | group inner span => exact inner.warnless_elaborate
termination_by structural e

theorem Chain.warnless_resolve (c : Chain) : (c.resolve scope).Warnless := by
  rcases c with ⟨_ | ⟨name | index | ⟨automaton, argument⟩, rest⟩, span⟩
  · exact .reject _ _
  · refine .bind (name.warnless_resolveVariable scope) fun found => ?_
    exact .bind (warnless_resolveRest rest _) fun rest => .pure _
  · exact .reject _ _
  · have hgetter : ∀ found : AutomatonId × String, (do
        let rest ← resolveRest scope found.2 rest
        return (⟨.getter found.1 argument.name found.2, rest⟩ : Access)).Warnless :=
      fun found => .bind (warnless_resolveRest rest _) fun rest => .pure _
    rcases rest with _ | ⟨name | index | ⟨_, _⟩, rest⟩
    · exact .bind (warnless_resolveGetter _ _ _) hgetter
    · refine .bind (warnless_resolveGetter _ _ _) fun found => ?_
      refine .bind (name.warnless_resolveAutomatonVariable _) fun reached => ?_
      exact .bind (warnless_resolveRest rest _) fun rest => .pure _
    · exact .bind (warnless_resolveGetter _ _ _) hgetter
    · exact .bind (warnless_resolveGetter _ _ _) hgetter
termination_by structural c

theorem warnless_resolveRest (segments : List Segment) (current : String) :
    (resolveRest scope current segments).Warnless := by
  rcases segments with _ | ⟨name | index | ⟨automaton, argument⟩, rest⟩
  · exact .pure _
  · refine .bind (warnless_fieldType _ _) fun type => ?_
    exact .bind (warnless_resolveRest rest _) fun rest => .pure _
  · refine .bind (warnless_elementType _ _) fun type => ?_
    refine .bind index.warnless_elaborate fun index => ?_
    exact .bind (warnless_resolveRest rest _) fun rest => .pure _
  · exact .reject _ _
termination_by structural segments

end

/-! ## Looking at declarations -/

theorem AnnotationUse.warnless_resolve (use : AnnotationUse) : (use.resolve scope).Warnless := by
  refine .bind (.look _) fun expected => ?_
  cases expected with
  | none => exact .fail _ _ _
  | some expected =>
    refine warnless_ite (.fail _ _ _) ?_
    exact .bind (warnless_mapM (fun e => e.warnless_elaborate scope) _) fun _ => .pure _

theorem warnless_resolveAnnotations (uses : List AnnotationUse) :
    (resolveAnnotations scope uses).Warnless :=
  warnless_mapM (fun use => use.warnless_resolve scope) uses

theorem Parameter.warnless_resolveTarget (p : Parameter) : p.resolveTarget.Warnless := by
  unfold resolveTarget
  split
  · exact Identifier.warnless_resolveAutomaton _
  · exact .fail _ _ _

theorem Identifier.warnless_resolveState (name : Identifier) (id : AutomatonId) :
    (name.resolveState id).Warnless :=
  .bind (.look _) fun _ => warnless_ite (.pure _) (.fail _ _ _)

theorem Identifier.warnless_resolveSource (name : Identifier) (id : AutomatonId) :
    (name.resolveSource id).Warnless := by
  refine warnless_ite (.pure _) (warnless_ite (.fail _ _ _) ?_)
  exact .bind (name.warnless_resolveState id) fun _ => .pure _

theorem Identifier.warnless_resolveTarget (name : Identifier) (id : AutomatonId) :
    (name.resolveTarget id).Warnless := by
  refine warnless_ite (.pure _) (warnless_ite (.fail _ _ _) ?_)
  exact .bind (name.warnless_resolveState id) fun _ => .pure _

namespace ConstructorCall

theorem warnless_resolveState (id : AutomatonId) (value : Expr) : (resolveState id value).Warnless := by
  unfold resolveState
  split
  · exact Identifier.warnless_resolveState _ id
  · exact .fail _ _ _

theorem warnless_resolveArguments (id : AutomatonId) (automaton : String)
    (arguments : List NamedArgument) (state : Option String) (bound : List ConstructorArgument) :
    (resolveArguments scope id automaton state bound arguments).Warnless := by
  induction arguments generalizing state bound with
  | nil => exact .pure _
  | cons argument rest ih =>
    refine warnless_ite (warnless_guard (.fail _ _ _) ?_) ?_
    · exact .bind (warnless_resolveState id _) fun state => ih _ _
    · refine .bind (.look _) fun _ => warnless_guard (.fail _ _ _) ?_
      refine warnless_guard (.fail _ _ _) ?_
      exact .bind (argument.value.warnless_elaborate scope) fun value => ih _ _

theorem warnless_resolve (call : ConstructorCall) : (call.resolve scope).Warnless := by
  refine .bind call.automaton.warnless_resolveAutomaton fun id => ?_
  refine .bind (warnless_resolveArguments scope id _ _ _ _) fun found => ?_
  rcases found with ⟨_ | state, arguments⟩
  · exact .fail _ _ _
  · exact .pure _

end ConstructorCall

theorem ContractDecl.warnless_elaborate (d : ContractDecl) : (d.elaborate scope).Warnless := by
  refine .bind (d.expression.warnless_elaborate _) fun value => ?_
  exact warnless_guard (.fail _ _ _) (.pure _)

end SyntaxTree

end Looking

/-! ## Registering -/

open Build

namespace SyntaxTree

theorem TypeExpr.warnless_resolve (e : TypeExpr) : e.resolve.Warnless := by
  induction e with
  | named name =>
    refine .bind (warnless_liftM (.look _)) fun known => ?_
    exact warnless_ite (.pure _) (warnless_liftM (.fail _ _ _))
  | array element ih =>
    exact .bind ih fun inner => .bind (.modify _) fun _ => .pure _

namespace TypeDecl

theorem warnless_declare (d : TypeDecl) : d.declare.Warnless :=
  .bind (.modify _) fun _ => warnless_registerUnit _ _

theorem warnless_noteRepeated (words : String → String) (seen : List String)
    (names : List Identifier) : (noteRepeated words seen names).Warnless := by
  induction names generalizing seen with
  | nil => exact .pure _
  | cons name rest ih =>
    exact warnless_guard (.note _ _ _) (ih _)

theorem warnless_validateFields (typeName : String) (seen : List String) (fields : List FieldDecl) :
    (validateFields typeName seen fields).Warnless := by
  induction fields generalizing seen with
  | nil => exact .pure _
  | cons field rest ih =>
    refine warnless_guard (.note _ _ _) ?_
    exact .bind (.attempt field.type.warnless_resolve) fun _ => ih _

theorem warnless_validate (d : TypeDecl) : d.validate.Warnless := by
  unfold validate
  cases d.definition with
  | simple | real => exact .pure _
  | «alias» target =>
    refine .bind target.warnless_resolve fun _ => ?_
    refine .bind (warnless_liftM (.look _)) fun cyclic => ?_
    exact warnless_ite (warnless_liftM (.fail _ _ _)) (.pure _)
  | structured fields => exact warnless_validateFields _ _ fields
  | enum members => exact warnless_noteRepeated _ _ _
  | enumLike underlying backing =>
    refine .bind (warnless_liftM (.look _)) fun isEnum => ?_
    refine warnless_guard (.note _ _ _) ?_
    exact .bind backing.warnless_resolve fun _ => .pure _

end TypeDecl

theorem AnnotationDecl.warnless_declare (d : AnnotationDecl) : d.declare.Warnless := by
  refine .bind (warnless_mapM (fun p => ?_) _) fun _ => warnless_registerUnit _ _
  exact .bind p.type.warnless_resolve fun _ => .pure _

theorem VariableDecl.warnless_declare (scope : VariableScope) (d : VariableDecl) :
    (d.declare scope).Warnless :=
  .bind d.type.warnless_resolve fun _ => warnless_registerUnit _ _

namespace AutomatonDecl

theorem warnless_declareStates (id : AutomatonId) (automaton : String) (seen : List String)
    (states : List StateDecl) : (declareStates id automaton seen states).Warnless := by
  induction states generalizing seen with
  | nil => exact .pure _
  | cons state rest ih =>
    exact warnless_ite (.bind (.note _ _ _) fun _ => ih _)
      (.bind (.modify _) fun _ => ih _)

theorem warnless_declareVariables (scope : VariableScope) (ds : List VariableDecl) :
    (declareVariables scope ds).Warnless := by
  induction ds with
  | nil => exact .pure _
  | cons d rest ih =>
    exact .bind (.attempt (d.warnless_declare scope)) fun _ => .bind ih fun _ => .pure _

theorem warnless_declare (d : AutomatonDecl) : d.declare.Warnless := by
  refine .bind (.attempt d.type.warnless_resolve) fun type => ?_
  refine .bind (.register _ _) fun id => ?_
  refine .bind (warnless_declareStates _ _ _ _) fun _ => ?_
  refine .bind (warnless_declareVariables _ _) fun parameters => ?_
  exact .bind (warnless_declareVariables _ _) fun _ => .pure _

end AutomatonDecl

theorem Parameter.warnless_resolve (scope : Scope) (index : Nat) (p : Parameter) :
    (p.resolve scope index).Warnless := by
  refine .bind (warnless_liftM (warnless_resolveAnnotations scope _)) fun _ => warnless_ite ?_ ?_
  · refine .bind (warnless_liftM p.warnless_resolveTarget) fun target => ?_
    exact .bind (warnless_liftM (.look _)) fun _ => .pure _
  · exact .bind p.type.warnless_resolve fun _ => .pure _

theorem Parameter.warnless_resolveAll (scope : Scope) (words : String) (seen : List String)
    (index : Nat) (ps : List Parameter) :
    (Parameter.resolveAll scope words seen index ps).Warnless := by
  induction ps generalizing seen index with
  | nil => exact .pure _
  | cons p rest ih =>
    refine warnless_guard (warnless_liftM (.fail _ _ _)) ?_
    refine .bind (p.warnless_resolve scope index) fun argument => ?_
    exact .bind (ih _ _) fun _ => .pure _

namespace FunctionDecl

theorem warnless_signature (d : FunctionDecl) (owner : AutomatonId) :
    (d.signature owner).Warnless := by
  refine .bind (warnless_liftM (.look _)) fun name => ?_
  refine .bind (warnless_liftM (warnless_resolveAnnotations _ _)) fun annotations => ?_
  refine .bind (Parameter.warnless_resolveAll _ _ _ _ _) fun arguments => ?_
  refine .bind (warnless_optionMapM (fun e => e.warnless_resolve) _) fun returnType => ?_
  exact .bind (warnless_liftM (.look _)) fun _ => .pure _

theorem warnless_declareResult (id : OperationId) (span : Span) :
    (declareResult id span).Warnless := by
  refine .bind (.ofCheck (.look _)) fun found => ?_
  cases found with
  | none => exact .pure _
  | some o =>
    dsimp only
    cases o.returnType with
    | none => exact .pure _
    | some type => exact warnless_ite (.pure _) (warnless_registerUnit _ _)

end FunctionDecl

/-! ## Elaborating -/

theorem Trigger.warnless_resolve (automaton : String) (trigger : Trigger) :
    (trigger.resolve automaton).Warnless := by
  refine .bind (warnless_optionMapM (fun types => ?_) _) fun types => ?_
  · exact warnless_mapM (fun e => e.warnless_resolve) types
  refine .bind (warnless_liftM (.look _)) fun found => ?_
  rcases found with (_ | _) | id
  · exact warnless_liftM (.fail _ _ _)
  · exact warnless_liftM (.fail _ _ _)
  · exact .pure _

namespace ShiftDecl

theorem warnless_resolveTriggers (automaton : String) (d : ShiftDecl) :
    (d.resolveTriggers automaton).Warnless :=
  warnless_ite (warnless_liftM (.fail _ _ _))
    (warnless_mapM (fun trigger => trigger.warnless_resolve automaton) _)

theorem warnless_addShifts (id : AutomatonId) (target : Endpoint) (functions : List OperationId)
    (span : Span) (names : List Identifier) : (addShifts id target functions span names).Warnless := by
  induction names with
  | nil => exact .pure _
  | cons name rest ih =>
    refine .bind (.attempt (.ofCheck (name.warnless_resolveSource id))) fun source => ?_
    cases source with
    | none => exact ih
    | some source => exact .bind (.modify _) fun _ => ih

theorem warnless_elaborate (id : AutomatonId) (d : ShiftDecl) : (d.elaborate id).Warnless := by
  unfold elaborate
  cases d.target with
  | none => exact warnless_liftM (.reject _ _)
  | some target =>
    refine warnless_ite (warnless_liftM (.reject _ _)) ?_
    refine .bind (warnless_liftM (.look _)) fun automaton => ?_
    refine .bind (warnless_liftM (target.warnless_resolveTarget id)) fun target => ?_
    exact .bind (d.warnless_resolveTriggers automaton) fun ids => warnless_addShifts _ _ _ _ _

end ShiftDecl

theorem VariableDecl.warnless_declareLocal (scope : Scope) (id : OperationId) (d : VariableDecl) :
    (d.declareLocal scope id).Warnless := by
  refine .bind (warnless_liftM (.look _)) fun operation => ?_
  refine warnless_guard (warnless_liftM (.fail _ _ _)) ?_
  refine .bind d.type.warnless_resolve fun type => ?_
  refine .bind (warnless_optionMapM (fun e => warnless_liftM (e.warnless_elaborate scope)) _)
    fun initial => ?_
  exact .bind (warnless_registerUnit _ _) fun _ => .pure _

theorem Statement.warnless_elaborate (scope : Scope) (id : OperationId) (s : Statement) :
    (s.elaborate scope id).Warnless := by
  cases s with
  | assignment target value call span =>
    cases value with
    | none =>
      cases call with
      | none => exact warnless_liftM (.reject _ _)
      | some call =>
        refine .bind (warnless_liftM (target.warnless_resolve scope)) fun target => ?_
        exact .bind (warnless_liftM (call.warnless_resolve scope)) fun _ => .pure _
    | some value =>
      cases call with
      | none =>
        refine .bind (warnless_liftM (target.warnless_resolve scope)) fun target => ?_
        exact .bind (warnless_liftM (value.warnless_elaborate scope)) fun value => .pure _
      | some call => exact warnless_liftM (.reject _ _)
  | action name arguments span =>
    refine .bind (warnless_mapM (fun e => warnless_liftM (e.warnless_elaborate scope)) _) ?_
    exact fun _ => .pure _
  | «variable» declaration => exact declaration.warnless_declareLocal scope id

namespace FunctionDecl

theorem warnless_elaborateContracts (scope : Scope) (id : OperationId) (ds : List ContractDecl) :
    (elaborateContracts scope id ds).Warnless := by
  induction ds with
  | nil => exact .pure _
  | cons d rest ih =>
    refine .bind (.attempt (.ofCheck (d.warnless_elaborate scope))) fun contract => ?_
    cases contract with
    | none => exact ih
    | some contract => exact .bind (.modify _) fun _ => ih

theorem warnless_elaborateBody (scope : Scope) (id : OperationId) (statements : List Statement) :
    (elaborateBody scope id statements).Warnless := by
  induction statements with
  | nil => exact .pure _
  | cons d rest ih =>
    refine .bind (.attempt (d.warnless_elaborate scope id)) fun statement => ?_
    cases statement with
    | none => exact ih
    | some statement => exact .bind (.modify _) fun _ => ih

theorem warnless_elaborate (id : OperationId) (d : FunctionDecl) : (d.elaborate id).Warnless := by
  refine .bind (warnless_liftM (.look _)) fun scope => ?_
  exact .bind (warnless_elaborateContracts scope id _) fun _ => warnless_elaborateBody scope id _

end FunctionDecl

end SyntaxTree

theorem PendingInitializer.warnless_elaborate (scope : Scope) (p : PendingInitializer) :
    (p.elaborate scope).Warnless :=
  .bind (warnless_liftM (p.value.warnless_elaborate scope)) fun _ => .modify _

end LibraryContract
