import LibraryContract.Proofs.Filling
import LibraryContract.Proofs.WrittenType

/-!
# Known types

A table comes to know a type when the type is declared, and the arrays of a type when a type
expression mentions them. No other step registers a type, and without errors every type expression
is looked at. So the known types of a library that compiles are the declared ones and the arrays that
it writes.

* `Build.Learns`: a step that ends cleanly makes known the arrays in a list of type expressions, and
  nothing else;
* `RunsCleanly.knows_iff`: what is known in the end.
-/

namespace LibraryContract

open SyntaxTree

/-- The names of the arrays in a type expression. -/
def SyntaxTree.TypeExpr.arrays (e : TypeExpr) : List String := e.elements.map DataType.arrayName

/-- The table `u` knows what `t` knows and the arrays in the expressions. -/
def SymbolTable.Learns (t : SymbolTable) (es : List TypeExpr) (u : SymbolTable) : Prop :=
  ∀ name, u.Knows name ↔ t.Knows name ∨ ∃ e ∈ es, name ∈ e.arrays

namespace SymbolTable.Learns

variable {t u v : SymbolTable} {es es' : List TypeExpr}

theorem of_types (h : u.types = t.types) : t.Learns [] u := by
  intro name
  rw [knows_iff_contains, knows_iff_contains, h]
  simp

theorem singleton_iff {e : TypeExpr} :
    t.Learns [e] u ↔ ∀ name, u.Knows name ↔ t.Knows name ∨ name ∈ e.arrays := by
  simp only [Learns, List.mem_singleton, exists_eq_left]

theorem trans (hu : t.Learns es u) (hv : u.Learns es' v) : t.Learns (es ++ es') v := by
  intro name
  rw [hv name, hu name, or_assoc]
  simp only [List.mem_append, or_and_right, exists_or]

end SymbolTable.Learns

namespace Build

variable {α β : Type} {t u : SymbolTable} {es es' : List TypeExpr}

/-- Whenever the step ends cleanly, the arrays in the expressions have become known, and nothing
else. -/
def Learns (b : Build α) (es : List TypeExpr) : Prop := ∀ t a u, b.Clean t a u → t.Learns es u

theorem learns_pure (a : α) : (Pure.pure a : Build α).Learns [] := fun _ _ _ h =>
  .of_types (congrArg SymbolTable.types (clean_pure.mp h).2.symm)

theorem learns_liftM (c : Check α) : (liftM c : Build α).Learns [] := fun _ _ _ h =>
  .of_types (congrArg SymbolTable.types (clean_liftM h).2.symm)

theorem learns_bind {b : Build α} {f : α → Build β} (hb : b.Learns es)
    (hf : ∀ a, (f a).Learns es') : (b >>= f).Learns (es ++ es') := by
  intro t c u h
  obtain ⟨a, s, ha, hc⟩ := clean_bind.mp h
  exact (hb t a s ha).trans (hf a s c u hc)

/-- Nothing is learned after the first step. -/
theorem learns_bind_left {b : Build α} {f : α → Build β} (hb : b.Learns es)
    (hf : ∀ a, (f a).Learns []) : (b >>= f).Learns es :=
  List.append_nil es ▸ learns_bind hb hf

/-- Nothing is learned before the last step. -/
theorem learns_bind_right {b : Build α} {f : α → Build β} (hb : b.Learns [])
    (hf : ∀ a, (f a).Learns es) : (b >>= f).Learns es := learns_bind hb hf

theorem learns_liftM_bind {c : Check α} {f : α → Build β}
    (hf : ∀ t a, c.Yields t a → (f a).Learns es) : ((liftM c : Build α) >>= f).Learns es := by
  intro t b u h
  obtain ⟨a, s, ha, hb⟩ := clean_bind.mp h
  obtain ⟨hyields, rfl⟩ := clean_liftM ha
  exact hf t a hyields t b u hb

theorem learns_modify {f : SymbolTable → SymbolTable} (hf : ∀ t, (f t).types = t.types) :
    (modify f).Learns [] := fun _ _ _ h => .of_types (clean_modify.mp h ▸ hf _)

theorem learns_register {f : SymbolTable → Except RegistrationError (α × SymbolTable)} {span : Span}
    (hf : ∀ t a u, f t = .ok (a, u) → u.types = t.types) : (register f span).Learns [] :=
  fun t a u h => .of_types (hf t a u (clean_register.mp h))

theorem learns_registerUnit {f : SymbolTable → Except RegistrationError SymbolTable} {span : Span}
    (hf : ∀ t u, f t = .ok u → u.types = t.types) : (registerUnit f span).Learns [] :=
  fun t _ u h => .of_types (hf t u (clean_registerUnit.mp h))

theorem learns_ite {p : Prop} [Decidable p] {b c : Build α} (hb : p → b.Learns es)
    (hc : ¬p → c.Learns es) : (if p then b else c).Learns es := by
  split
  · exact hb ‹p›
  · exact hc ‹¬p›

/-- A step that fails learns whatever is claimed, since it does not end cleanly. -/
theorem learns_fail (kind : DiagnosticKind) (message : String) (span : Span) :
    (liftM (Check.fail kind message span : Check α) : Build α).Learns es :=
  fun _ _ _ h => (Check.yields_fail.mp (clean_liftM h).1).elim

theorem learns_reject (message : String) (span : Span) :
    (liftM (Check.reject message span : Check α) : Build α).Learns es :=
  fun _ _ _ h => (Check.yields_reject.mp (clean_liftM h).1).elim

theorem learns_guard {p : Prop} [Decidable p] {kind : DiagnosticKind} {message : String} {span : Span}
    {b : Build α} (hb : b.Learns es) :
    (if p then (liftM (Check.fail kind message span : Check PUnit) : Build PUnit) >>= fun _ => b
      else b).Learns es :=
  learns_ite (fun _ => learns_liftM_bind fun _ _ h => (Check.yields_fail.mp h).elim) fun _ => hb

theorem learns_attempt_bind {b : Build α} {f : Option α → Build β} (hcandid : b.Candid)
    (hb : b.Learns es) (hf : ∀ a, (f (some a)).Learns es') : (b.attempt >>= f).Learns (es ++ es') := by
  intro t c u h
  obtain ⟨o, s, ho, hc⟩ := clean_bind.mp h
  obtain ⟨a, rfl, ha⟩ := clean_attempt hcandid ho
  exact (hb t a s ha).trans (hf a s c u hc)

theorem learns_mapM {f : α → Build β} {g : α → List TypeExpr} {items : List α}
    (h : ∀ a ∈ items, (f a).Learns (g a)) : (items.mapM f).Learns (items.flatMap g) := by
  induction items with
  | nil => exact learns_pure _
  | cons a rest ih =>
    rw [List.mapM_cons, List.flatMap_cons]
    refine learns_bind (h a List.mem_cons_self) fun b => ?_
    exact learns_bind_left (ih fun c hc => h c (List.mem_cons_of_mem a hc)) fun _ => learns_pure _

/-- Nothing is learned by steps that each learn nothing. -/
theorem learns_mapM_nil {f : α → Build β} {items : List α} (h : ∀ a ∈ items, (f a).Learns []) :
    (items.mapM f).Learns [] := by
  have hall : (items.mapM f).Learns (items.flatMap fun _ => []) := learns_mapM h
  rwa [List.flatMap_eq_nil_iff.mpr fun _ _ => rfl] at hall

theorem learns_optionMapM {f : α → Build β} {g : α → List TypeExpr} (h : ∀ a, (f a).Learns (g a))
    (item : Option α) : (item.mapM f).Learns (item.toList.flatMap g) := by
  cases item with
  | none => exact learns_pure _
  | some a =>
    rw [Option.toList_some, List.flatMap_singleton]
    exact learns_bind_left (h a) fun _ => learns_pure _

end Build

open Build

/-! ## Steps -/

namespace SyntaxTree

theorem TypeExpr.learns_resolve (e : TypeExpr) : e.resolve.Learns [e] := by
  intro t name u h
  rw [SymbolTable.Learns.singleton_iff]
  induction e generalizing name u with
  | named identifier =>
    obtain ⟨-, -, rfl⟩ := yields_resolve_named.mp h.yields
    exact fun n => (or_iff_left List.not_mem_nil).symm
  | array inner ih =>
    obtain ⟨element, s, hs, hrest⟩ := clean_bind.mp h
    obtain ⟨rfl, -⟩ := resolve_known hs.yields
    obtain ⟨_, v, hmodify, hpure⟩ := clean_bind.mp hrest
    obtain rfl := clean_modify.mp hmodify
    obtain ⟨-, rfl⟩ := clean_pure.mp hpure
    intro n
    rw [SymbolTable.knows_internArray, ih _ _ hs n, or_assoc]
    exact or_congr_right (or_comm.trans List.mem_cons.symm)

theorem TypeExpr.learns_mapM_resolve (es : List TypeExpr) :
    (es.mapM fun e : TypeExpr => e.resolve).Learns es := by
  have h : (es.mapM fun e : TypeExpr => e.resolve).Learns (es.flatMap fun e => [e]) :=
    learns_mapM fun e _ => e.learns_resolve
  rwa [← List.map_eq_flatMap, List.map_id'] at h

theorem VariableDecl.learns_declare (scope : VariableScope) (d : VariableDecl) :
    (d.declare scope).Learns [d.type] := by
  refine learns_bind_left d.type.learns_resolve fun type => learns_registerUnit fun t u hu => ?_
  obtain ⟨-, -, rfl⟩ := SymbolTable.registerVariable_eq_ok.mp hu
  exact t.types_modifyVariables _ _

theorem AnnotationDecl.learns_declare (d : AnnotationDecl) : d.declare.Learns d.typeExprs := by
  refine learns_bind_left ?_ fun parameters => learns_registerUnit fun t u hu => ?_
  · rw [typeExprs, List.map_eq_flatMap]
    refine learns_mapM fun p _ => ?_
    exact learns_bind_left p.type.learns_resolve fun _ => learns_pure _
  · obtain ⟨-, rfl⟩ := SymbolTable.registerAnnotationType_eq_ok.mp hu
    rfl

namespace AutomatonDecl

theorem learns_declareStates (id : AutomatonId) (automaton : String) (seen : List String)
    (states : List StateDecl) : (declareStates id automaton seen states).Learns [] := by
  induction states generalizing seen with
  | nil => exact learns_pure _
  | cons state rest ih =>
    refine learns_ite (fun _ t _ u h => ?_) fun _ => ?_
    · obtain ⟨_, _, hnote, -⟩ := clean_bind.mp h
      exact (clean_note.mp hnote).elim
    · exact learns_bind_left (learns_modify fun _ => rfl) fun _ => ih _

theorem learns_declareVariables (scope : VariableScope) (ds : List VariableDecl) :
    (declareVariables scope ds).Learns (ds.map VariableDecl.type) := by
  induction ds with
  | nil => exact learns_pure _
  | cons d rest ih =>
    refine learns_attempt_bind (d.candid_declare scope) (d.learns_declare scope) fun _ => ?_
    exact learns_bind_left ih fun _ => learns_pure _

theorem learns_declare (d : AutomatonDecl) : d.declare.Learns d.headTypeExprs := by
  refine learns_attempt_bind d.type.candid_resolve d.type.learns_resolve fun type => ?_
  refine learns_bind_right (learns_register fun t id u hu => ?_) fun id => ?_
  · obtain ⟨-, -, rfl⟩ := SymbolTable.registerAutomaton_eq_ok.mp hu
    rfl
  refine learns_bind_right (learns_declareStates id _ _ _) fun _ => ?_
  refine learns_bind (learns_declareVariables _ _) fun parameters => ?_
  exact learns_bind_left (learns_declareVariables _ _) fun _ => learns_pure _

end AutomatonDecl

theorem Parameter.learns_resolve (scope : Scope) (index : Nat) (p : Parameter) :
    (p.resolve scope index).Learns p.typeExprs := by
  refine learns_liftM_bind fun t annotations h => ?_
  rw [isTarget_of_names (resolveAnnotations_names h), typeExprs]
  split
  · refine learns_liftM_bind fun _ target _ => ?_
    exact learns_liftM_bind fun _ _ _ => learns_pure _
  · exact learns_bind_left p.type.learns_resolve fun _ => learns_pure _

theorem Parameter.learns_resolveAll (scope : Scope) (words : String) (seen : List String)
    (index : Nat) (ps : List Parameter) :
    (Parameter.resolveAll scope words seen index ps).Learns (ps.flatMap Parameter.typeExprs) := by
  induction ps generalizing seen index with
  | nil => exact learns_pure _
  | cons p rest ih =>
    refine learns_guard ?_
    rw [List.flatMap_cons]
    refine learns_bind (p.learns_resolve scope index) fun argument => ?_
    exact learns_bind_left (ih _ _) fun _ => learns_pure _

namespace FunctionDecl

theorem learns_signature (d : FunctionDecl) (owner : AutomatonId) :
    (d.signature owner).Learns d.typeExprs := by
  refine learns_liftM_bind fun _ _ _ => learns_liftM_bind fun _ annotations _ => ?_
  refine learns_bind (Parameter.learns_resolveAll _ _ _ _ _) fun arguments => ?_
  refine learns_bind_left ?_ fun returnType => learns_liftM_bind fun _ _ _ => learns_pure _
  have h := learns_optionMapM (fun e : TypeExpr => e.learns_resolve) d.returnType
  rwa [← List.map_eq_flatMap, List.map_id'] at h

theorem learns_register (options : Options) (d : FunctionDecl) (enclosing : Option AutomatonId) :
    (d.register options enclosing).Learns d.typeExprs := by
  refine learns_liftM_bind fun _ owner _ => learns_bind_left (d.learns_signature owner) fun s => ?_
  refine learns_bind_right (Build.learns_register fun t r u hu => ?_) fun r => ?_
  · obtain ⟨owner, -, ⟨-, -, rfl⟩ | ⟨_, _, -, -, -, -, -, rfl⟩⟩ :=
      SymbolTable.registerOperation_cases hu
    · rfl
    · rfl
  refine learns_bind_right (fun t _ u hu => ?_) fun _ => learns_pure r
  have hresult := hu.yields.2
  rw [run_declareResult] at hresult
  exact .of_types (hresult ▸ rfl)

end FunctionDecl

theorem Trigger.learns_resolve (automaton : String) (trigger : Trigger) :
    (trigger.resolve automaton).Learns trigger.typeExprs := by
  refine learns_bind_left ?_ fun types => learns_liftM_bind fun _ found _ => ?_
  · have h := learns_optionMapM TypeExpr.learns_mapM_resolve trigger.argumentTypes
    cases htypes : trigger.argumentTypes <;> simpa [typeExprs, htypes] using h
  · rcases found with (_ | _) | id
    · exact learns_fail _ _ _
    · exact learns_fail _ _ _
    · exact learns_pure id

namespace ShiftDecl

theorem learns_addShifts (id : AutomatonId) (target : Endpoint) (functions : List OperationId)
    (span : Span) (names : List Identifier) :
    (addShifts id target functions span names).Learns [] := by
  induction names with
  | nil => exact learns_pure _
  | cons name rest ih =>
    refine learns_attempt_bind (candid_ofCheck (name.candid_resolveSource id)) (learns_liftM _)
      fun source => ?_
    exact learns_bind_right (learns_modify fun _ => rfl) fun _ => ih

theorem learns_elaborate (id : AutomatonId) (d : ShiftDecl) : (d.elaborate id).Learns d.typeExprs := by
  unfold elaborate
  cases d.target with
  | none => exact learns_reject _ _
  | some target =>
    refine learns_ite (fun _ => learns_reject _ _) fun _ => ?_
    refine learns_liftM_bind fun _ automaton _ => learns_liftM_bind fun _ target _ => ?_
    refine learns_bind_left ?_ fun ids => learns_addShifts _ _ _ _ _
    refine learns_ite (fun _ => learns_fail _ _ _) fun _ => ?_
    exact learns_mapM fun trigger _ => trigger.learns_resolve automaton

end ShiftDecl

theorem VariableDecl.learns_declareLocal (scope : Scope) (id : OperationId) (d : VariableDecl) :
    (d.declareLocal scope id).Learns [d.type] := by
  refine learns_liftM_bind fun _ operation _ => learns_guard ?_
  refine learns_bind_left d.type.learns_resolve fun type => ?_
  refine learns_bind_right ?_ fun initial => learns_bind_left ?_ fun _ => learns_pure _
  · have h := learns_optionMapM (fun e : Expr => learns_liftM (e.elaborate scope)) d.initializer
    rwa [List.flatMap_eq_nil_iff.mpr fun _ _ => rfl] at h
  · refine learns_registerUnit fun t u hu => ?_
    obtain ⟨-, -, rfl⟩ := SymbolTable.registerVariable_eq_ok.mp hu
    exact t.types_modifyVariables _ _

theorem Statement.learns_elaborate (scope : Scope) (id : OperationId) (s : Statement) :
    (s.elaborate scope id).Learns s.typeExprs := by
  cases s with
  | assignment target value call span =>
    cases value with
    | none =>
      cases call with
      | none => exact learns_reject _ _
      | some call =>
        exact learns_liftM_bind fun _ target _ => learns_liftM_bind fun _ _ _ => learns_pure _
    | some value =>
      cases call with
      | none =>
        exact learns_liftM_bind fun _ target _ => learns_liftM_bind fun _ _ _ => learns_pure _
      | some call => exact learns_reject _ _
  | action name arguments span =>
    exact learns_bind_right (learns_mapM_nil fun e _ => learns_liftM (e.elaborate scope))
      fun _ => learns_pure _
  | «variable» declaration => exact declaration.learns_declareLocal scope id

namespace FunctionDecl

theorem learns_elaborateContracts (scope : Scope) (id : OperationId) (ds : List ContractDecl) :
    (elaborateContracts scope id ds).Learns [] := by
  induction ds with
  | nil => exact learns_pure _
  | cons d rest ih =>
    refine learns_attempt_bind (candid_ofCheck (d.candid_elaborate scope)) (learns_liftM _)
      fun contract => ?_
    exact learns_bind_right (learns_modify fun _ => rfl) fun _ => ih

theorem learns_elaborateBody (scope : Scope) (id : OperationId) (statements : List Statement) :
    (elaborateBody scope id statements).Learns (statements.flatMap Statement.typeExprs) := by
  induction statements with
  | nil => exact learns_pure _
  | cons d rest ih =>
    rw [List.flatMap_cons]
    refine learns_attempt_bind (d.candid_elaborate scope id) (d.learns_elaborate scope id)
      fun statement => ?_
    exact learns_bind_right (learns_modify fun _ => rfl) fun _ => ih

theorem learns_elaborate (id : OperationId) (d : FunctionDecl) :
    (d.elaborate id).Learns d.bodyTypeExprs := by
  refine learns_liftM_bind fun _ scope _ => ?_
  exact learns_bind_right (learns_elaborateContracts scope id _) fun _ =>
    learns_elaborateBody scope id _

end FunctionDecl

end SyntaxTree

theorem PendingInitializer.learns_elaborate (scope : Scope) (p : PendingInitializer) :
    (p.elaborate scope).Learns [] :=
  learns_liftM_bind fun _ _ _ => learns_modify fun t => t.types_modifyVariables _ _

/-! ## Runs -/

/-- A declared type is known under its name, and so are the arrays that it mentions. -/
theorem SymbolTable.DeclaresTypes.knows_iff {t : SymbolTable} {ds : List TypeDecl}
    (h : t.DeclaresTypes ds) (hw : t.WellFormed) (name : String) :
    t.Knows name ↔ (∃ d ∈ ds, d.name.name = name) ∨
      ∃ e ∈ ds.flatMap TypeDecl.mentioned, name ∈ e.arrays := by
  constructor
  · rintro ⟨type, htype⟩
    have hname := hw.type_name name type htype
    rcases h.type?_cases htype with ⟨d, hd, rfl⟩ | ⟨element, rfl, d, hd, e, he, helement⟩
    · exact .inl ⟨d, hd, d.name_toDataType.symm.trans hname⟩
    · exact .inr ⟨e, List.mem_flatMap.mpr ⟨d, hd, he⟩, List.mem_map.mpr ⟨element, helement, hname⟩⟩
  · rintro (⟨d, hd, rfl⟩ | ⟨e, he, hname⟩)
    · exact ⟨_, d.name_toDataType ▸ h.type?_toDataType hw hd⟩
    · obtain ⟨d, hd, he⟩ := List.mem_flatMap.mp he
      obtain ⟨element, helement, rfl⟩ := List.mem_map.mp hname
      exact h.interned d hd e he element helement

namespace Run

variable {options : Options} {library : SyntaxTree.Library}

theorem learns_enter (options : Options) (item : Placed) :
    (enter options item).Learns item.1.typeExprs :=
  learns_bind_left (item.1.learns_register options item.2) fun _ => learns_pure _

theorem learns_completeAutomaton (a : PendingAutomaton) :
    (completeAutomaton a).Learns (a.declaration.shifts.flatMap ShiftDecl.typeExprs) := by
  refine learns_bind_right (learns_mapM_nil fun p _ => p.learns_elaborate (.inAutomaton a.id)) fun _ =>
    learns_bind_left ?_ fun _ => learns_pure _
  exact learns_mapM fun shift _ => shift.learns_elaborate a.id

/-- A declaration with a body is the last one of its operation. -/
theorem mem_recordOperations_of_body {t : SymbolTable} {entries : List LedgerEntry}
    (h : t.Explained entries) {e : LedgerEntry} (he : e ∈ entries) (hbody : e.2.1.body.isSome = true) :
    ⟨e.1.id, e.2.1⟩ ∈ recordOperations entries := by
  refine (mem_recordOperations h.sequential).mpr ⟨e.2, ?_, rfl⟩
  obtain ⟨o, ho⟩ := h.known e he
  have hdeclared := mem_declarationsOf_self he
  have hstems := h.stems _ o ho
  generalize declarationsOf entries e.1.id = items at hstems hdeclared
  cases hstems with
  | created _ _ =>
    rw [List.mem_singleton.mp hdeclared]
    rfl
  | completed _ _ firstBody _ _ _ _ =>
    rcases List.mem_pair.mp hdeclared with heq | heq
    · rw [heq, firstBody] at hbody
      cases hbody
    · rw [heq]
      rfl

/-- All bodies that are written are looked at. -/
theorem RunsCleanly.mem_bodyTypeExprs (h : RunsCleanly options library) (e : TypeExpr) :
    e ∈ (withSignatures options library).1.flatMap (fun p => p.declaration.bodyTypeExprs) ↔
      e ∈ library.allFunctions.flatMap FunctionDecl.bodyTypeExprs := by
  have hexplained := withSignatures_explained options library
  have hdeclared : ∀ d, d ∈ library.allFunctions ↔ ∃ e ∈ ledger options library, e.2.1 = d := by
    intro d
    rw [Library.mem_allFunctions, ← h.ledger_placed]
    simp only [List.mem_map, exists_exists_and_eq_and]
  rw [withSignatures_recorded, List.mem_flatMap, List.mem_flatMap]
  constructor
  · rintro ⟨p, hp, he⟩
    obtain ⟨last, hlast, hdeclaration⟩ := (mem_recordOperations hexplained.sequential).mp hp
    obtain ⟨entry, hentry, rfl⟩ := List.mem_map.mp (List.mem_of_getLast? hlast)
    exact ⟨entry.2.1, (hdeclared _).mpr ⟨entry, (List.mem_filter.mp hentry).1, rfl⟩,
      hdeclaration ▸ he⟩
  · rintro ⟨d, hd, he⟩
    obtain ⟨entry, hentry, rfl⟩ := (hdeclared d).mp hd
    have hbody : entry.2.1.body.isSome = true := by
      cases hnone : entry.2.1.body with
      | some _ => rfl
      | none => simp [FunctionDecl.bodyTypeExprs, hnone] at he
    exact ⟨_, mem_recordOperations_of_body hexplained hentry hbody, he⟩

theorem RunsCleanly.mem_signatureTypeExprs (h : RunsCleanly options library) (e : TypeExpr) :
    e ∈ (placed library).flatMap (fun item => item.1.typeExprs) ↔
      e ∈ library.allFunctions.flatMap FunctionDecl.typeExprs := by
  rw [h.placed_eq, List.mem_flatMap, List.mem_flatMap]
  simp only [Library.mem_allFunctions, exists_exists_and_eq_and]

theorem RunsCleanly.mem_shiftTypeExprs (h : RunsCleanly options library) (e : TypeExpr) :
    e ∈ (withAutomata library).1.flatMap
        (fun a => a.declaration.shifts.flatMap ShiftDecl.typeExprs) ↔
      e ∈ library.automata.flatMap fun d => d.shifts.flatMap ShiftDecl.typeExprs := by
  rw [h.registers.2, List.mem_flatMap, List.mem_flatMap, Library.pendingAutomata]
  constructor
  · rintro ⟨a, ha, he⟩
    obtain ⟨i, hi, rfl⟩ := List.mem_mapIdx.mp ha
    exact ⟨_, List.getElem_mem hi, he⟩
  · rintro ⟨d, hd, he⟩
    obtain ⟨i, hi, rfl⟩ := List.getElem_of_mem hd
    exact ⟨_, List.mem_mapIdx.mpr ⟨i, hi, rfl⟩, he⟩

/-- The known types of a library that compiles are the declared ones and the arrays that it writes. -/
theorem RunsCleanly.knows_iff (h : RunsCleanly options library) (name : String) :
    (analyze options library).table.Knows name ↔
      (∃ d ∈ library.types, d.name.name = name) ∨ ∃ e ∈ library.typeExprs, name ∈ e.arrays := by
  obtain ⟨_, hannotations⟩ := h.annotations
  obtain ⟨_, hglobals⟩ := h.globals
  obtain ⟨_, hinitials⟩ := h.initials
  obtain ⟨_, hshifts⟩ := h.shifts
  obtain ⟨_, hbodies⟩ := h.bodies
  have hbefore := (learns_mapM (fun d _ => AnnotationDecl.learns_declare d) _ _ _ hannotations).trans
    ((learns_mapM (fun d _ => VariableDecl.learns_declare .global d) _ _ _ hglobals).trans
      (learns_mapM (fun d _ => AutomatonDecl.learns_declare d) _ _ _ h.automata))
  have hafter := ((learns_mapM (fun item _ => learns_enter options item) _ _ _ h.signatures).trans
    (learns_mapM_nil (fun p _ => p.learns_elaborate .global) _ _ _ hinitials)).trans
      ((learns_mapM (fun a _ => learns_completeAutomaton a) _ _ _ hshifts).trans
        (learns_mapM (fun p _ => p.declaration.learns_elaborate p.id) _ _ _ hbodies))
  rw [hbefore.trans hafter name, h.declaresTypes.1.knows_iff (withTypes_wellFormed library), or_assoc,
    ← exists_or]
  refine or_congr_right (exists_congr fun e => ?_)
  rw [← or_and_right, Library.typeExprs]
  refine and_congr_left fun _ => ?_
  simp only [List.mem_append, h.mem_signatureTypeExprs, h.mem_shiftTypeExprs, h.mem_bodyTypeExprs,
    ← List.map_eq_flatMap, List.not_mem_nil, or_false, or_assoc]

end Run

end LibraryContract
