import LibraryContract.Proofs.Mirror
import LibraryContract.Proofs.Overload

/-!
# What is left for later

Once all names are registered, an analysis goes through what the declarations have left open: values
that variables start from, shifts, contracts and bodies. Each of these steps adds to one place of the
table and keeps everything else, so the table can be followed by four statements:

* `SymbolTable.Agrees`: the heads of all declarations stay as they are;
* `SymbolTable.Initialized`: a variable has a value exactly when one was looked at;
* `SymbolTable.Shifted`: an automaton has the shifts of the declarations looked at;
* `SymbolTable.Filled`: an operation has the contracts and statements of the declarations looked at.
-/

namespace LibraryContract

open SyntaxTree Build

/-! ## Lists in step -/

section Lists

variable {α β : Type} {R : α → β → Prop} {l : List α} {m : List β}

theorem forall₂_modify (h : List.Forall₂ R l m) (i : Nat) {f : β → β}
    (hf : ∀ a b, R a b → R a (f b)) : List.Forall₂ R l (m.modify i f) := by
  induction h generalizing i with
  | nil => cases i <;> exact .nil
  | cons hab hrest ih =>
    cases i with
    | zero => exact .cons (hf _ _ hab) hrest
    | succ i => exact .cons hab (ih i)

theorem forall₂_mem (h : List.Forall₂ R l m) :
    List.Forall₂ (fun a b => a ∈ l ∧ b ∈ m ∧ R a b) l m := by
  induction h with
  | nil => exact .nil
  | cons hab _ ih =>
    refine .cons ⟨List.mem_cons_self, List.mem_cons_self, hab⟩ (ih.imp ?_)
    rintro a b ⟨ha, hb, hR⟩
    exact ⟨List.mem_cons_of_mem _ ha, List.mem_cons_of_mem _ hb, hR⟩

theorem map_modify_of_eq {γ : Type} (g : β → γ) (m : List β) (i : Nat) {f : β → β}
    (hf : ∀ b, g (f b) = g b) : (m.modify i f).map g = m.map g := by
  induction m generalizing i with
  | nil => cases i <;> rfl
  | cons b m ih =>
    cases i with
    | zero => exact congrArg (· :: m.map g) (hf b)
    | succ i => exact congrArg (g b :: ·) (ih i)

end Lists

/-! ## Registering operations keeps the other names -/

theorem SyntaxTree.AutomatonDecl.Registers.addOperation {d : AutomatonDecl} {a : Automaton}
    (h : d.Registers a) (kind : OperationKind) (id : OperationId) :
    d.Registers (a.addOperation kind id) := by
  cases kind <;> exact ⟨h.name, h.type, h.span, h.states, h.shifts, h.constructorVariables,
    h.instanceVariables⟩

theorem Signs.registers {t u : SymbolTable} {types : List TypeDecl}
    {annotations : List AnnotationDecl} {globals : List VariableDecl} {automata : List AutomatonDecl}
    (h : Signs t u) (ht : t.Registers types annotations globals automata) :
    u.Registers types annotations globals automata := by
  cases h with
  | array _ =>
    exact ⟨(t.namedTypes_internArray _).trans ht.types, ht.annotations, ht.globals, ht.automata⟩
  | operation _ h =>
    obtain ⟨owner, -, ⟨-, -, rfl⟩ | ⟨id, declared, -, -, -, -, -, rfl⟩⟩ :=
      SymbolTable.registerOperation_cases h
    · refine ⟨ht.types, ht.annotations, ht.globals, ?_⟩
      exact forall₂_modify ht.automata _ fun _ _ ha => ha.addOperation _ _
    · exact ⟨ht.types, ht.annotations, ht.globals, ht.automata⟩

/-! ## The heads of declarations -/

/-- A variable without its value. -/
def Variable.head (v : Variable) : Variable := { v with initial := none }

/-- An automaton with its states only. -/
def Automaton.head (a : Automaton) : Automaton :=
  { Automaton.skeleton a.id a.name a.type a.span with states := a.states }

/-- An automaton with more shifts. -/
def Automaton.addShifts (new : List Shift) (a : Automaton) : Automaton :=
  { a with shifts := a.shifts ++ new }

/-- Two tables have the same types, annotations, automata and variables, apart from what is looked
at after all names are registered. -/
structure SymbolTable.Agrees (t u : SymbolTable) : Prop where
  types : u.namedTypes = t.namedTypes
  annotations : u.annotations = t.annotations
  automata : u.automata.map Automaton.head = t.automata.map Automaton.head
  collections : ∀ home, home.OutsideOperations →
    (u.variablesIn home).values.map Variable.head = (t.variablesIn home).values.map Variable.head

namespace SymbolTable

variable {t u v : SymbolTable}

theorem Agrees.refl (t : SymbolTable) : t.Agrees t := ⟨rfl, rfl, rfl, fun _ _ => rfl⟩

theorem Agrees.trans (h : t.Agrees u) (h' : u.Agrees v) : t.Agrees v where
  types := h'.types.trans h.types
  annotations := h'.annotations.trans h.annotations
  automata := h'.automata.trans h.automata
  collections := fun home hh => (h'.collections home hh).trans (h.collections home hh)

theorem agrees_internArray (t : SymbolTable) (element : String) :
    t.Agrees (t.internArray element) where
  types := t.namedTypes_internArray element
  annotations := rfl
  automata := rfl
  collections := fun home _ => by cases home <;> rfl

theorem agrees_modifyOperation (t : SymbolTable) (id : OperationId) (f : Operation → Operation) :
    t.Agrees (t.modifyOperation id f) where
  types := rfl
  annotations := rfl
  automata := rfl
  collections := fun home hh => by rw [variablesIn_outside_modifyOperation t id f hh]

theorem variablesIn_addShifts (t : SymbolTable) (id : AutomatonId) (new : List Shift)
    (home : VariableScope) :
    (t.modifyAutomaton id (Automaton.addShifts new)).variablesIn home = t.variablesIn home :=
  t.variablesIn_modifyAutomaton id (f := Automaton.addShifts new) (fun _ => rfl) (fun _ => rfl) home

theorem agrees_addShifts (t : SymbolTable) (id : AutomatonId) (new : List Shift) :
    t.Agrees (t.modifyAutomaton id (Automaton.addShifts new)) where
  types := rfl
  annotations := rfl
  automata := map_modify_of_eq _ _ _ fun _ => rfl
  collections := fun home _ => by rw [variablesIn_addShifts]

theorem head_setInitial (m : OrderedMap String Variable) (name : String) (value : Value) :
    (m.modify name fun v => { v with initial := some value }).values.map Variable.head =
      m.values.map Variable.head := by
  simp only [OrderedMap.values, OrderedMap.modify, List.map_map]
  refine List.map_congr_left fun e _ => ?_
  simp only [Function.comp_apply, OrderedMap.updateEntry]
  split <;> rfl

theorem agrees_setInitial (t : SymbolTable) (home : VariableScope) (name : String) (value : Value) :
    t.Agrees (t.setInitial home name value) where
  types := t.namedTypes_modifyVariables home _
  annotations := by cases home <;> rfl
  automata := by
    cases home with
    | automaton owner => exact map_modify_of_eq _ _ _ fun _ => rfl
    | constructorParameter owner => exact map_modify_of_eq _ _ _ fun _ => rfl
    | _ => rfl
  collections := by
    intro home' _
    rcases t.variablesIn_modifyVariables home home' _ with hsame | ⟨-, hchanged⟩
    · exact congrArg (fun m => m.values.map Variable.head) hsame
    · refine (congrArg (fun m => m.values.map Variable.head) hchanged).trans ?_
      exact head_setInitial _ _ _

end SymbolTable

theorem Elaborates.agrees {t u : SymbolTable} (h : Elaborates t u) : t.Agrees u := by
  cases h with
  | array _ => exact t.agrees_internArray _
  | initial name _ _ _ _ => exact t.agrees_setInitial _ name _
  | @shift id s _ => exact t.agrees_addShifts id [s]
  | contract _ _ => exact t.agrees_modifyOperation _ _
  | localVariable _ _ hv _ _ _ h =>
    obtain ⟨-, -, rfl⟩ := SymbolTable.registerVariable_eq_ok.mp h
    rw [hv]
    exact t.agrees_modifyOperation _ _
  | statement _ _ _ _ => exact t.agrees_modifyOperation _ _

/-! ## Initial values -/

/-- A variable outside of operations has a value exactly when its value was looked at. -/
def SymbolTable.Initialized (done : List PendingInitializer) (t : SymbolTable) : Prop :=
  ∀ home, home.OutsideOperations → ∀ name v, (t.variablesIn home).get? name = some v →
    (v.initial.isSome = true ↔ ∃ p ∈ done, p.scope = home ∧ p.name = name)

namespace SymbolTable

variable {t u : SymbolTable} {done : List PendingInitializer}

theorem houses_of_get? {home : VariableScope} (hh : home.OutsideOperations) {name : String}
    {v : Variable} (h : (t.variablesIn home).get? name = some v) : t.Houses home := by
  have hplace : ∀ (owner : AutomatonId) (g : Automaton → OrderedMap String Variable),
      (((t.automaton? owner).map g).getD .empty).get? name = some v →
        ∃ a, t.automaton? owner = some a := by
    intro owner g hget
    cases ha : t.automaton? owner with
    | none =>
      rw [ha] at hget
      cases hget
    | some a => exact ⟨a, rfl⟩
  cases home with
  | global => trivial
  | automaton owner => exact hplace owner _ h
  | constructorParameter owner => exact hplace owner _ h
  | _ => exact hh.elim

theorem get?_setInitial (t : SymbolTable) {home scope : VariableScope}
    (hh : home.OutsideOperations) (hs : scope.OutsideOperations) (n name : String) (value : Value) :
    ((t.setInitial scope n value).variablesIn home).get? name =
      if scope = home ∧ name = n then
        ((t.variablesIn home).get? name).map fun v => { v with initial := some value }
      else (t.variablesIn home).get? name := by
  have hcollection : ∀ scope : VariableScope, scope.OutsideOperations → scope.collection = scope := by
    intro scope h
    cases scope <;> first | rfl | exact h.elim
  rcases t.variablesIn_modifyVariables scope home
    (fun m => m.modify n fun v => { v with initial := some value }) with hsame | ⟨hsame, hchanged⟩
  · rw [setInitial, hsame]
    split
    · rename_i heq
      obtain ⟨rfl, rfl⟩ := heq
      cases hget : (t.variablesIn scope).get? name with
      | none => rfl
      | some w =>
        rw [(houses_of_get? hs hget).variablesIn_modifyVariables] at hsame
        have hself := OrderedMap.get?_modify_self (t.variablesIn scope) name
          fun v => { v with initial := some value }
        rw [hsame, hget] at hself
        exact hself
    · rfl
  · rw [hcollection home hh, hcollection scope hs] at hsame
    subst hsame
    rw [setInitial, hchanged, OrderedMap.get?_modify]
    simp only [true_and]

theorem Initialized.of_variablesIn (h : t.Initialized done)
    (hu : ∀ home, home.OutsideOperations → u.variablesIn home = t.variablesIn home) :
    u.Initialized done := by
  intro home hh name v hv
  rw [hu home hh] at hv
  exact h home hh name v hv

theorem Initialized.setInitial (h : t.Initialized done) {p : PendingInitializer}
    (hp : p.scope.OutsideOperations) (value : Value) :
    (t.setInitial p.scope p.name value).Initialized (done ++ [p]) := by
  intro home hh name v hv
  have hlater : (∃ q ∈ done ++ [p], q.scope = home ∧ q.name = name) ↔
      (∃ q ∈ done, q.scope = home ∧ q.name = name) ∨ p.scope = home ∧ p.name = name := by
    simp only [List.mem_append, List.mem_singleton, or_and_right, exists_or, exists_eq_left]
  rw [get?_setInitial t hh hp] at hv
  rw [hlater]
  split at hv
  · rename_i hself
    obtain ⟨w, hw, rfl⟩ := Option.map_eq_some_iff.mp hv
    exact iff_of_true rfl (Or.inr ⟨hself.1, hself.2.symm⟩)
  · rename_i hother
    have hnot : ¬(p.scope = home ∧ p.name = name) := by
      rintro ⟨hscope, hname⟩
      exact hother ⟨hscope, hname.symm⟩
    rw [or_iff_left hnot]
    exact h home hh name v hv

end SymbolTable

/-! ## Shifts -/

namespace SyntaxTree

variable {t u : SymbolTable} {id : AutomatonId}

theorem Identifier.resolveSource_named {name : Identifier} {source : Endpoint}
    (h : (name.resolveSource id).Yields t source) : source = name.toSource := by
  unfold Identifier.toSource
  rcases Identifier.resolveSource_yields h with ⟨hany, rfl⟩ | ⟨hany, rfl, -⟩
  · rw [if_pos hany]
  · rw [if_neg hany]

theorem Identifier.resolveTarget_named {name : Identifier} {target : Endpoint}
    (h : (name.resolveTarget id).Yields t target) : target = name.toTarget := by
  unfold Identifier.toTarget
  rcases Identifier.resolveTarget_yields h with ⟨hstay, rfl⟩ | ⟨hstay, rfl, -⟩
  · rw [if_pos hstay]
  · rw [if_neg hstay]

end SyntaxTree

namespace SymbolTable

theorem addShifts_nil (t : SymbolTable) (id : AutomatonId) :
    t.modifyAutomaton id (Automaton.addShifts []) = t := by
  have hid : Automaton.addShifts [] = fun a => a := by
    funext a
    rw [Automaton.addShifts, List.append_nil]
  rw [hid, modifyAutomaton]
  exact congrArg (fun as => { t with automata := as }) (List.modify_id _ _)

theorem addShifts_addShifts (t : SymbolTable) (id : AutomatonId) (xs ys : List Shift) :
    (t.modifyAutomaton id (Automaton.addShifts xs)).modifyAutomaton id (Automaton.addShifts ys) =
      t.modifyAutomaton id (Automaton.addShifts (xs ++ ys)) := by
  have hcomp : Automaton.addShifts ys ∘ Automaton.addShifts xs = Automaton.addShifts (xs ++ ys) := by
    funext a
    simp only [Function.comp_apply, Automaton.addShifts, List.append_assoc]
  simp only [modifyAutomaton, List.modify_modify_eq, hcomp]

end SymbolTable

namespace SyntaxTree

variable {t u : SymbolTable} {id : AutomatonId} {a : Unit}

/-- The shift of an automaton mirrors its declaration, and the operations that cause it are those that
the declaration names. -/
structure ShiftDecl.Becomes (t : SymbolTable) (id : AutomatonId) (part : ShiftDecl × Identifier)
    (s : Shift) : Prop where
  mirrors : part.1.Mirrors part.2 s
  functions : List.Forall₂ (Trigger.Names t (((t.automaton? id).map Automaton.name).getD ""))
    part.1.functions s.functions

/-- Shifts that are added do not change what triggers name. -/
theorem ShiftDecl.Becomes.of_addShifts {types : TypeRegistry} {new : List Shift}
    {part : ShiftDecl × Identifier} {s : Shift}
    (h : ShiftDecl.Becomes ((t.setTypes types).modifyAutomaton id (Automaton.addShifts new)) id part s) :
    ShiftDecl.Becomes t id part s := by
  obtain ⟨hmirrors, hfunctions⟩ := h
  have hname : (((t.setTypes types).modifyAutomaton id (Automaton.addShifts new)).automaton? id).map
      Automaton.name = (t.automaton? id).map Automaton.name :=
    (t.setTypes types).map_automaton?_modifyAutomaton id id fun _ => rfl
  rw [hname] at hfunctions
  exact ⟨hmirrors, hfunctions⟩

theorem Trigger.mapM_resolve_names {automaton : String} {triggers : List Trigger}
    {ids : List OperationId}
    (h : (triggers.mapM fun trigger : Trigger => trigger.resolve automaton).Yields t ids u) :
    List.Forall₂ (Trigger.Names t automaton) triggers ids := by
  induction triggers generalizing t ids with
  | nil =>
    obtain ⟨rfl, -⟩ := yields_mapM_nil.mp h
    exact .nil
  | cons trigger rest ih =>
    obtain ⟨first, s, others, hfirst, hrest, rfl⟩ := yields_mapM_cons.mp h
    obtain ⟨types, rfl⟩ := Interns.types_only (hfirst.reaches (trigger.resolve_within automaton t))
    -- the types that a table knows do not matter for what triggers name
    exact .cons (Trigger.resolve_names hfirst) ((ih hrest).imp fun _ _ hnames => hnames)

theorem ShiftDecl.resolveTriggers_names {automaton : String} {d : ShiftDecl} {ids : List OperationId}
    (h : (d.resolveTriggers automaton).Yields t ids u) :
    List.Forall₂ (Trigger.Names t automaton) d.functions ids := by
  rw [resolveTriggers, yields_ite] at h
  split at h
  · simp at h
  · exact Trigger.mapM_resolve_names h

end SyntaxTree

namespace SyntaxTree.ShiftDecl

variable {t u : SymbolTable} {id : AutomatonId} {a : Unit}

theorem addShifts_clean {target : Endpoint} {functions : List OperationId} {span : Span}
    {names : List Identifier} (h : (addShifts id target functions span names).Clean t a u) :
    u = t.modifyAutomaton id (Automaton.addShifts
      (names.map fun name => ⟨name.toSource, target, functions, span⟩)) := by
  induction names generalizing t with
  | nil =>
    obtain ⟨-, rfl⟩ := clean_pure.mp h
    exact (t.addShifts_nil id).symm
  | cons name rest ih =>
    rw [addShifts] at h
    obtain ⟨attempted, v, hattempt, hrest⟩ := clean_bind.mp h
    obtain ⟨source, rfl, hsource⟩ :=
      clean_attempt (candid_ofCheck (name.candid_resolveSource id)) hattempt
    obtain ⟨hyields, rfl⟩ := clean_ofCheck hsource
    obtain rfl := Identifier.resolveSource_named hyields
    obtain ⟨_, w, hmodify, hmore⟩ := clean_bind.mp hrest
    obtain rfl := clean_modify.mp hmodify
    rw [ih hmore]
    exact t.addShifts_addShifts id [_] _

/-- The shifts of a declaration come last, one from each source. -/
theorem elaborate_clean {d : ShiftDecl} (h : (d.elaborate id).Clean t a u) :
    ∃ types new, u = (t.setTypes types).modifyAutomaton id (Automaton.addShifts new) ∧
      List.Forall₂ (ShiftDecl.Becomes t id) d.parts new := by
  rw [elaborate] at h
  cases htarget : d.target with
  | none =>
    rw [htarget] at h
    exact (Check.yields_reject.mp (clean_liftM h).1).elim
  | some name =>
    rw [htarget] at h
    simp only [clean_ite] at h
    split at h
    · exact (Check.yields_reject.mp (clean_liftM h).1).elim
    · obtain ⟨automaton, v, hlook, h⟩ := clean_bind.mp h
      obtain ⟨hautomaton, rfl⟩ := clean_liftM hlook
      obtain ⟨target, w, hresolve, h⟩ := clean_bind.mp h
      obtain ⟨hyields, rfl⟩ := clean_liftM hresolve
      obtain rfl := Identifier.resolveTarget_named hyields
      obtain ⟨functions, x, htriggers, hadd⟩ := clean_bind.mp h
      have hwithin := htriggers.yields.reaches (d.resolveTriggers_within automaton t)
      have hnames := resolveTriggers_names htriggers.yields
      obtain ⟨-, types, rfl⟩ := Interns.setTypes hwithin
      refine ⟨types, _, addShifts_clean hadd, ?_⟩
      rw [parts, List.forall₂_map_left_iff, List.forall₂_map_right_iff, List.forall₂_same]
      intro source _
      refine ⟨⟨rfl, by rw [htarget]; rfl, hnames.length_eq.symm, rfl⟩, ?_⟩
      rw [Check.yields_look.mp hautomaton]
      exact hnames

theorem mapM_elaborate_clean {ds : List ShiftDecl} {results : List Unit}
    (h : (ds.mapM fun d : ShiftDecl => d.elaborate id).Clean t results u) :
    ∃ types new, u = (t.setTypes types).modifyAutomaton id (Automaton.addShifts new) ∧
      List.Forall₂ (ShiftDecl.Becomes t id) (ds.flatMap parts) new := by
  refine clean_mapM_invariant (I := fun ds _ u => ∃ types new,
    u = (t.setTypes types).modifyAutomaton id (Automaton.addShifts new) ∧
      List.Forall₂ (ShiftDecl.Becomes t id) (ds.flatMap parts) new) ?_ h ?_
  · rintro d - done _ _ _ u ⟨types, old, rfl, hold⟩ hd
    obtain ⟨types', new, rfl, hnew⟩ := elaborate_clean hd
    refine ⟨types', old ++ new, ?_, ?_⟩
    · rw [← SymbolTable.addShifts_addShifts]
      rfl
    · rw [List.flatMap_append, List.flatMap_singleton]
      exact List.rel_append hold (hnew.imp fun _ _ hs => hs.of_addShifts)
  · exact ⟨t.types, [], (t.addShifts_nil id).symm, .nil⟩

end SyntaxTree.ShiftDecl

/-! ## Contracts and bodies -/

/-- An operation with more contracts and statements, and with its locals changed. -/
def Operation.fill (contracts : List Contract) (statements : List LibraryContract.Statement)
    (f : OrderedMap String Variable → OrderedMap String Variable) (o : Operation) : Operation :=
  { o with
    contracts := o.contracts ++ contracts
    statements := o.statements ++ statements
    locals := f o.locals }

namespace SymbolTable

theorem fill_nil (t : SymbolTable) (id : OperationId) :
    t.modifyOperation id (Operation.fill [] [] fun m => m) = t := by
  have hid : (Operation.fill [] [] fun m => m) = fun o => o := by
    funext o
    rw [Operation.fill, List.append_nil, List.append_nil]
  rw [hid, modifyOperation_id]

theorem fill_locals (t : SymbolTable) (id : OperationId)
    (f : OrderedMap String Variable → OrderedMap String Variable) :
    t.modifyVariables (.body id) f = t.modifyOperation id (Operation.fill [] [] f) := by
  refine modifyOperation_congr fun o _ => ?_
  rw [Operation.fill, List.append_nil, List.append_nil]

theorem fill_fill (t : SymbolTable) (id : OperationId) (cs ds : List Contract)
    (ss rs : List LibraryContract.Statement)
    (f g : OrderedMap String Variable → OrderedMap String Variable) :
    (t.modifyOperation id (Operation.fill cs ss f)).modifyOperation id (Operation.fill ds rs g) =
      t.modifyOperation id (Operation.fill (cs ++ ds) (ss ++ rs) (g ∘ f)) := by
  have hcomp : Operation.fill ds rs g ∘ Operation.fill cs ss f =
      Operation.fill (cs ++ ds) (ss ++ rs) (g ∘ f) := by
    funext o
    simp only [Function.comp_apply, Operation.fill, List.append_assoc]
  simp only [modifyOperation, List.modify_modify_eq, hcomp]

end SymbolTable

namespace SyntaxTree

variable {t u : SymbolTable} {scope : Scope} {id : OperationId} {a : Unit}

/-- A statement keeps its form, and changes at most the locals. -/
theorem Statement.elaborate_mirrors {d : Statement} {s : LibraryContract.Statement}
    (h : (d.elaborate scope id).Yields t s u) : Statement.Mirrors id d s ∧
      ∃ types f, u = (t.setTypes types).modifyOperation id (Operation.fill [] [] f) := by
  have hsame : ∃ types f, t = (t.setTypes types).modifyOperation id (Operation.fill [] [] f) :=
    ⟨t.types, fun m => m, (t.fill_nil id).symm⟩
  cases Statement.resolves_of_elaborate h with
  | assignment => exact ⟨.assignment _ _, hsame⟩
  | construction => exact ⟨.construction _ _, hsame⟩
  | action harguments => exact ⟨.action harguments.length_eq.symm, hsame⟩
  | @declaration declaration _ _ h =>
    obtain ⟨type, v, initial, htype, hinitial, rfl, hu⟩ := VariableDecl.declareLocal_yields h
    obtain ⟨-, types, rfl⟩ := Interns.setTypes (htype.reaches (declaration.type.resolve_within t))
    obtain ⟨rfl, -⟩ := TypeExpr.resolve_known htype
    obtain ⟨-, -, rfl⟩ := SymbolTable.registerVariable_eq_ok.mp hu
    refine ⟨.declaration ⟨rfl, rfl, rfl, rfl, ?_⟩, types, _, SymbolTable.fill_locals _ id _⟩
    rcases hinitial with ⟨hnone, rfl⟩ | ⟨e, x, hsome, rfl, -⟩
    · rw [hnone]
      rfl
    · rw [hsome]
      rfl

namespace FunctionDecl

theorem elaborateContracts_clean {ds : List ContractDecl}
    (h : (elaborateContracts scope id ds).Clean t a u) :
    ∃ new, u = t.modifyOperation id (Operation.fill new [] fun m => m) ∧
      List.Forall₂ ContractDecl.Mirrors ds new := by
  induction ds generalizing t with
  | nil =>
    obtain ⟨-, rfl⟩ := clean_pure.mp h
    exact ⟨[], (t.fill_nil id).symm, .nil⟩
  | cons d rest ih =>
    rw [elaborateContracts] at h
    obtain ⟨attempted, v, hattempt, hrest⟩ := clean_bind.mp h
    obtain ⟨c, rfl, hc⟩ := clean_attempt (candid_ofCheck (d.candid_elaborate scope)) hattempt
    obtain ⟨hyields, rfl⟩ := clean_ofCheck hc
    obtain ⟨_, w, hmodify, hmore⟩ := clean_bind.mp hrest
    obtain rfl := clean_modify.mp hmodify
    obtain ⟨new, rfl, hnew⟩ := ih hmore
    have hmirrors : d.Mirrors c := by
      obtain ⟨expression, -, rfl⟩ := ContractDecl.yields_elaborate hyields
      exact ⟨rfl, rfl, rfl⟩
    refine ⟨c :: new, ?_, .cons hmirrors hnew⟩
    have hone : (t.modifyOperation id fun o => { o with contracts := o.contracts ++ [c] }) =
        t.modifyOperation id (Operation.fill [c] [] fun m => m) := by
      refine SymbolTable.modifyOperation_congr fun o _ => ?_
      rw [Operation.fill, List.append_nil]
    rw [hone, SymbolTable.fill_fill]
    rfl

theorem elaborateBody_clean {ds : List Statement} (h : (elaborateBody scope id ds).Clean t a u) :
    ∃ types new f, u = (t.setTypes types).modifyOperation id (Operation.fill [] new f) ∧
      List.Forall₂ (Statement.Mirrors id) ds new := by
  induction ds generalizing t with
  | nil =>
    obtain ⟨-, rfl⟩ := clean_pure.mp h
    exact ⟨t.types, [], fun m => m, (t.fill_nil id).symm, .nil⟩
  | cons d rest ih =>
    rw [elaborateBody] at h
    obtain ⟨attempted, v, hattempt, hrest⟩ := clean_bind.mp h
    obtain ⟨s, rfl, hs⟩ := clean_attempt (d.candid_elaborate scope id) hattempt
    obtain ⟨hmirrors, types, f, rfl⟩ := Statement.elaborate_mirrors hs.yields
    obtain ⟨_, w, hmodify, hmore⟩ := clean_bind.mp hrest
    obtain rfl := clean_modify.mp hmodify
    obtain ⟨types', new, g, rfl, hnew⟩ := ih hmore
    refine ⟨types', s :: new, g ∘ f, ?_, .cons hmirrors hnew⟩
    have hone : ∀ t : SymbolTable, (t.modifyOperation id fun o =>
        { o with statements := o.statements ++ [s] }) =
          t.modifyOperation id (Operation.fill [] [s] fun m => m) := by
      intro t
      refine SymbolTable.modifyOperation_congr fun o _ => ?_
      rw [Operation.fill, List.append_nil]
    rw [hone, SymbolTable.fill_fill]
    exact SymbolTable.fill_fill (t.setTypes types') id _ _ _ _ _ _

/-- An operation gets the contracts and the body of a declaration. -/
theorem elaborate_clean {d : FunctionDecl} (h : (d.elaborate id).Clean t a u) :
    ∃ types contracts statements f,
      u = (t.setTypes types).modifyOperation id (Operation.fill contracts statements f) ∧
        List.Forall₂ ContractDecl.Mirrors d.contracts contracts ∧
        List.Forall₂ (Statement.Mirrors id) (d.body.getD []) statements := by
  obtain ⟨scope, v, hscope, h⟩ := clean_bind.mp h
  obtain ⟨-, rfl⟩ := clean_liftM hscope
  obtain ⟨_, w, hcontracts, hbody⟩ := clean_bind.mp h
  obtain ⟨contracts, rfl, hnew⟩ := elaborateContracts_clean hcontracts
  obtain ⟨types, statements, f, rfl, hstatements⟩ := elaborateBody_clean hbody
  refine ⟨types, contracts, statements, f, ?_, hnew, hstatements⟩
  have hfill := (t.setTypes types).fill_fill id contracts [] [] statements (fun m => m) f
  rw [List.append_nil] at hfill
  exact hfill

end FunctionDecl

end SyntaxTree

/-! ## Steps -/

/-- An automaton has the shifts of the declarations that were looked at for it. -/
def SymbolTable.Shifted (done : List PendingAutomaton) (t : SymbolTable) : Prop :=
  ∀ id a, t.automaton? id = some a →
    List.Forall₂ (fun part s => part.1.Mirrors part.2 s)
      ((done.filter fun p => decide (p.id = id)).flatMap fun p =>
        p.declaration.shifts.flatMap ShiftDecl.parts) a.shifts

/-- An operation has the contracts and statements of the declarations that were looked at for it. -/
def SymbolTable.Filled (done : List PendingOperation) (t : SymbolTable) : Prop :=
  ∀ id o, t.operation? id = some o →
    List.Forall₂ ContractDecl.Mirrors
      ((done.filter fun p => decide (p.id = id)).flatMap fun p => p.declaration.contracts)
      o.contracts ∧
    List.Forall₂ (Statement.Mirrors id)
      ((done.filter fun p => decide (p.id = id)).flatMap fun p => p.declaration.body.getD [])
      o.statements

/-- What was left for later is in the table as far as it was looked at. -/
structure SymbolTable.Completed (values : List PendingInitializer) (automata : List PendingAutomaton)
    (operations : List PendingOperation) (t : SymbolTable) : Prop where
  values : t.Initialized values
  shifts : t.Shifted automata
  bodies : t.Filled operations

namespace SymbolTable

variable {t u : SymbolTable} {values : List PendingInitializer} {automata : List PendingAutomaton}
  {operations : List PendingOperation}

theorem Shifted.of_map (h : t.Shifted automata)
    (hu : u.automata.map Automaton.shifts = t.automata.map Automaton.shifts) :
    u.Shifted automata := by
  intro id b hb
  have hmap := congrArg (fun l => l[id.index]?) hu
  simp only [List.getElem?_map] at hmap
  rw [show u.automata[id.index]? = some b from hb, Option.map_some] at hmap
  obtain ⟨a, ha, hshifts⟩ := Option.map_eq_some_iff.mp hmap.symm
  rw [← hshifts]
  exact h id a ha

theorem Filled.of_operations (h : t.Filled operations) (hu : u.operations = t.operations) :
    u.Filled operations := by
  intro id o ho
  rw [operation?, hu] at ho
  exact h id o ho

namespace Completed

theorem setInitial (h : t.Completed values automata operations) {p : PendingInitializer}
    (hp : p.scope.OutsideOperations) (value : Value) :
    (t.setInitial p.scope p.name value).Completed (values ++ [p]) automata operations := by
  refine ⟨h.values.setInitial hp value, h.shifts.of_map ?_, h.bodies.of_operations ?_⟩
  · cases hscope : p.scope with
    | automaton owner => exact map_modify_of_eq _ _ _ fun _ => rfl
    | constructorParameter owner => exact map_modify_of_eq _ _ _ fun _ => rfl
    | _ => rfl
  · exact t.operations_modifyVariables hp _

theorem addShifts (h : t.Completed values automata operations) (types : TypeRegistry)
    {p : PendingAutomaton} {new : List Shift}
    (hnew : List.Forall₂ (fun part s => part.1.Mirrors part.2 s)
      (p.declaration.shifts.flatMap ShiftDecl.parts) new) :
    ((t.setTypes types).modifyAutomaton p.id (Automaton.addShifts new)).Completed values
      (automata ++ [p]) operations := by
  refine ⟨h.values.of_variablesIn fun home _ => ?_, fun id b hb => ?_, h.bodies.of_operations rfl⟩
  · rw [variablesIn_addShifts, variablesIn_setTypes]
  · have hold := h.shifts id
    rw [automaton?_modifyAutomaton] at hb
    rw [List.filter_append, List.flatMap_append]
    by_cases hid : id = p.id
    · subst hid
      rw [if_pos rfl] at hb
      obtain ⟨a, ha, rfl⟩ := Option.map_eq_some_iff.mp hb
      refine List.rel_append (hold a ha) ?_
      simpa using hnew
    · rw [if_neg hid] at hb
      have hnone : [p].filter (fun p => decide (p.id = id)) = [] := by
        simp [Ne.symm hid]
      rw [hnone, List.flatMap_nil, List.append_nil]
      exact hold b hb

theorem fill (h : t.Completed values automata operations) (types : TypeRegistry)
    {p : PendingOperation} {contracts : List Contract} {statements : List LibraryContract.Statement}
    (hcontracts : List.Forall₂ ContractDecl.Mirrors p.declaration.contracts contracts)
    (hstatements : List.Forall₂ (Statement.Mirrors p.id) (p.declaration.body.getD []) statements)
    (f : OrderedMap String Variable → OrderedMap String Variable) :
    ((t.setTypes types).modifyOperation p.id (Operation.fill contracts statements f)).Completed
      values automata (operations ++ [p]) := by
  refine ⟨h.values.of_variablesIn fun home hh => ?_, h.shifts.of_map rfl, fun id q hq => ?_⟩
  · exact variablesIn_outside_modifyOperation _ _ _ hh
  · have hold := h.bodies id
    rw [operation?_modifyOperation] at hq
    rw [List.filter_append, List.flatMap_append, List.flatMap_append]
    by_cases hid : id = p.id
    · subst hid
      rw [if_pos rfl] at hq
      obtain ⟨o, ho, rfl⟩ := Option.map_eq_some_iff.mp hq
      obtain ⟨hc, hs⟩ := hold o ho
      refine ⟨List.rel_append hc ?_, List.rel_append hs ?_⟩
      · simpa using hcontracts
      · simpa using hstatements
    · rw [if_neg hid] at hq
      have hnone : [p].filter (fun p => decide (p.id = id)) = [] := by
        simp [Ne.symm hid]
      rw [hnone, List.flatMap_nil, List.flatMap_nil, List.append_nil, List.append_nil]
      exact hold q hq

end Completed

/-- Nothing was looked at before all names are registered. -/
theorem Registers.completed {library : SyntaxTree.Library}
    (h : t.Registers library.types library.annotations library.globals library.automata)
    (hw : t.WellFormed) (ho : t.Operations Operation.Unelaborated) : t.Completed [] [] [] := by
  refine ⟨fun home hh name v hv => ?_, fun id a ha => ?_, fun id o hid => ?_⟩
  · have hmem : v ∈ (t.variablesIn home).values := OrderedMap.mem_values.mpr ⟨name, hv⟩
    rw [h.variablesIn hw hh] at hmem
    obtain ⟨d, -, rfl⟩ := List.mem_map.mp hmem
    simp [VariableDecl.toVariable]
  · obtain ⟨d, -, hd⟩ := forall₂_getElem? h.automata ha
    rw [hd.shifts]
    exact .nil
  · obtain ⟨hcontracts, hstatements, -, -⟩ := ho id o hid
    rw [hcontracts, hstatements]
    exact ⟨.nil, .nil⟩

end SymbolTable

end LibraryContract
