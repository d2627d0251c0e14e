import LibraryContract.Proofs.Change

/-!
# Symbol tables grow

Nothing that is registered is lost again. Lists grow at their end and their elements change only in
allowed ways (`Grows`); maps do the same under their keys (`OrderedMap.Grows`). Put together for
each kind of entity, this gives a preorder on tables.

* `SymbolTable.GrowsTo`: everything in the first table is still there in the second, under its name
  and its number, with its type and its place;
* `Declares.growsTo`, `Signs.growsTo`, `Elaborates.growsTo`: all changes of an analysis are such;
* `analyze_growsTo`: so is an analysis, from the registration of the operations on.
-/

namespace LibraryContract

open SyntaxTree

variable {α β κ : Type}

/-- The second list has an element for each of the first, in order, and perhaps more behind them. -/
inductive Grows (r : α → α → Prop) : List α → List α → Prop
  | nil (back : List α) : Grows r [] back
  | cons {a b : α} {l m : List α} (h : r a b) (rest : Grows r l m) : Grows r (a :: l) (b :: m)

namespace Grows

variable {r : α → α → Prop} {l m n : List α}

theorem refl (hr : ∀ a, r a a) (l : List α) : Grows r l l := by
  induction l with
  | nil => exact .nil []
  | cons a l ih => exact .cons (hr a) ih

theorem trans (hr : ∀ a b c, r a b → r b c → r a c) (h : Grows r l m) (h' : Grows r m n) :
    Grows r l n := by
  induction h generalizing n with
  | nil => exact .nil n
  | cons hab _ ih =>
    cases h' with
    | cons hbc hrest => exact .cons (hr _ _ _ hab hbc) (ih hrest)

theorem append (hr : ∀ a, r a a) (l m : List α) : Grows r l (l ++ m) := by
  induction l with
  | nil => exact .nil m
  | cons a l ih => exact .cons (hr a) ih

theorem map_self (l : List α) {f : α → α} (hf : ∀ a ∈ l, r a (f a)) : Grows r l (l.map f) := by
  induction l with
  | nil => exact .nil []
  | cons a l ih =>
    exact .cons (hf a List.mem_cons_self) (ih fun b hb => hf b (List.mem_cons_of_mem a hb))

theorem modify (hr : ∀ a, r a a) (l : List α) (i : Nat) {f : α → α}
    (hf : ∀ a, l[i]? = some a → r a (f a)) : Grows r l (l.modify i f) := by
  induction l generalizing i with
  | nil => exact .nil _
  | cons a l ih =>
    cases i with
    | zero => exact .cons (hf a rfl) (refl hr l)
    | succ i => exact .cons (hr a) (ih i fun b hb => hf b hb)

theorem getElem? (h : Grows r l m) {i : Nat} {a : α} (ha : l[i]? = some a) :
    ∃ b, m[i]? = some b ∧ r a b := by
  induction h generalizing i with
  | nil => cases ha
  | cons hab _ ih =>
    cases i with
    | zero =>
      cases ha
      exact ⟨_, rfl, hab⟩
    | succ i => exact ih ha

theorem length_le (h : Grows r l m) : l.length ≤ m.length := by
  induction h with
  | nil => exact Nat.zero_le _
  | cons _ _ ih => exact Nat.succ_le_succ ih

end Grows

namespace OrderedMap

variable {r : α → α → Prop} {m n : OrderedMap κ α}

/-- The second map has all keys of the first, in the same places, and perhaps more behind them. -/
def Grows (r : α → α → Prop) (m n : OrderedMap κ α) : Prop :=
  LibraryContract.Grows (fun a b => a.1 = b.1 ∧ r a.2 b.2) m.entries n.entries

theorem Grows.refl (hr : ∀ a, r a a) (m : OrderedMap κ α) : m.Grows r m :=
  LibraryContract.Grows.refl (fun a => ⟨rfl, hr a.2⟩) m.entries

theorem Grows.trans {p : OrderedMap κ α} (hr : ∀ a b c, r a b → r b c → r a c) (h : m.Grows r n)
    (h' : n.Grows r p) : m.Grows r p := by
  refine LibraryContract.Grows.trans ?_ h h'
  rintro a b c ⟨hab, hrab⟩ ⟨hbc, hrbc⟩
  exact ⟨hab.trans hbc, hr _ _ _ hrab hrbc⟩

variable [DecidableEq κ]

theorem Grows.modify (hr : ∀ a, r a a) (m : OrderedMap κ α) (k : κ) {f : α → α}
    (hf : ∀ a, r a (f a)) : m.Grows r (m.modify k f) := by
  refine LibraryContract.Grows.map_self m.entries fun e _ => ?_
  unfold updateEntry
  split
  · exact ⟨rfl, hf e.2⟩
  · exact ⟨rfl, hr e.2⟩

theorem Grows.insert (hr : ∀ a, r a a) {k : κ} (hk : m.contains k = false) (v : α) :
    m.Grows r (m.insert k v) := by
  unfold Grows
  rw [entries_insert_of_not_contains hk]
  exact LibraryContract.Grows.append (fun a => ⟨rfl, hr a.2⟩) _ _

/-- An entry may also be replaced by a larger one. -/
theorem Grows.insert_of_get? (hr : ∀ a, r a a) {k : κ} {v : α}
    (hv : ∀ a, m.get? k = some a → r a v) : m.Grows r (m.insert k v) := by
  cases hk : m.contains k with
  | false => exact Grows.insert hr hk v
  | true =>
    rw [insert_of_contains hk]
    refine LibraryContract.Grows.map_self m.entries fun e he => ?_
    unfold updateEntry
    split
    · rename_i hek
      refine ⟨rfl, hv e.2 ?_⟩
      rw [get?_eq_some_iff, ← hek]
      exact he
    · exact ⟨rfl, hr e.2⟩

theorem Grows.get? (h : m.Grows r n) {k : κ} {a : α} (ha : m.get? k = some a) :
    ∃ b, n.get? k = some b ∧ r a b := by
  unfold Grows at h
  unfold OrderedMap.get? at ha ⊢
  generalize m.entries = l at h ha
  generalize n.entries = l' at h ⊢
  induction h with
  | nil => cases ha
  | @cons e f l l' hef _ ih =>
    obtain ⟨hkey, hr⟩ := hef
    simp only [List.find?_cons, hkey] at ha ⊢
    cases hd : decide (f.1 = k) with
    | true =>
      simp only [hd, Option.map_some, Option.some.injEq] at ha ⊢
      exact ⟨f.2, rfl, ha ▸ hr⟩
    | false =>
      simp only [hd] at ha ⊢
      exact ih ha

theorem Grows.contains (h : m.Grows r n) {k : κ} (hk : m.contains k = true) :
    n.contains k = true := by
  obtain ⟨a, ha⟩ := Option.isSome_iff_exists.mp hk
  obtain ⟨b, hb, -⟩ := h.get? ha
  exact Option.isSome_iff_exists.mpr ⟨b, hb⟩

end OrderedMap

/-! ## Entities -/

/-- A variable may gain a value to start from. -/
structure Variable.GrowsTo (v w : Variable) : Prop where
  name : w.name = v.name
  type : w.type = v.type
  scope : w.scope = v.scope
  span : w.span = v.span
  initial : v.initial.isSome = true → w.initial.isSome = true

theorem Variable.GrowsTo.refl (v : Variable) : v.GrowsTo v := ⟨rfl, rfl, rfl, rfl, id⟩

theorem Variable.GrowsTo.trans {u v w : Variable} (h : u.GrowsTo v) (h' : v.GrowsTo w) :
    u.GrowsTo w :=
  ⟨h'.name.trans h.name, h'.type.trans h.type, h'.scope.trans h.scope, h'.span.trans h.span,
    fun hu => h'.initial (h.initial hu)⟩

/-- An automaton may gain states, shifts, operations and variables. -/
structure Automaton.GrowsTo (a b : Automaton) : Prop where
  id : b.id = a.id
  name : b.name = a.name
  type : b.type = a.type
  span : b.span = a.span
  states : a.states.Grows Eq b.states
  shifts : a.shifts <+: b.shifts
  operations : ∀ kind, a.operations kind <+: b.operations kind
  instanceVariables : a.instanceVariables.Grows Variable.GrowsTo b.instanceVariables
  constructorVariables : a.constructorVariables.Grows Variable.GrowsTo b.constructorVariables

theorem Automaton.GrowsTo.refl (a : Automaton) : a.GrowsTo a where
  id := rfl
  name := rfl
  type := rfl
  span := rfl
  states := .refl (fun _ => rfl) _
  shifts := List.prefix_rfl
  operations _ := List.prefix_rfl
  instanceVariables := .refl .refl _
  constructorVariables := .refl .refl _

theorem Automaton.GrowsTo.trans {a b c : Automaton} (h : a.GrowsTo b) (h' : b.GrowsTo c) :
    a.GrowsTo c where
  id := h'.id.trans h.id
  name := h'.name.trans h.name
  type := h'.type.trans h.type
  span := h'.span.trans h.span
  states := h.states.trans (fun _ _ _ => Eq.trans) h'.states
  shifts := h.shifts.trans h'.shifts
  operations kind := (h.operations kind).trans (h'.operations kind)
  instanceVariables := h.instanceVariables.trans (fun _ _ _ => .trans) h'.instanceVariables
  constructorVariables :=
    h.constructorVariables.trans (fun _ _ _ => .trans) h'.constructorVariables

/-- An operation may gain a body, a type that it returns, locals, contracts and statements. -/
structure Operation.GrowsTo (o p : Operation) : Prop where
  id : p.id = o.id
  kind : p.kind = o.kind
  name : p.name = o.name
  owner : p.owner = o.owner
  argumentTypes : p.argumentTypes = o.argumentTypes
  hasBody : o.hasBody = true → p.hasBody = true
  returnType : ∀ type, o.returnType = some type → p.returnType = some type
  locals : o.locals.Grows Variable.GrowsTo p.locals
  contracts : o.contracts <+: p.contracts
  statements : o.statements <+: p.statements

theorem Operation.GrowsTo.refl (o : Operation) : o.GrowsTo o where
  id := rfl
  kind := rfl
  name := rfl
  owner := rfl
  argumentTypes := rfl
  hasBody h := h
  returnType _ h := h
  locals := .refl .refl _
  contracts := List.prefix_rfl
  statements := List.prefix_rfl

theorem Operation.GrowsTo.trans {o p q : Operation} (h : o.GrowsTo p) (h' : p.GrowsTo q) :
    o.GrowsTo q where
  id := h'.id.trans h.id
  kind := h'.kind.trans h.kind
  name := h'.name.trans h.name
  owner := h'.owner.trans h.owner
  argumentTypes := h'.argumentTypes.trans h.argumentTypes
  hasBody ho := h'.hasBody (h.hasBody ho)
  returnType type ho := h'.returnType type (h.returnType type ho)
  locals := h.locals.trans (fun _ _ _ => .trans) h'.locals
  contracts := h.contracts.trans h'.contracts
  statements := h.statements.trans h'.statements

/-! ## Tables -/

namespace SymbolTable

/-- Everything in `t` is still in `u`, in its place. -/
structure GrowsTo (t u : SymbolTable) : Prop where
  types : t.types.types.Grows Eq u.types.types
  automata : Grows Automaton.GrowsTo t.automata u.automata
  automatonIds : t.automatonIds.Grows Eq u.automatonIds
  operations : Grows Operation.GrowsTo t.operations u.operations
  operationIds : t.operationIds.Grows List.IsPrefix u.operationIds
  globals : t.globals.Grows Variable.GrowsTo u.globals
  annotations : t.annotations.Grows Eq u.annotations

namespace GrowsTo

variable {t u v : SymbolTable}

theorem refl (t : SymbolTable) : t.GrowsTo t where
  types := .refl (fun _ => rfl) _
  automata := .refl .refl _
  automatonIds := .refl (fun _ => rfl) _
  operations := .refl .refl _
  operationIds := .refl (fun _ => List.prefix_rfl) _
  globals := .refl .refl _
  annotations := .refl (fun _ => rfl) _

theorem trans (h : t.GrowsTo u) (h' : u.GrowsTo v) : t.GrowsTo v where
  types := h.types.trans (fun _ _ _ => Eq.trans) h'.types
  automata := h.automata.trans (fun _ _ _ => .trans) h'.automata
  automatonIds := h.automatonIds.trans (fun _ _ _ => Eq.trans) h'.automatonIds
  operations := h.operations.trans (fun _ _ _ => .trans) h'.operations
  operationIds := h.operationIds.trans (fun _ _ _ => .trans) h'.operationIds
  globals := h.globals.trans (fun _ _ _ => .trans) h'.globals
  annotations := h.annotations.trans (fun _ _ _ => Eq.trans) h'.annotations

theorem of_reflTransGen {S : SymbolTable → SymbolTable → Prop} (h : Relation.ReflTransGen S t u)
    (hS : ∀ t u, S t u → t.GrowsTo u) : t.GrowsTo u := by
  induction h with
  | refl => exact refl t
  | tail _ h ih => exact ih.trans (hS _ _ h)

theorem type? (h : t.GrowsTo u) {name : String} {type : DataType} (ht : t.type? name = some type) :
    u.type? name = some type := by
  obtain ⟨_, hu, rfl⟩ := h.types.get? ht
  exact hu

theorem knows (h : t.GrowsTo u) {name : String} (hn : t.Knows name) : u.Knows name := by
  obtain ⟨type, ht⟩ := hn
  exact ⟨type, h.type? ht⟩

theorem annotation? (h : t.GrowsTo u) {name : String} {a : Annotation}
    (ha : t.annotation? name = some a) : u.annotation? name = some a := by
  obtain ⟨_, hu, rfl⟩ := h.annotations.get? ha
  exact hu

theorem automatonId? (h : t.GrowsTo u) {name : String} {id : AutomatonId}
    (hn : t.automatonId? name = some id) : u.automatonId? name = some id := by
  obtain ⟨_, hu, rfl⟩ := h.automatonIds.get? hn
  exact hu

theorem automaton? (h : t.GrowsTo u) {id : AutomatonId} {a : Automaton}
    (ha : t.automaton? id = some a) : ∃ b, u.automaton? id = some b ∧ a.GrowsTo b :=
  h.automata.getElem? ha

theorem operation? (h : t.GrowsTo u) {id : OperationId} {o : Operation}
    (ho : t.operation? id = some o) : ∃ p, u.operation? id = some p ∧ o.GrowsTo p :=
  h.operations.getElem? ho

theorem variablesIn (h : t.GrowsTo u) (scope : VariableScope) :
    (t.variablesIn scope).Grows Variable.GrowsTo (u.variablesIn scope) := by
  have hautomaton : ∀ (owner : AutomatonId) (g : Automaton → OrderedMap String Variable),
      (∀ a b : Automaton, a.GrowsTo b → (g a).Grows Variable.GrowsTo (g b)) →
        (((t.automaton? owner).map g).getD .empty).Grows Variable.GrowsTo
          (((u.automaton? owner).map g).getD .empty) := by
    intro owner g hg
    cases ha : t.automaton? owner with
    | none => exact .nil _
    | some a =>
      obtain ⟨b, hb, hab⟩ := h.automaton? ha
      rw [hb]
      exact hg a b hab
  have hoperation : ∀ owner : OperationId,
      (t.variablesIn (.body owner)).Grows Variable.GrowsTo (u.variablesIn (.body owner)) := by
    intro owner
    simp only [SymbolTable.variablesIn]
    cases ho : t.operation? owner with
    | none => exact .nil _
    | some o =>
      obtain ⟨p, hp, hop⟩ := h.operation? ho
      rw [hp]
      exact hop.locals
  cases scope with
  | global => exact h.globals
  | automaton owner => exact hautomaton owner _ fun _ _ hab => hab.instanceVariables
  | constructorParameter owner => exact hautomaton owner _ fun _ _ hab => hab.constructorVariables
  | argument _ => exact .nil _
  | body owner => exact hoperation owner
  | result owner => exact hoperation owner

theorem variableIn? (h : t.GrowsTo u) {scope : VariableScope} {name : String} {v : Variable}
    (hv : (t.variablesIn scope).get? name = some v) :
    ∃ w, (u.variablesIn scope).get? name = some w ∧ v.GrowsTo w :=
  (h.variablesIn scope).get? hv

end GrowsTo

/-! ## Changes -/

theorem growsTo_internArray (t : SymbolTable) (element : String) :
    t.GrowsTo (t.internArray element) := by
  refine { GrowsTo.refl t with types := ?_ }
  unfold internArray TypeRegistry.internArray TypeRegistry.insert?
  split
  · exact .refl (fun _ => rfl) _
  · rename_i h
    exact .insert (fun _ => rfl) (Bool.not_eq_true _ ▸ h) _

theorem growsTo_modifyAutomaton {t : SymbolTable} {id : AutomatonId} {f : Automaton → Automaton}
    (hf : ∀ a, t.automaton? id = some a → a.GrowsTo (f a)) : t.GrowsTo (t.modifyAutomaton id f) :=
  { GrowsTo.refl t with automata := .modify .refl _ _ hf }

theorem growsTo_modifyOperation {t : SymbolTable} {id : OperationId} {f : Operation → Operation}
    (hf : ∀ o, t.operation? id = some o → o.GrowsTo (f o)) : t.GrowsTo (t.modifyOperation id f) :=
  { GrowsTo.refl t with operations := .modify .refl _ _ hf }

theorem growsTo_modifyVariables {t : SymbolTable} {scope : VariableScope}
    {f : OrderedMap String Variable → OrderedMap String Variable}
    (hf : (t.variablesIn scope).Grows Variable.GrowsTo (f (t.variablesIn scope))) :
    t.GrowsTo (t.modifyVariables scope f) := by
  cases scope with
  | global => exact { GrowsTo.refl t with globals := hf }
  | automaton owner =>
    refine growsTo_modifyAutomaton fun a ha => ?_
    simp only [variablesIn, ha, Option.map_some, Option.getD_some] at hf
    exact { Automaton.GrowsTo.refl a with instanceVariables := hf }
  | constructorParameter owner =>
    refine growsTo_modifyAutomaton fun a ha => ?_
    simp only [variablesIn, ha, Option.map_some, Option.getD_some] at hf
    exact { Automaton.GrowsTo.refl a with constructorVariables := hf }
  | argument owner => exact .refl t
  | body owner =>
    refine growsTo_modifyOperation fun o ho => ?_
    simp only [variablesIn, ho, Option.map_some, Option.getD_some] at hf
    exact { Operation.GrowsTo.refl o with locals := hf }
  | result owner =>
    refine growsTo_modifyOperation fun o ho => ?_
    simp only [variablesIn, ho, Option.map_some, Option.getD_some] at hf
    exact { Operation.GrowsTo.refl o with locals := hf }

theorem registerType_growsTo {t u : SymbolTable} {type : DataType}
    (h : t.registerType type = .ok u) : t.GrowsTo u := by
  obtain ⟨hnew, rfl⟩ := registerType_eq_ok.mp h
  exact { GrowsTo.refl t with types := .insert (fun _ => rfl) hnew _ }

theorem registerAnnotationType_growsTo {t u : SymbolTable} {a : Annotation}
    (h : t.registerAnnotationType a = .ok u) : t.GrowsTo u := by
  obtain ⟨hnew, rfl⟩ := registerAnnotationType_eq_ok.mp h
  exact { GrowsTo.refl t with annotations := .insert (fun _ => rfl) hnew _ }

theorem registerAutomaton_growsTo {t u : SymbolTable} {name type : String} {span : Span}
    {id : AutomatonId} (h : t.registerAutomaton name type span = .ok (id, u)) : t.GrowsTo u := by
  obtain ⟨hnew, -, rfl⟩ := registerAutomaton_eq_ok.mp h
  exact { GrowsTo.refl t with
    automata := .append .refl _ _
    automatonIds := .insert (fun _ => rfl) hnew _ }

theorem registerVariable_growsTo {t u : SymbolTable} {v : Variable}
    (h : t.registerVariable v = .ok u) : t.GrowsTo u := by
  obtain ⟨-, hnew, rfl⟩ := registerVariable_eq_ok.mp h
  exact growsTo_modifyVariables (.insert .refl hnew v)

theorem setInitial_growsTo (t : SymbolTable) (scope : VariableScope) (name : String)
    (value : Value) : t.GrowsTo (t.setInitial scope name value) :=
  growsTo_modifyVariables (.modify .refl _ _ fun _ => ⟨rfl, rfl, rfl, rfl, fun _ => rfl⟩)

end SymbolTable

theorem Automaton.growsTo_addOperation (a : Automaton) (kind : OperationKind) (id : OperationId) :
    a.GrowsTo (a.addOperation kind id) := by
  cases kind with
  | function =>
    refine { GrowsTo.refl a with operations := fun kind => ?_ }
    cases kind <;> simp [addOperation, Automaton.operations]
  | constructor =>
    refine { GrowsTo.refl a with operations := fun kind => ?_ }
    cases kind <;> simp [addOperation, Automaton.operations]
  | destructor =>
    refine { GrowsTo.refl a with operations := fun kind => ?_ }
    cases kind <;> simp [addOperation, Automaton.operations]
  | procedure =>
    refine { GrowsTo.refl a with operations := fun kind => ?_ }
    cases kind <;> simp [addOperation, Automaton.operations]

theorem SymbolTable.growsTo_addOperation (t : SymbolTable) (owner : AutomatonId) (s : Signature) :
    t.GrowsTo (t.addOperation owner s).2 := by
  refine { GrowsTo.refl t with
    automata := .modify .refl _ _ fun a _ => a.growsTo_addOperation s.kind _
    operations := .append .refl _ _
    operationIds := ?operationIds }
  case operationIds =>
    show t.operationIds.Grows List.IsPrefix (indexOperation t.operationIds s _)
    unfold indexOperation
    cases s.name with
    | none => exact .refl (fun _ => List.prefix_rfl) _
    | some name =>
      refine .insert_of_get? (fun _ => List.prefix_rfl) fun ids hids => ?_
      rw [hids]
      exact List.prefix_append ids _

/-- A definition has the argument types of the declaration that it completes. -/
theorem Operation.growsTo_complete {o : Operation} {s : Signature}
    (h : o.argumentTypes = s.argumentTypes) : o.GrowsTo (o.complete s) :=
  { GrowsTo.refl o with
    argumentTypes := h.symm
    hasBody := fun _ => rfl
    returnType := fun type ho => by simp [complete, ho] }

theorem SymbolTable.registerOperation_growsTo {t u : SymbolTable} {s : Signature} {r : Registration}
    (h : t.registerOperation s = .ok (r, u)) : t.GrowsTo u := by
  obtain ⟨owner, -, ⟨-, rfl, rfl⟩ | ⟨id, declared, hfound, -, -, -, rfl, rfl⟩⟩ :=
    registerOperation_cases h
  · exact growsTo_addOperation t owner s
  · obtain ⟨ho, -, hargs, -⟩ := overload?_eq_some hfound
    refine growsTo_modifyOperation fun o ho' => Operation.growsTo_complete ?_
    rw [ho] at ho'
    cases ho'
    exact hargs

theorem SymbolTable.withResult_growsTo (t : SymbolTable) (id : OperationId) (span : Span) :
    t.GrowsTo (t.withResult id span) := by
  refine growsTo_modifyOperation fun o _ => ?_
  unfold Operation.withResult
  split
  · exact .refl o
  split
  · exact .refl o
  · rename_i hnew
    exact { Operation.GrowsTo.refl o with locals := .insert .refl (Bool.not_eq_true _ ▸ hnew) _ }

/-! ## Runs -/

theorem Interns.growsTo {t u : SymbolTable} (h : Interns t u) : t.GrowsTo u := by
  cases h with
  | array _ => exact t.growsTo_internArray _

theorem Furnishes.growsTo {t u : SymbolTable} (h : Furnishes t u) : t.GrowsTo u := by
  cases h with
  | interns h => exact h.growsTo
  | annotationType _ h => exact SymbolTable.registerAnnotationType_growsTo h
  | @state id s hnew =>
    refine SymbolTable.growsTo_modifyAutomaton fun a ha => ?_
    exact { Automaton.GrowsTo.refl a with states := .insert (fun _ => rfl) (hnew a ha) s }
  | «variable» _ _ _ h => exact SymbolTable.registerVariable_growsTo h

theorem Declares.growsTo {t u : SymbolTable} (h : Declares t u) : t.GrowsTo u := by
  cases h with
  | array element => exact t.growsTo_internArray element
  | type h => exact SymbolTable.registerType_growsTo h
  | automaton h => exact SymbolTable.registerAutomaton_growsTo h
  | furnishes h => exact h.growsTo

theorem Signs.growsTo {t u : SymbolTable} (h : Signs t u) : t.GrowsTo u := by
  cases h with
  | array => exact t.growsTo_internArray _
  | operation _ h =>
    exact (SymbolTable.registerOperation_growsTo h).trans (SymbolTable.withResult_growsTo _ _ _)

theorem Elaborates.growsTo {t u : SymbolTable} (h : Elaborates t u) : t.GrowsTo u := by
  cases h with
  | array => exact t.growsTo_internArray _
  | initial name => exact t.setInitial_growsTo _ name _
  | shift =>
    refine SymbolTable.growsTo_modifyAutomaton fun a _ => ?_
    exact { Automaton.GrowsTo.refl a with shifts := List.prefix_append _ _ }
  | contract =>
    refine SymbolTable.growsTo_modifyOperation fun o _ => ?_
    exact { Operation.GrowsTo.refl o with contracts := List.prefix_append _ _ }
  | localVariable _ _ _ _ _ _ h => exact SymbolTable.registerVariable_growsTo h
  | statement =>
    refine SymbolTable.growsTo_modifyOperation fun o _ => ?_
    exact { Operation.GrowsTo.refl o with statements := List.prefix_append _ _ }

/-- What holds of each item that is kept, and lasts in a growing table, holds of all in the end. -/
theorem Run.collect_keeps {α β : Type} {step : α → Build β} {items : List α}
    {P : β → SymbolTable → Prop} (hgrow : ∀ b t u, t.GrowsTo u → P b t → P b u)
    (hwithin : ∀ a ∈ items, ∀ t, (step a).Within Declares t)
    (hyield : ∀ a ∈ items, ∀ t b u, (step a).Yields t b u → P b u) (r : Run) :
    ∀ b ∈ (r.collect step items).1, P b (r.collect step items).2.table := by
  have hall : ∀ b ∈ [] ++ (r.collect step items).1, P b (r.collect step items).2.table := by
    refine collect_invariant (I := fun (bs : List β) t => ∀ b ∈ bs, P b t) ?_ ?_
      (List.forall_mem_nil _)
    · intro a ha bs t b u h hb c hc
      have hgrows : t.GrowsTo u :=
        .of_reflTransGen (hb.reaches (hwithin a ha t)) fun _ _ => Declares.growsTo
      rcases List.mem_append.mp hc with hc | hc
      · exact hgrow c t u hgrows (h c hc)
      · rw [List.mem_singleton.mp hc]
        exact hyield a ha t b u hb
    · intro a ha bs t e h _ c hc
      have hgrows : t.GrowsTo ((step a).run t).2 :=
        .of_reflTransGen (hwithin a ha t) fun _ _ => Declares.growsTo
      exact hgrow c t _ hgrows (h c hc)
  exact hall

/-- Once the operations are registered, nothing is lost any more. -/
theorem Run.analyze_growsTo (options : Options) (library : SyntaxTree.Library) :
    (withSignatures options library).2.table.GrowsTo (analyze options library).table :=
  .of_reflTransGen (analyze_elaborates options library) fun _ _ => Elaborates.growsTo

end LibraryContract
