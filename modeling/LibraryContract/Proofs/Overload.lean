import LibraryContract.Proofs.Arena
import Mathlib.Data.List.Find
import Mathlib.Data.List.Nodup

/-!
# What argument types pick

Operations are registered under kind, name, owner and argument types, but they are looked up without
the kind. A name that comes with argument types therefore leads to the first operation that fits, and
an operation of another kind may fit as well. No other operation can.

* `Changes.keysDistinct`: whatever is done to a table, no two operations share all of their key;
* `picked_alone_iff`: what argument types pick is the only operation that fits exactly when all that
  fit are of one kind;
* `picked_among_kinds`: they need not be.
-/

namespace LibraryContract

open SyntaxTree Build

/-- What operations are told apart by when they are registered. -/
def Signature.key (s : Signature) : OperationKind × Option String × String × List String :=
  (s.kind, s.name, s.owner, s.argumentTypes)

/-- No two operations have the same key. -/
def SymbolTable.KeysDistinct (t : SymbolTable) : Prop :=
  (t.operations.map fun o => o.key).Nodup

/-- The operations of an automaton with this name and these argument types, of whatever kind, in
order of registration. -/
def SymbolTable.overloads (t : SymbolTable) (automaton name : String) (types : List String) :
    List Operation :=
  (t.operationsNamed automaton name).filter fun o => decide (o.argumentTypes = types)

/-- An accepted registration. -/
inductive Admits (t : SymbolTable) : SymbolTable → Prop
  | array (element : String) : Admits t (t.internArray element)
  | type {type : DataType} {u : SymbolTable} (h : t.registerType type = .ok u) : Admits t u
  | annotationType {a : Annotation} {u : SymbolTable} (h : t.registerAnnotationType a = .ok u) :
      Admits t u
  | automaton {name type : String} {span : Span} {id : AutomatonId} {u : SymbolTable}
      (h : t.registerAutomaton name type span = .ok (id, u)) : Admits t u
  | variable {v : Variable} {u : SymbolTable} (h : t.registerVariable v = .ok u) : Admits t u
  | operation {s : Signature} {r : Registration} {u : SymbolTable}
      (h : t.registerOperation s = .ok (r, u)) : Admits t u

/-- Whatever is done to a table: a registration, or a change that an analysis makes. -/
inductive Changes (t : SymbolTable) : SymbolTable → Prop
  | admits {u : SymbolTable} (h : Admits t u) : Changes t u
  | declares {u : SymbolTable} (h : Declares t u) : Changes t u
  | signs {u : SymbolTable} (h : Signs t u) : Changes t u
  | elaborates {u : SymbolTable} (h : Elaborates t u) : Changes t u

/-- A table that was made from the empty one. -/
def SymbolTable.Reachable (t : SymbolTable) : Prop := Relation.ReflTransGen Changes .empty t

variable {t u : SymbolTable}

/-! ## Keys stay distinct -/

namespace SymbolTable

theorem keys_modifyOperation (t : SymbolTable) (id : OperationId) {f : Operation → Operation}
    (hf : ∀ o, t.operation? id = some o → (f o).key = o.key) :
    ((t.modifyOperation id f).operations.map fun o => o.key) =
      t.operations.map fun o => o.key := by
  refine List.ext_getElem? fun i => ?_
  simp only [modifyOperation, List.getElem?_map, List.getElem?_modify]
  split
  · rename_i hi
    subst hi
    cases ho : t.operations[id.index]? with
    | none => rfl
    | some o => exact congrArg some (hf o ho)
  · simp

theorem KeysDistinct.of_operations (h : t.KeysDistinct) (hu : u.operations = t.operations) :
    u.KeysDistinct := by
  rw [KeysDistinct, hu]
  exact h

theorem KeysDistinct.modifyOperation (h : t.KeysDistinct) (id : OperationId)
    {f : Operation → Operation} (hf : ∀ o, t.operation? id = some o → (f o).key = o.key) :
    (t.modifyOperation id f).KeysDistinct := by
  rw [KeysDistinct, t.keys_modifyOperation id hf]
  exact h

theorem KeysDistinct.modifyVariables (h : t.KeysDistinct) (scope : VariableScope)
    (f : OrderedMap String Variable → OrderedMap String Variable) :
    (t.modifyVariables scope f).KeysDistinct := by
  cases scope with
  | body id => exact h.modifyOperation id fun _ _ => rfl
  | result id => exact h.modifyOperation id fun _ _ => rfl
  | _ => exact h.of_operations rfl

theorem KeysDistinct.registerVariable (h : t.KeysDistinct) {v : Variable}
    (hu : t.registerVariable v = .ok u) : u.KeysDistinct := by
  obtain ⟨-, -, rfl⟩ := registerVariable_eq_ok.mp hu
  exact h.modifyVariables v.scope _

theorem KeysDistinct.withResult (h : t.KeysDistinct) (id : OperationId) (span : Span) :
    (t.withResult id span).KeysDistinct :=
  h.modifyOperation id fun o _ => congrArg Signature.key (o.toSignature_withResult id span)

/-- When no overload is found, no operation has the key of the signature. -/
theorem WellFormed.key_ne (hw : t.WellFormed) {owner : AutomatonId} {s : Signature}
    (howner : t.automatonId? s.owner = some owner) (hnone : t.overload? owner s = none) :
    s.key ∉ t.operations.map fun o => o.key := by
  intro hmem
  obtain ⟨o, ho, hkey⟩ := List.mem_map.mp hmem
  simp only [Signature.key, Prod.mk.injEq] at hkey
  obtain ⟨hkind, hname, howns, htypes⟩ := hkey
  obtain ⟨a, ha, haname⟩ := (hw.automatonId?_iff s.owner owner).mp howner
  have hlisted : o.id ∈ a.operations s.kind := by
    rw [hw.listed owner a ha, List.mem_map]
    refine ⟨o, List.mem_filter.mpr ⟨ho, decide_eq_true ?_⟩, rfl⟩
    exact ⟨howns.trans haname.symm, hkind⟩
  unfold overload? at hnone
  rw [ha, Option.map_some, Option.getD_some, List.findSome?_eq_none_iff] at hnone
  have hmiss := hnone o.id hlisted
  rw [hw.operation?_id ho, Option.bind_some, if_pos ⟨hname, htypes⟩] at hmiss
  cases hmiss

theorem KeysDistinct.registerOperation (h : t.KeysDistinct) (hw : t.WellFormed) {s : Signature}
    {r : Registration} (hu : t.registerOperation s = .ok (r, u)) : u.KeysDistinct := by
  obtain ⟨owner, howner, ⟨hnone, -, rfl⟩ | ⟨id, declared, hfound, -, -, -, -, rfl⟩⟩ :=
    registerOperation_cases hu
  · have hnew := hw.key_ne howner hnone
    have hkeys : ((t.addOperation owner s).2.operations.map fun o => o.key) =
        (t.operations.map fun o => o.key) ++ [s.key] := by
      rw [addOperation, List.map_append]
      rfl
    rw [KeysDistinct, hkeys, List.nodup_append]
    refine ⟨h, List.nodup_singleton _, fun key hkey new hmem => ?_⟩
    rw [List.mem_singleton.mp hmem]
    rintro rfl
    exact hnew hkey
  · obtain ⟨ho, -, htypes, -⟩ := overload?_eq_some hfound
    refine h.modifyOperation id fun o ho' => ?_
    rw [ho] at ho'
    cases ho'
    -- only the arguments are part of the key, and their types are the same
    simp only [Signature.key, Operation.complete, Signature.argumentTypes] at htypes ⊢
    rw [← htypes]

end SymbolTable

theorem Admits.wellFormed (h : Admits t u) (hw : t.WellFormed) : u.WellFormed := by
  cases h with
  | array element => exact hw.internArray element
  | type h => exact hw.registerType h
  | annotationType h => exact hw.registerAnnotationType h
  | automaton h => exact hw.registerAutomaton h
  | «variable» h => exact hw.registerVariable h
  | operation h => exact hw.registerOperation h

theorem Admits.keysDistinct (h : Admits t u) (hw : t.WellFormed) (ht : t.KeysDistinct) :
    u.KeysDistinct := by
  cases h with
  | array element => exact ht.of_operations rfl
  | type h =>
    obtain ⟨-, rfl⟩ := SymbolTable.registerType_eq_ok.mp h
    exact ht.of_operations rfl
  | annotationType h =>
    obtain ⟨-, rfl⟩ := SymbolTable.registerAnnotationType_eq_ok.mp h
    exact ht.of_operations rfl
  | automaton h =>
    obtain ⟨-, -, rfl⟩ := SymbolTable.registerAutomaton_eq_ok.mp h
    exact ht.of_operations rfl
  | «variable» h => exact ht.registerVariable h
  | operation h => exact ht.registerOperation hw h

theorem Furnishes.keysDistinct (h : Furnishes t u) (ht : t.KeysDistinct) : u.KeysDistinct := by
  cases h with
  | interns h =>
    obtain ⟨_⟩ := h
    exact ht.of_operations rfl
  | annotationType _ h =>
    obtain ⟨-, rfl⟩ := SymbolTable.registerAnnotationType_eq_ok.mp h
    exact ht.of_operations rfl
  | state => exact ht.of_operations rfl
  | «variable» _ _ _ h => exact ht.registerVariable h

theorem Declares.keysDistinct (h : Declares t u) (hw : t.WellFormed) (ht : t.KeysDistinct) :
    u.KeysDistinct := by
  cases h with
  | array => exact ht.of_operations rfl
  | type h => exact Admits.keysDistinct (.type h) hw ht
  | automaton h => exact Admits.keysDistinct (.automaton h) hw ht
  | furnishes h => exact h.keysDistinct ht

theorem Signs.keysDistinct (h : Signs t u) (hw : t.WellFormed) (ht : t.KeysDistinct) :
    u.KeysDistinct := by
  cases h with
  | array => exact ht.of_operations rfl
  | operation _ h => exact (ht.registerOperation hw h).withResult _ _

theorem Elaborates.keysDistinct (h : Elaborates t u) (ht : t.KeysDistinct) : u.KeysDistinct := by
  cases h with
  | array | shift => exact ht.of_operations rfl
  | initial => exact ht.modifyVariables _ _
  | localVariable _ _ _ _ _ _ h => exact ht.registerVariable h
  | contract | statement => exact ht.modifyOperation _ fun _ _ => rfl

theorem Changes.wellFormed (h : Changes t u) (hw : t.WellFormed) : u.WellFormed := by
  cases h with
  | admits h => exact h.wellFormed hw
  | declares h => exact h.wellFormed hw
  | signs h => exact h.wellFormed hw
  | elaborates h => exact h.wellFormed hw

theorem Changes.keysDistinct (h : Changes t u) (hw : t.WellFormed) (ht : t.KeysDistinct) :
    u.KeysDistinct := by
  cases h with
  | admits h => exact h.keysDistinct hw ht
  | declares h => exact h.keysDistinct hw ht
  | signs h => exact h.keysDistinct hw ht
  | elaborates h => exact h.keysDistinct ht

theorem SymbolTable.Reachable.wellFormed (h : t.Reachable) : t.WellFormed :=
  keeps_of_reflTransGen h (fun _ _ => Changes.wellFormed) .empty

theorem SymbolTable.Reachable.keysDistinct (h : t.Reachable) : t.KeysDistinct := by
  have hkeep : ∀ t u, Changes t u → t.WellFormed ∧ t.KeysDistinct → u.WellFormed ∧ u.KeysDistinct :=
    fun _ _ h ht => ⟨h.wellFormed ht.1, h.keysDistinct ht.1 ht.2⟩
  exact (keeps_of_reflTransGen h hkeep ⟨.empty, List.nodup_nil⟩).2

/-! ## Looking up -/

namespace SymbolTable

/-- Argument types pick the first operation that fits. -/
theorem WellFormed.lookupOperation_eq (hw : t.WellFormed) (name automaton : String)
    (types : List String) :
    t.lookupOperation name automaton (some types) =
      match (t.overloads automaton name types).head? with
      | some o => .found o.id
      | none => .notFound := by
  have hfind : ((t.operationIds.get? (automaton, name)).getD []).find? (t.hasArgumentTypes types) =
      (t.overloads automaton name types).head?.map Operation.id := by
    rw [hw.indexed, List.find?_map, overloads, List.head?_filter]
    refine congrArg (Option.map Operation.id) (List.find?_congr fun o ho => ?_)
    have hself := hw.operation?_id (List.mem_of_mem_filter ho)
    simp only [Function.comp_apply, hasArgumentTypes, hself]
  unfold lookupOperation
  simp only [hfind]
  cases (t.overloads automaton name types).head? <;> rfl

theorem mem_operationsNamed {automaton name : String} {o : Operation} :
    o ∈ t.operationsNamed automaton name ↔
      o ∈ t.operations ∧ o.owner = automaton ∧ o.name = some name := by
  simp only [operationsNamed, List.mem_filter, decide_eq_true_eq]

/-- A name alone finds the only operation of this name. -/
theorem WellFormed.operationsNamed_of_lookup (hw : t.WellFormed) {name automaton : String}
    {id : OperationId} (h : t.lookupOperation name automaton none = .found id) :
    ∃ o, t.operationsNamed automaton name = [o] ∧ o.id = id := by
  rw [lookupOperation, hw.indexed] at h
  rcases hnamed : t.operationsNamed automaton name with _ | ⟨o, _ | ⟨p, rest⟩⟩
  · rw [hnamed] at h
    cases h
  · rw [hnamed] at h
    cases h
    exact ⟨o, rfl, rfl⟩
  · rw [hnamed] at h
    cases h

theorem overloads_key {automaton name : String} {types : List String} {o : Operation}
    (ho : o ∈ t.overloads automaton name types) : o.key = (o.kind, some name, automaton, types) := by
  obtain ⟨hnamed, htypes⟩ := List.mem_filter.mp ho
  obtain ⟨-, howner, hname⟩ := mem_operationsNamed.mp hnamed
  rw [Signature.key, howner, hname, of_decide_eq_true htypes]

/-- Operations that argument types cannot tell apart differ in kind. -/
theorem KeysDistinct.kinds (h : t.KeysDistinct) (automaton name : String) (types : List String) :
    ((t.overloads automaton name types).map fun o => o.kind).Nodup := by
  have hsub : (t.overloads automaton name types).Sublist t.operations :=
    List.filter_sublist.trans List.filter_sublist
  have hkeys : ((t.overloads automaton name types).map fun o => o.key).Nodup :=
    List.Nodup.sublist (hsub.map _) h
  have hmap : ((t.overloads automaton name types).map fun o => o.key) =
      ((t.overloads automaton name types).map fun o => o.kind).map
        fun kind => (kind, some name, automaton, types) := by
    rw [List.map_map]
    exact List.map_congr_left fun o ho => overloads_key ho
  rw [hmap] at hkeys
  exact List.Nodup.of_map _ hkeys

end SymbolTable

/-- A list whose members have different images is a single element when all images agree. -/
theorem eq_singleton_iff_of_nodup_map {α β : Type} {l : List α} {a : α} {f : α → β}
    (h : (l.map f).Nodup) (ha : l.head? = some a) : l = [a] ↔ ∀ b ∈ l, f b = f a := by
  obtain ⟨rest, rfl⟩ := List.head?_eq_some_iff.mp ha
  constructor
  · intro hsingle b hb
    rw [hsingle, List.mem_singleton] at hb
    rw [hb]
  · intro hsame
    cases rest with
    | nil => rfl
    | cons b rest =>
      have hb := hsame b (List.mem_cons_of_mem a List.mem_cons_self)
      rw [List.map_cons, List.map_cons, hb, List.nodup_cons] at h
      exact (h.1 List.mem_cons_self).elim

namespace SyntaxTree

theorem TypeExpr.mapM_resolve_names {es : List TypeExpr} {names : List String}
    (h : (es.mapM fun e : TypeExpr => e.resolve).Yields t names u) : names = es.map TypeExpr.canonicalName := by
  induction es generalizing t names with
  | nil =>
    obtain ⟨rfl, -⟩ := yields_mapM_nil.mp h
    rfl
  | cons e rest ih =>
    obtain ⟨name, v, others, hname, hothers, rfl⟩ := yields_mapM_cons.mp h
    rw [(TypeExpr.resolve_known hname).1, ih hothers]
    rfl

/-- The trigger names the operation `id` of an automaton. -/
def Trigger.Names (t : SymbolTable) (automaton : String) (trigger : Trigger) (id : OperationId) :
    Prop :=
  t.lookupOperation trigger.name.name automaton
    (trigger.argumentTypes.map (List.map TypeExpr.canonicalName)) = .found id

/-- A trigger resolves to the operation that it names. -/
theorem Trigger.resolve_names {automaton : String} {trigger : Trigger} {id : OperationId}
    (h : (trigger.resolve automaton).Yields t id u) : trigger.Names t automaton id := by
  have hwithin : Relation.ReflTransGen Interns t u := h.reaches (trigger.resolve_within automaton t)
  rw [Trigger.resolve] at h
  simp only [yields_bind, yields_liftM, Check.yields_look, yields_optionMapM] at h
  obtain ⟨argumentTypes, v, htypes, found, w, ⟨hfound, rfl⟩, h⟩ := h
  have hcanonical : argumentTypes = trigger.argumentTypes.map (List.map TypeExpr.canonicalName) := by
    rcases htypes with ⟨hnone, rfl, -⟩ | ⟨es, names, hes, rfl, hnames⟩
    · rw [hnone, Option.map_none]
    · rw [hes, Option.map_some, TypeExpr.mapM_resolve_names hnames]
  rcases found with (_ | _) | found
  · simp at h
  · simp at h
  obtain ⟨rfl, rfl⟩ := yields_pure.mp h
  -- only the arrays among the types have changed
  obtain ⟨types, rfl⟩ := Interns.types_only hwithin
  unfold SymbolTable.resolveOperation at hfound
  split at hfound
  · rename_i hlookup
    cases hfound
    rw [Trigger.Names, ← hcanonical]
    exact hlookup
  · cases hfound
  · cases hfound

/-- A trigger with argument types leads where the same lookup leads. -/
theorem Trigger.resolve_lookup {automaton : String} {trigger : Trigger} {types : List String}
    (htypes : trigger.argumentTypes.map (List.map TypeExpr.canonicalName) = some types)
    {id : OperationId} (h : (trigger.resolve automaton).Yields t id u) :
    t.lookupOperation trigger.name.name automaton (some types) = .found id :=
  htypes ▸ Trigger.resolve_names h

end SyntaxTree

/-- What argument types pick is the first operation that fits, and a shift that spells them takes
the same one. All that fit differ in kind, so that one is alone exactly when all are of its kind. -/
theorem picked_alone_iff (h : t.Reachable) {name automaton : String} {types : List String}
    {id : OperationId} (hl : t.lookupOperation name automaton (some types) = .found id) :
    ∃ o, t.operation? id = some o ∧ (t.overloads automaton name types).head? = some o ∧
      ((t.overloads automaton name types).map fun p => p.kind).Nodup ∧
      (t.overloads automaton name types = [o] ↔
        ∀ p ∈ t.overloads automaton name types, p.kind = o.kind) ∧
      ∀ (trigger : Trigger) (id' : OperationId) (u : SymbolTable), trigger.name.name = name →
        trigger.argumentTypes.map (List.map TypeExpr.canonicalName) = some types →
          (trigger.resolve automaton).Yields t id' u → id' = id := by
  have hw := h.wellFormed
  have hkinds := h.keysDistinct.kinds automaton name types
  have hfirst := hl
  rw [hw.lookupOperation_eq] at hfirst
  cases ho : (t.overloads automaton name types).head? with
  | none =>
    rw [ho] at hfirst
    cases hfirst
  | some o =>
    rw [ho] at hfirst
    cases hfirst
    have hmem : o ∈ t.operations :=
      List.mem_of_mem_filter (List.mem_of_mem_filter (List.mem_of_head? ho))
    refine ⟨o, hw.operation?_id hmem, rfl, hkinds, eq_singleton_iff_of_nodup_map hkinds ho, ?_⟩
    rintro trigger id' u rfl htypes hyields
    have hpicked := Trigger.resolve_lookup htypes hyields
    rw [hl] at hpicked
    cases hpicked
    rfl

/-! ## A function and a procedure -/

namespace Overload

/-- The operation `f` of the automaton `A`, on a number. -/
def onNumber (kind : OperationKind) : Signature where
  kind := kind
  name := some "f"
  owner := "A"
  target := "A"
  arguments := [⟨"x", "Int", 0, [], .onLine 1⟩]
  returnType := none
  annotations := []
  hasBody := false
  span := .onLine 1

/-- The automaton `A` with a function `f` and a procedure `f` on the same type. -/
def table : Except RegistrationError SymbolTable := do
  let t ← SymbolTable.empty.registerType (.simple "Int")
  let (_, t) ← t.registerAutomaton "A" "Int" (.onLine 1)
  let (_, t) ← t.registerOperation (onNumber .function)
  let (_, t) ← t.registerOperation (onNumber .procedure)
  return t

theorem bind_eq_ok {ε α β : Type} {x : Except ε α} {f : α → Except ε β} {b : β} :
    x >>= f = .ok b ↔ ∃ a, x = .ok a ∧ f a = .ok b := by
  cases x <;> simp [Bind.bind, Except.bind]

theorem table_reached {t : SymbolTable} (h : table = .ok t) :
    Relation.ReflTransGen Admits .empty t := by
  simp only [table, bind_eq_ok] at h
  obtain ⟨t₁, h₁, ⟨_, t₂⟩, h₂, ⟨_, t₃⟩, h₃, ⟨_, t₄⟩, h₄, ht⟩ := h
  cases ht
  exact (((Relation.ReflTransGen.single (.type h₁)).tail (.automaton h₂)).tail
    (.operation h₃)).tail (.operation h₄)

/-- The types that `f` takes lead to the function, and the procedure fits too. -/
theorem table_picks :
    ∃ t, table = .ok t ∧ t.lookupOperation "f" "A" (some ["Int"]) = .found ⟨0⟩ ∧
      (t.overloads "A" "f" ["Int"]).map Operation.id = [⟨0⟩, ⟨1⟩] := by
  refine ⟨_, rfl, ?_, ?_⟩
  · decide +kernel
  · decide +kernel

end Overload

/-- What `picked_alone_iff` asks for is there: a table and argument types that pick an operation. -/
theorem picked_alone_iff_kinds :
    ∃ t : SymbolTable, t.Reachable ∧ t.lookupOperation "f" "A" (some ["Int"]) = .found ⟨0⟩ ∧
      ∃ o, t.operation? ⟨0⟩ = some o ∧ (t.overloads "A" "f" ["Int"]).head? = some o ∧
        ((t.overloads "A" "f" ["Int"]).map fun p => p.kind).Nodup ∧
        (t.overloads "A" "f" ["Int"] = [o] ↔
          ∀ p ∈ t.overloads "A" "f" ["Int"], p.kind = o.kind) ∧
        ∀ (trigger : Trigger) (id' : OperationId) (u : SymbolTable), trigger.name.name = "f" →
          trigger.argumentTypes.map (List.map TypeExpr.canonicalName) = some ["Int"] →
            (trigger.resolve "A").Yields t id' u → id' = ⟨0⟩ := by
  obtain ⟨t, ht, hpicked, -⟩ := Overload.table_picks
  have hreachable : t.Reachable :=
    Relation.ReflTransGen.mono (fun _ _ => .admits) _ _ (Overload.table_reached ht)
  exact ⟨t, hreachable, hpicked, picked_alone_iff hreachable hpicked⟩

/-- What argument types pick is not always the only operation that fits. -/
theorem picked_among_kinds :
    ¬∀ t : SymbolTable, Relation.ReflTransGen Admits .empty t →
      ∀ (name automaton : String) (types : List String) (id : OperationId),
        t.lookupOperation name automaton (some types) = .found id →
          ∀ o ∈ t.overloads automaton name types, o.id = id := by
  intro hall
  obtain ⟨t, ht, hpicked, hfit⟩ := Overload.table_picks
  have hsame := hall t (Overload.table_reached ht) _ _ _ _ hpicked
  have hmem : (⟨1⟩ : OperationId) ∈ (t.overloads "A" "f" ["Int"]).map Operation.id := by
    rw [hfit]
    decide
  obtain ⟨o, ho, hid⟩ := List.mem_map.mp hmem
  rw [hsame o ho] at hid
  cases hid

end LibraryContract
