import LibraryContract.SymbolTable.Registration

/-!
# Registrations, read backwards

What is known of a registration that succeeds: why it was not refused, and which table it leaves.
There is one such lemma for each way of registering something; `registerOperation_cases` has two
cases, a new operation and the completion of a declared one.
-/

namespace LibraryContract

namespace SymbolTable

variable {t u : SymbolTable}

theorem automaton?_modifyAutomaton (t : SymbolTable) (id j : AutomatonId)
    (f : Automaton → Automaton) :
    (t.modifyAutomaton id f).automaton? j =
      if j = id then (t.automaton? j).map f else t.automaton? j := by
  obtain ⟨i⟩ := id
  obtain ⟨j⟩ := j
  simp only [modifyAutomaton, automaton?, List.getElem?_modify, AutomatonId.mk.injEq, eq_comm (a := i)]
  split
  · rfl
  · simp

theorem operation?_modifyOperation (t : SymbolTable) (id j : OperationId)
    (f : Operation → Operation) :
    (t.modifyOperation id f).operation? j =
      if j = id then (t.operation? j).map f else t.operation? j := by
  obtain ⟨i⟩ := id
  obtain ⟨j⟩ := j
  simp only [modifyOperation, operation?, List.getElem?_modify, OperationId.mk.injEq, eq_comm (a := i)]
  split
  · rfl
  · simp

theorem modifyOperation_congr {id : OperationId} {f g : Operation → Operation}
    (h : ∀ o, t.operation? id = some o → f o = g o) :
    t.modifyOperation id f = t.modifyOperation id g := by
  have hlist : t.operations.modify id.index f = t.operations.modify id.index g := by
    refine List.ext_getElem? fun i => ?_
    rw [List.getElem?_modify, List.getElem?_modify]
    split
    · rename_i hi
      subst hi
      cases ho : t.operations[id.index]? with
      | none => rfl
      | some o => exact congrArg some (h o ho)
    · rfl
  rw [modifyOperation, modifyOperation, hlist]

theorem modifyOperation_id (t : SymbolTable) (id : OperationId) :
    (t.modifyOperation id fun o => o) = t := by
  have hlist : (t.operations.modify id.index fun o => o) = t.operations := by
    refine List.ext_getElem? fun i => ?_
    simp [List.getElem?_modify]
  rw [modifyOperation, hlist]

theorem types_modifyVariables (t : SymbolTable) (home : VariableScope)
    (f : OrderedMap String Variable → OrderedMap String Variable) :
    (t.modifyVariables home f).types = t.types := by
  cases home <;> rfl

theorem registerType_eq_ok {type : DataType} :
    t.registerType type = .ok u ↔
      t.types.contains type.name = false ∧
        u = { t with types := ⟨t.types.types.insert type.name type⟩ } := by
  unfold registerType TypeRegistry.insert?
  cases t.types.contains type.name <;> simp [eq_comm]

theorem registerAnnotationType_eq_ok {a : Annotation} :
    t.registerAnnotationType a = .ok u ↔
      t.annotations.contains a.name = false ∧
        u = { t with annotations := t.annotations.insert a.name a } := by
  unfold registerAnnotationType
  cases t.annotations.contains a.name <;> simp [eq_comm]

theorem registerAutomaton_eq_ok {name type : String} {span : Span} {id : AutomatonId} :
    t.registerAutomaton name type span = .ok (id, u) ↔
      t.automatonIds.contains name = false ∧ id = ⟨t.automata.length⟩ ∧
        u = { t with
          automata := t.automata ++ [.skeleton ⟨t.automata.length⟩ name type span]
          automatonIds := t.automatonIds.insert name ⟨t.automata.length⟩ } := by
  unfold registerAutomaton
  cases t.automatonIds.contains name <;> simp [eq_comm]

theorem registerAutomaton_skeleton {name type : String} {span : Span} {id : AutomatonId}
    (h : t.registerAutomaton name type span = .ok (id, u)) :
    u.automaton? id = some (.skeleton id name type span) := by
  obtain ⟨-, rfl, rfl⟩ := registerAutomaton_eq_ok.mp h
  exact List.getElem?_concat_length

theorem registerVariable_eq_ok {v : Variable} :
    t.registerVariable v = .ok u ↔
      (∀ id, v.scope ≠ .argument id) ∧ (t.variablesIn v.scope).contains v.name = false ∧
        u = t.modifyVariables v.scope fun m => m.insert v.name v := by
  unfold registerVariable
  split
  · rename_i id h
    simp [h]
  · rename_i h
    rw [and_iff_right h]
    cases (t.variablesIn v.scope).contains v.name <;> simp [eq_comm]

theorem overload?_eq_some {owner : AutomatonId} {s : Signature} {id : OperationId} {o : Operation}
    (h : t.overload? owner s = some (id, o)) :
    t.operation? id = some o ∧ o.name = s.name ∧ o.argumentTypes = s.argumentTypes ∧
      ∃ a, t.automaton? owner = some a ∧ id ∈ a.operations s.kind := by
  unfold overload? at h
  obtain ⟨found, hmem, hfound⟩ := List.exists_of_findSome?_eq_some h
  obtain ⟨p, hp, hkey⟩ := Option.bind_eq_some_iff.mp hfound
  split at hkey
  · rename_i hsame
    cases hkey
    refine ⟨hp, hsame.1, hsame.2, ?_⟩
    cases ha : t.automaton? owner with
    | none => simp [ha] at hmem
    | some a => exact ⟨a, rfl, by simpa [ha] using hmem⟩
  · cases hkey

theorem registerOperation_cases {s : Signature} {r : Registration}
    (h : t.registerOperation s = .ok (r, u)) :
    ∃ owner, t.automatonId? s.owner = some owner ∧
      ((t.overload? owner s = none ∧ r = .new ⟨t.operations.length⟩ ∧
          u = (t.addOperation owner s).2) ∨
        ∃ id declared, t.overload? owner s = some (id, declared) ∧ declared.hasBody = false ∧
          s.hasBody = true ∧ declared.returnConflict? s = none ∧ r = .completed id ∧
          u = t.modifyOperation id fun o => o.complete s) := by
  unfold registerOperation at h
  split at h
  · cases h
  rename_i owner howner
  refine ⟨owner, howner, ?_⟩
  split at h
  · rename_i hnone
    cases h
    exact Or.inl ⟨hnone, rfl, rfl⟩
  rename_i id declared hsome
  refine Or.inr ⟨id, declared, hsome, ?_⟩
  split at h
  · rename_i hbody
    rw [Bool.and_eq_true, Bool.not_eq_true'] at hbody
    refine ⟨hbody.1, hbody.2, ?_⟩
    split at h
    · cases h
    · rename_i hreturn
      cases h
      exact ⟨hreturn, rfl, rfl⟩
  · cases h

theorem registerOperation_known {s : Signature} {r : Registration}
    (h : t.registerOperation s = .ok (r, u)) : ∃ o, u.operation? r.id = some o := by
  obtain ⟨owner, -, ⟨-, rfl, rfl⟩ | ⟨id, declared, hfound, -, -, -, rfl, rfl⟩⟩ :=
    registerOperation_cases h
  · exact ⟨_, List.getElem?_concat_length⟩
  · obtain ⟨ho, -⟩ := overload?_eq_some hfound
    refine ⟨declared.complete s, ?_⟩
    have hid : (Registration.completed id).id = id := rfl
    rw [hid, operation?_modifyOperation, if_pos rfl, ho]
    rfl

end SymbolTable

end LibraryContract
