import LibraryContract.Proofs.Change

/-!
# Numbers and names

Automata and operations are numbered, indexed by name, and listed by owner and kind. These views of
a table agree: `SymbolTable.WellFormed` says how, and every change of an analysis keeps it.

* `withSignatures_wellFormed`, `analyze_wellFormed`: the table is well formed when the last
  operation is registered, and at the end.
-/

namespace LibraryContract

open SyntaxTree

/-- Numbers are positions, names lead to numbers, and every list of operations is a part of all
operations, in order. -/
structure SymbolTable.WellFormed (t : SymbolTable) : Prop where
  type_name : ∀ name type, t.type? name = some type → type.name = name
  automaton_id : ∀ id a, t.automaton? id = some a → a.id = id
  automatonId?_iff : ∀ name id,
    t.automatonId? name = some id ↔ ∃ a, t.automaton? id = some a ∧ a.name = name
  operation_id : ∀ id o, t.operation? id = some o → o.id = id
  owner_known : ∀ o ∈ t.operations, ∃ owner, t.automatonId? o.owner = some owner
  listed : ∀ id a, t.automaton? id = some a → ∀ kind, a.operations kind =
    (t.operations.filter fun o => decide (o.owner = a.name ∧ o.kind = kind)).map Operation.id
  indexed : ∀ owner name,
    (t.operationIds.get? (owner, name)).getD [] = (t.operationsNamed owner name).map Operation.id

/-- An update in place keeps what a filter selects when it keeps what the filter looks at. -/
theorem map_filter_modify {α β : Type} (l : List α) (i : Nat) {f : α → α} {p : α → Bool} {g : α → β}
    (hp : ∀ a, p (f a) = p a) (hg : ∀ a, g (f a) = g a) :
    ((l.modify i f).filter p).map g = (l.filter p).map g := by
  induction l generalizing i with
  | nil => simp
  | cons a l ih =>
    cases i with
    | zero =>
      simp only [List.modify_zero_cons, List.filter_cons, hp]
      split <;> simp [hg]
    | succ i =>
      simp only [List.modify_succ_cons, List.filter_cons]
      split <;> simp [ih]

theorem getElem?_concat_eq_some {α : Type} {l : List α} {a b : α} {i : Nat} :
    (l ++ [a])[i]? = some b ↔ l[i]? = some b ∨ i = l.length ∧ a = b := by
  rw [List.getElem?_append]
  split
  · rename_i hlt
    constructor
    · exact Or.inl
    · rintro (hb | ⟨heq, -⟩)
      · exact hb
      · omega
  · rename_i hge
    rw [List.getElem?_eq_none (by omega : l.length ≤ i), List.getElem?_singleton]
    split
    · have hlast : i = l.length := by omega
      simp [hlast]
    · have hlast : i ≠ l.length := by omega
      simp [hlast]

theorem Automaton.id_addOperation (a : Automaton) (kind : OperationKind) (id : OperationId) :
    (a.addOperation kind id).id = a.id := by
  cases kind <;> rfl

theorem Automaton.name_addOperation (a : Automaton) (kind : OperationKind) (id : OperationId) :
    (a.addOperation kind id).name = a.name := by
  cases kind <;> rfl

theorem Automaton.operations_addOperation (a : Automaton) (kind kind' : OperationKind)
    (id : OperationId) :
    (a.addOperation kind id).operations kind' =
      if kind = kind' then a.operations kind' ++ [id] else a.operations kind' := by
  cases kind <;> cases kind' <;> rfl

namespace SymbolTable.WellFormed

variable {t u : SymbolTable}

theorem empty : SymbolTable.empty.WellFormed where
  type_name name type h := by cases h
  automaton_id id a h := by cases h
  automatonId?_iff name id := by
    constructor
    · intro h
      cases h
    · rintro ⟨a, h, -⟩
      cases h
  operation_id id o h := by cases h
  owner_known o h := by cases h
  listed id a h := by cases h
  indexed owner name := rfl

/-- Two automata of one name are the same. -/
theorem automaton_unique (h : t.WellFormed) {i j : AutomatonId} {a b : Automaton}
    (ha : t.automaton? i = some a) (hb : t.automaton? j = some b) (hn : a.name = b.name) : i = j := by
  have hi := (h.automatonId?_iff a.name i).mpr ⟨a, ha, rfl⟩
  have hj := (h.automatonId?_iff a.name j).mpr ⟨b, hb, hn.symm⟩
  rw [hi] at hj
  exact Option.some.inj hj

theorem operation?_id (h : t.WellFormed) {o : Operation} (ho : o ∈ t.operations) :
    t.operation? o.id = some o := by
  obtain ⟨i, hi⟩ := List.getElem?_of_mem ho
  have hid : o.id = ⟨i⟩ := h.operation_id ⟨i⟩ o hi
  rw [hid]
  exact hi

/-- A list of the index names operations of its owner. -/
theorem indexed_owner (h : t.WellFormed) {owner name : String} {id : OperationId}
    (hid : id ∈ (t.operationIds.get? (owner, name)).getD []) :
    ∃ o, t.operation? id = some o ∧ o.owner = owner ∧ o.name = some name := by
  rw [h.indexed, List.mem_map] at hid
  obtain ⟨o, ho, rfl⟩ := hid
  obtain ⟨hmem, hkey⟩ := List.mem_filter.mp ho
  obtain ⟨howner, hname⟩ := of_decide_eq_true hkey
  exact ⟨o, h.operation?_id hmem, howner, hname⟩

/-! ## Changes of one kind of entity -/

theorem of_types (h : t.WellFormed) (hop : u = { t with types := u.types })
    (htypes : ∀ name type, u.type? name = some type → type.name = name) : u.WellFormed := by
  rw [hop] at htypes ⊢
  exact { h with type_name := htypes }

theorem internArray (h : t.WellFormed) (element : String) : (t.internArray element).WellFormed := by
  refine h.of_types rfl fun name type htype => ?_
  unfold SymbolTable.internArray TypeRegistry.internArray TypeRegistry.insert? at htype
  split at htype
  · exact h.type_name name type htype
  · simp only [SymbolTable.type?, TypeRegistry.get?, Option.getD_some, OrderedMap.get?_insert] at htype
    split at htype
    · rename_i hname
      cases htype
      exact hname.symm
    · exact h.type_name name type htype

theorem registerType (h : t.WellFormed) {type : DataType} (hu : t.registerType type = .ok u) :
    u.WellFormed := by
  obtain ⟨-, rfl⟩ := registerType_eq_ok.mp hu
  refine h.of_types rfl fun name type' htype => ?_
  simp only [SymbolTable.type?, TypeRegistry.get?, OrderedMap.get?_insert] at htype
  split at htype
  · rename_i hname
    cases htype
    exact hname.symm
  · exact h.type_name name type' htype

theorem registerAnnotationType (h : t.WellFormed) {a : Annotation}
    (hu : t.registerAnnotationType a = .ok u) : u.WellFormed := by
  obtain ⟨-, rfl⟩ := registerAnnotationType_eq_ok.mp hu
  exact { h with }

theorem modifyAutomaton (h : t.WellFormed) (id : AutomatonId) {f : Automaton → Automaton}
    (hid : ∀ a, (f a).id = a.id) (hname : ∀ a, (f a).name = a.name)
    (hops : ∀ a kind, (f a).operations kind = a.operations kind) :
    (t.modifyAutomaton id f).WellFormed := by
  have hback : ∀ j b, (t.modifyAutomaton id f).automaton? j = some b →
      ∃ a, t.automaton? j = some a ∧ b.id = a.id ∧ b.name = a.name ∧
        ∀ kind, b.operations kind = a.operations kind := by
    intro j b hb
    rw [automaton?_modifyAutomaton] at hb
    split at hb
    · obtain ⟨a, ha, rfl⟩ := Option.map_eq_some_iff.mp hb
      exact ⟨a, ha, hid a, hname a, hops a⟩
    · exact ⟨b, hb, rfl, rfl, fun _ => rfl⟩
  refine { h with
    automaton_id := ?automaton_id, automatonId?_iff := ?automatonId?_iff, listed := ?listed }
  case automaton_id =>
    intro j b hb
    obtain ⟨a, ha, hid, -⟩ := hback j b hb
    exact hid.trans (h.automaton_id j a ha)
  case automatonId?_iff =>
    intro name j
    refine (h.automatonId?_iff name j).trans ⟨?_, ?_⟩
    · rintro ⟨a, ha, rfl⟩
      rw [automaton?_modifyAutomaton, ha]
      split
      · exact ⟨f a, rfl, hname a⟩
      · exact ⟨a, rfl, rfl⟩
    · rintro ⟨b, hb, rfl⟩
      obtain ⟨a, ha, -, hb, -⟩ := hback j b hb
      exact ⟨a, ha, hb.symm⟩
  case listed =>
    intro j b hb kind
    obtain ⟨a, ha, -, hn, hk⟩ := hback j b hb
    rw [hk kind, hn]
    exact h.listed j a ha kind

theorem modifyOperation (h : t.WellFormed) (id : OperationId) {f : Operation → Operation}
    (hid : ∀ o, (f o).id = o.id) (hkind : ∀ o, (f o).kind = o.kind)
    (hname : ∀ o, (f o).name = o.name) (howner : ∀ o, (f o).owner = o.owner) :
    (t.modifyOperation id f).WellFormed := by
  refine { h with
    operation_id := ?operation_id, owner_known := ?owner_known, listed := ?listed,
    indexed := ?indexed }
  case operation_id =>
    intro j p hp
    rw [operation?_modifyOperation] at hp
    split at hp
    · obtain ⟨o, ho, rfl⟩ := Option.map_eq_some_iff.mp hp
      exact (hid o).trans (h.operation_id j o ho)
    · exact h.operation_id j p hp
  case owner_known =>
    intro p hp
    obtain ⟨j, hj⟩ := List.getElem?_of_mem hp
    have hj : (t.modifyOperation id f).operation? ⟨j⟩ = some p := hj
    rw [operation?_modifyOperation] at hj
    split at hj
    · obtain ⟨o, ho, rfl⟩ := Option.map_eq_some_iff.mp hj
      rw [howner o]
      exact h.owner_known o (List.mem_of_getElem? ho)
    · exact h.owner_known p (List.mem_of_getElem? hj)
  case listed =>
    intro j a ha kind
    refine (h.listed j a ha kind).trans (map_filter_modify t.operations id.index ?_ hid).symm
    intro o
    simp only [howner, hkind]
  case indexed =>
    intro owner name
    refine (h.indexed owner name).trans (map_filter_modify t.operations id.index ?_ hid).symm
    intro o
    simp only [howner, hname]

theorem modifyVariables (h : t.WellFormed) (scope : VariableScope)
    (f : OrderedMap String Variable → OrderedMap String Variable) :
    (t.modifyVariables scope f).WellFormed := by
  cases scope with
  | global => exact { h with }
  | automaton owner =>
    refine h.modifyAutomaton owner (fun _ => rfl) (fun _ => rfl) fun a kind => ?_
    cases kind <;> rfl
  | constructorParameter owner =>
    refine h.modifyAutomaton owner (fun _ => rfl) (fun _ => rfl) fun a kind => ?_
    cases kind <;> rfl
  | argument owner => exact h
  | body owner =>
    exact h.modifyOperation owner (fun _ => rfl) (fun _ => rfl) (fun _ => rfl) fun _ => rfl
  | result owner =>
    exact h.modifyOperation owner (fun _ => rfl) (fun _ => rfl) (fun _ => rfl) fun _ => rfl

theorem registerVariable (h : t.WellFormed) {v : Variable} (hu : t.registerVariable v = .ok u) :
    u.WellFormed := by
  obtain ⟨-, -, rfl⟩ := registerVariable_eq_ok.mp hu
  exact h.modifyVariables v.scope _

theorem withResult (h : t.WellFormed) (id : OperationId) (span : Span) :
    (t.withResult id span).WellFormed := by
  have hkeep := fun o : Operation => o.toSignature_withResult id span
  refine h.modifyOperation id (fun o => o.id_withResult id span) ?_ ?_ ?_
  · exact fun o => congrArg Signature.kind (hkeep o)
  · exact fun o => congrArg Signature.name (hkeep o)
  · exact fun o => congrArg Signature.owner (hkeep o)

/-! ## New automata and operations -/

/-- A name that no automaton has owns no operation. -/
theorem owner_ne (h : t.WellFormed) {name : String} (hnone : t.automatonId? name = none)
    {o : Operation} (ho : o ∈ t.operations) : o.owner ≠ name := by
  obtain ⟨owner, howner⟩ := h.owner_known o ho
  rintro rfl
  rw [hnone] at howner
  cases howner

/-- A new name leads to the automaton added last. -/
theorem automatonId?_concat (h : t.WellFormed) {name : String} (hnone : t.automatonId? name = none)
    {a : Automaton} (ha : a.name = name) (n : String) (j : AutomatonId) :
    (t.automatonIds.insert name ⟨t.automata.length⟩).get? n = some j ↔
      ∃ b, (t.automata ++ [a])[j.index]? = some b ∧ b.name = n := by
  rw [OrderedMap.get?_insert]
  simp only [getElem?_concat_eq_some]
  split
  · rename_i hn
    subst hn
    constructor
    · rintro ⟨⟩
      exact ⟨a, Or.inr ⟨rfl, rfl⟩, ha⟩
    · rintro ⟨b, hb | ⟨hj, rfl⟩, hbn⟩
      · have hj := (h.automatonId?_iff n j).mpr ⟨b, hb, hbn⟩
        rw [hnone] at hj
        cases hj
      · rw [← hj]
  · rename_i hn
    refine (h.automatonId?_iff n j).trans ⟨?_, ?_⟩
    · rintro ⟨b, hb, hbn⟩
      exact ⟨b, Or.inl hb, hbn⟩
    · rintro ⟨b, hb | ⟨-, rfl⟩, hbn⟩
      · exact ⟨b, hb, hbn⟩
      · exact (hn (hbn.symm.trans ha)).elim

theorem registerAutomaton (h : t.WellFormed) {name type : String} {span : Span} {id : AutomatonId}
    (hu : t.registerAutomaton name type span = .ok (id, u)) : u.WellFormed := by
  obtain ⟨hnew, -, rfl⟩ := registerAutomaton_eq_ok.mp hu
  have hnone : t.automatonId? name = none := by
    rw [OrderedMap.contains, Option.isSome_eq_false_iff, Option.isNone_iff_eq_none] at hnew
    exact hnew
  refine { h with
    automaton_id := ?_, automatonId?_iff := h.automatonId?_concat hnone rfl, owner_known := ?_,
    listed := ?_ }
  · intro j b hb
    rcases getElem?_concat_eq_some.mp hb with hb | ⟨hj, rfl⟩
    · exact h.automaton_id j b hb
    · exact congrArg AutomatonId.mk hj.symm
  · intro o ho
    obtain ⟨owner, howner⟩ := h.owner_known o ho
    refine ⟨owner, ?_⟩
    simp only [SymbolTable.automatonId?, OrderedMap.get?_insert]
    rw [if_neg (h.owner_ne hnone ho)]
    exact howner
  · intro j b hb kind
    rcases getElem?_concat_eq_some.mp hb with hb | ⟨-, rfl⟩
    · exact h.listed j b hb kind
    · have hempty : (Automaton.skeleton ⟨t.automata.length⟩ name type span).operations kind = [] := by
        cases kind <;> rfl
      rw [hempty, eq_comm, List.map_eq_nil_iff, List.filter_eq_nil_iff]
      intro o ho hkey
      exact h.owner_ne hnone ho (of_decide_eq_true hkey).1

/-- A new operation is listed by its owner, and by no other automaton. -/
theorem automaton?_addOperation (h : t.WellFormed) {owner : AutomatonId} {s : Signature}
    (howner : t.automatonId? s.owner = some owner) {j : AutomatonId} {b : Automaton}
    (hb : (t.addOperation owner s).2.automaton? j = some b) :
    ∃ a, t.automaton? j = some a ∧ b.id = a.id ∧ b.name = a.name ∧
      ∀ kind, b.operations kind = if s.owner = a.name ∧ s.kind = kind
        then a.operations kind ++ [⟨t.operations.length⟩] else a.operations kind := by
  -- automata are told apart by name here, so the owner has to be the only one of its name
  obtain ⟨a, ha, hname⟩ := (h.automatonId?_iff s.owner owner).mp howner
  have hb : (t.modifyAutomaton owner fun a => a.addOperation s.kind ⟨t.operations.length⟩).automaton?
      j = some b := hb
  rw [automaton?_modifyAutomaton] at hb
  split at hb
  · rename_i hj
    obtain ⟨a', ha', rfl⟩ := Option.map_eq_some_iff.mp hb
    subst hj
    rw [ha] at ha'
    cases ha'
    refine ⟨a, ha, a.id_addOperation _ _, a.name_addOperation _ _, fun kind => ?_⟩
    simp only [Automaton.operations_addOperation, hname, true_and]
  · rename_i hj
    refine ⟨b, hb, rfl, rfl, fun kind => ?_⟩
    rw [if_neg]
    rintro ⟨heq, -⟩
    exact hj (h.automaton_unique hb ha (heq.symm.trans hname.symm))

theorem indexed_addOperation (h : t.WellFormed) (id : AutomatonId) (s : Signature)
    (owner name : String) :
    ((t.addOperation id s).2.operationIds.get? (owner, name)).getD [] =
      ((t.addOperation id s).2.operationsNamed owner name).map Operation.id := by
  have hind := h.indexed owner name
  simp only [SymbolTable.addOperation, indexOperation, operationsNamed, List.filter_append,
    List.map_append] at hind ⊢
  cases hsn : s.name with
  | none => simp [hind, Operation.ofSignature, hsn]
  | some name' =>
    simp only [OrderedMap.get?_insert, Prod.mk.injEq]
    split
    · rename_i hkey
      obtain ⟨rfl, rfl⟩ := hkey
      simp [hind, Operation.ofSignature, hsn]
    · rename_i hkey
      have hnone : ¬((Operation.ofSignature ⟨t.operations.length⟩ s).owner = owner ∧
          (Operation.ofSignature ⟨t.operations.length⟩ s).name = some name) := by
        rintro ⟨rfl, hname⟩
        rw [show (Operation.ofSignature _ s).name = s.name from rfl, hsn] at hname
        exact hkey ⟨rfl, (Option.some.inj hname).symm⟩
      rw [hind]
      simp [hnone]

theorem addOperation (h : t.WellFormed) {owner : AutomatonId} {s : Signature}
    (howner : t.automatonId? s.owner = some owner) : (t.addOperation owner s).2.WellFormed := by
  refine { h with
    automaton_id := ?automaton_id, automatonId?_iff := ?automatonId?_iff,
    operation_id := ?operation_id, owner_known := ?owner_known, listed := ?listed,
    indexed := h.indexed_addOperation owner s }
  case automaton_id =>
    intro j b hb
    obtain ⟨a, ha, hid, -⟩ := h.automaton?_addOperation howner hb
    exact hid.trans (h.automaton_id j a ha)
  case automatonId?_iff =>
    intro name j
    refine (h.automatonId?_iff name j).trans ⟨?_, ?_⟩
    · rintro ⟨b, hb, rfl⟩
      show ∃ c, (t.modifyAutomaton owner _).automaton? j = some c ∧ _
      rw [automaton?_modifyAutomaton, hb]
      split
      · exact ⟨_, rfl, b.name_addOperation _ _⟩
      · exact ⟨b, rfl, rfl⟩
    · rintro ⟨b, hb, rfl⟩
      obtain ⟨c, hc, -, hn, -⟩ := h.automaton?_addOperation howner hb
      exact ⟨c, hc, hn.symm⟩
  case operation_id =>
    intro j o ho
    rcases getElem?_concat_eq_some.mp ho with ho | ⟨hj, rfl⟩
    · exact h.operation_id j o ho
    · exact congrArg OperationId.mk hj.symm
  case owner_known =>
    intro o ho
    rcases List.mem_append.mp ho with ho | ho
    · exact h.owner_known o ho
    · rw [List.mem_singleton.mp ho]
      exact ⟨owner, howner⟩
  case listed =>
    intro j b hb kind
    obtain ⟨a, ha, -, hn, hops⟩ := h.automaton?_addOperation howner hb
    rw [hops kind, hn, h.listed j a ha kind]
    simp only [SymbolTable.addOperation, List.filter_append, List.map_append]
    split
    · rename_i hkey
      simp [Operation.ofSignature, hkey.1, hkey.2]
    · rename_i hkey
      have hnone : ¬((Operation.ofSignature ⟨t.operations.length⟩ s).owner = a.name ∧
          (Operation.ofSignature ⟨t.operations.length⟩ s).kind = kind) := hkey
      simp [hnone]

theorem registerOperation (h : t.WellFormed) {s : Signature} {r : Registration}
    (hu : t.registerOperation s = .ok (r, u)) : u.WellFormed := by
  obtain ⟨owner, howner, ⟨-, -, rfl⟩ | ⟨id, declared, -, -, -, -, -, rfl⟩⟩ :=
    registerOperation_cases hu
  · exact h.addOperation howner
  · exact h.modifyOperation id (fun _ => rfl) (fun _ => rfl) (fun _ => rfl) fun _ => rfl

end SymbolTable.WellFormed

/-! ## Runs -/

theorem Interns.wellFormed {t u : SymbolTable} (h : Interns t u) (ht : t.WellFormed) :
    u.WellFormed := by
  cases h with
  | array _ => exact ht.internArray _

theorem Furnishes.wellFormed {t u : SymbolTable} (h : Furnishes t u) (ht : t.WellFormed) :
    u.WellFormed := by
  cases h with
  | interns hu => exact hu.wellFormed ht
  | annotationType _ hu => exact ht.registerAnnotationType hu
  | state =>
    refine ht.modifyAutomaton _ (fun _ => rfl) (fun _ => rfl) fun a kind => ?_
    cases kind <;> rfl
  | «variable» _ _ _ hu => exact ht.registerVariable hu

theorem Declares.wellFormed {t u : SymbolTable} (h : Declares t u) (ht : t.WellFormed) :
    u.WellFormed := by
  cases h with
  | array element => exact ht.internArray element
  | type hu => exact ht.registerType hu
  | automaton hu => exact ht.registerAutomaton hu
  | furnishes hu => exact hu.wellFormed ht

theorem Signs.wellFormed {t u : SymbolTable} (h : Signs t u) (ht : t.WellFormed) :
    u.WellFormed := by
  cases h with
  | array => exact ht.internArray _
  | operation _ hu => exact (ht.registerOperation hu).withResult _ _

theorem Elaborates.wellFormed {t u : SymbolTable} (h : Elaborates t u) (ht : t.WellFormed) :
    u.WellFormed := by
  cases h with
  | array => exact ht.internArray _
  | initial => exact ht.modifyVariables _ _
  | shift =>
    refine ht.modifyAutomaton _ (fun _ => rfl) (fun _ => rfl) fun a kind => ?_
    cases kind <;> rfl
  | localVariable _ _ _ _ _ _ hu => exact ht.registerVariable hu
  | contract | statement =>
    exact ht.modifyOperation _ (fun _ => rfl) (fun _ => rfl) (fun _ => rfl) fun _ => rfl

/-- What each change keeps, a run keeps. -/
theorem keeps_of_reflTransGen {S : SymbolTable → SymbolTable → Prop} {P : SymbolTable → Prop}
    {t u : SymbolTable} (h : Relation.ReflTransGen S t u) (hS : ∀ t u, S t u → P t → P u)
    (ht : P t) : P u := by
  induction h with
  | refl => exact ht
  | tail _ h ih => exact hS _ _ h ih

namespace Run

theorem withAutomata_wellFormed (library : SyntaxTree.Library) :
    (withAutomata library).2.table.WellFormed :=
  keeps_of_reflTransGen (withAutomata_declares library) (fun _ _ => Declares.wellFormed) .empty

theorem withSignatures_wellFormed (options : Options) (library : SyntaxTree.Library) :
    (withSignatures options library).2.table.WellFormed :=
  keeps_of_reflTransGen (registerSignatures_signs _ _ _ _) (fun _ _ => Signs.wellFormed)
    (withAutomata_wellFormed library)

theorem analyze_wellFormed (options : Options) (library : SyntaxTree.Library) :
    (analyze options library).table.WellFormed :=
  keeps_of_reflTransGen (analyze_elaborates options library) (fun _ _ => Elaborates.wellFormed)
    (withSignatures_wellFormed options library)

end Run

end LibraryContract
