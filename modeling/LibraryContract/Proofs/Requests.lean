import LibraryContract.Proofs.Growth
import LibraryContract.Proofs.Overload
import LibraryContract.Proofs.Variables

/-!
# Tables made by registrations

What is registered stands in several places at once: automata and operations under their numbers,
automata also under their names, operations also in the list of their owner and kind, variables in
the collection that their scope names. A caller may ask for anything, in any order, and is sometimes
refused. The views of the table agree all the same.

* `SymbolTable.Consistent`: how the views of a table agree;
* `SymbolTable.Stores`: what a table has of a request that was accepted;
* `registrations_consistent`: every sequence of requests leads to a consistent table, which has
  everything that was accepted;
* `lookups_scan`: looking an operation up in such a table comes to the same as going through all of
  its operations.
-/

namespace LibraryContract

open SyntaxTree

/-- Something that a caller can ask to be registered. -/
inductive Request
  | type (type : DataType)
  | array (element : String)
  | automaton (name type : String) (span : Span)
  | operation (s : Signature)
  | variable (v : Variable)
  | annotationType (a : Annotation)

namespace SymbolTable

/-- Whether the automaton or the operation that a scope names has been registered. -/
def knowsOwner (t : SymbolTable) : VariableScope → Bool
  | .global => true
  | .automaton owner | .constructorParameter owner => (t.automaton? owner).isSome
  | .argument owner | .body owner | .result owner => (t.operation? owner).isSome

/-- The table after a request that is accepted. Callers have their numbers from earlier
registrations, so the owner of a variable has to be known. -/
def enter? (t : SymbolTable) : Request → Option SymbolTable
  | .type type => (t.registerType type).toOption
  | .array element => some (t.internArray element)
  | .automaton name type span => (t.registerAutomaton name type span).toOption.map Prod.snd
  | .operation s => (t.registerOperation s).toOption.map Prod.snd
  | .variable v => if t.knowsOwner v.scope then (t.registerVariable v).toOption else none
  | .annotationType a => (t.registerAnnotationType a).toOption

/-- The table after a sequence of requests. A refused one leaves it as it is. -/
def entered (t : SymbolTable) (requests : List Request) : SymbolTable :=
  requests.foldl (fun t request => (t.enter? request).getD t) t

/-- The requests of a sequence that are accepted. -/
def accepted (t : SymbolTable) : List Request → List Request
  | [] => []
  | request :: rest =>
    match t.enter? request with
    | some u => request :: u.accepted rest
    | none => t.accepted rest

/-- The views of a table agree: the numbers of automata and operations are their positions, names
lead to automata, every operation is listed once, by its owner and under its kind, in the order of
registration, and everything with a name stands under its name. -/
structure Consistent (t : SymbolTable) : Prop where
  automaton_id : ∀ (i : Nat) a, t.automata[i]? = some a → a.id = ⟨i⟩
  operation_id : ∀ (i : Nat) o, t.operations[i]? = some o → o.id = ⟨i⟩
  automaton_names : (t.automata.map Automaton.name).Nodup
  automatonId?_iff : ∀ name id,
    t.automatonId? name = some id ↔ ∃ a ∈ t.automata, a.name = name ∧ a.id = id
  owner_known : ∀ o ∈ t.operations, ∃ a ∈ t.automata, a.name = o.owner
  listed_once : ∀ o ∈ t.operations, ∀ a ∈ t.automata, ∀ kind,
    (a.operations kind).count o.id = if a.name = o.owner ∧ kind = o.kind then 1 else 0
  listed_known : ∀ a ∈ t.automata, ∀ kind, ∀ id ∈ a.operations kind, ∃ o ∈ t.operations, o.id = id
  increasing : ∀ a ∈ t.automata, ∀ kind,
    (a.operations kind).Pairwise fun i j => i.index < j.index
  keysDistinct : t.KeysDistinct
  housed : t.Housed
  type_name : ∀ name type, t.type? name = some type → type.name = name

/-- What a table has of an accepted request. A definition is found with its declaration, under the
key of both. -/
def Stores (t : SymbolTable) : Request → Prop
  | .type type => t.type? type.name = some type
  | .array element => t.Knows (DataType.arrayName element)
  | .automaton name type span =>
    ∃ a ∈ t.automata, a.name = name ∧ a.type = type ∧ a.span = span
  | .operation s =>
    ∃ o ∈ t.operations, o.key = s.key ∧ (s.hasBody = true → o.hasBody = true)
  | .variable v => ∃ w, (t.variablesIn v.scope).get? v.name = some w ∧ v.GrowsTo w
  | .annotationType a => t.annotation? a.name = some a

variable {t u : SymbolTable}

/-! ## The views agree -/

theorem WellFormed.automaton_names (h : t.WellFormed) : (t.automata.map Automaton.name).Nodup := by
  refine List.pairwise_map.mpr (List.pairwise_iff_getElem.mpr fun i j hi hj hlt hname => ?_)
  have hij : (⟨i⟩ : AutomatonId) = ⟨j⟩ :=
    h.automaton_unique (List.getElem?_eq_getElem hi) (List.getElem?_eq_getElem hj) hname
  have : i = j := congrArg AutomatonId.index hij
  omega

theorem WellFormed.operations_increasing (h : t.WellFormed) :
    t.operations.Pairwise fun o p => o.id.index < p.id.index := by
  refine List.pairwise_iff_getElem.mpr fun i j hi hj hlt => ?_
  rw [h.operation_id ⟨i⟩ _ (List.getElem?_eq_getElem hi),
    h.operation_id ⟨j⟩ _ (List.getElem?_eq_getElem hj)]
  exact hlt

theorem WellFormed.increasing (h : t.WellFormed) {a : Automaton} (ha : a ∈ t.automata)
    (kind : OperationKind) : (a.operations kind).Pairwise fun i j => i.index < j.index := by
  obtain ⟨i, hi⟩ := List.getElem?_of_mem ha
  rw [h.listed ⟨i⟩ a hi kind]
  exact List.pairwise_map.mpr (h.operations_increasing.filter _)

/-- A list has the operations of its owner and its kind, and no others. -/
theorem WellFormed.mem_operations (h : t.WellFormed) {a : Automaton} (ha : a ∈ t.automata)
    {kind : OperationKind} {o : Operation} (ho : o ∈ t.operations) :
    o.id ∈ a.operations kind ↔ a.name = o.owner ∧ kind = o.kind := by
  obtain ⟨i, hi⟩ := List.getElem?_of_mem ha
  rw [h.listed ⟨i⟩ a hi kind, List.mem_map]
  constructor
  · rintro ⟨p, hp, hid⟩
    obtain ⟨hp, hkey⟩ := List.mem_filter.mp hp
    -- an operation is found again by its number
    have hsame : p = o := by
      have hop := h.operation?_id hp
      rw [hid, h.operation?_id ho] at hop
      exact (Option.some.inj hop).symm
    subst hsame
    obtain ⟨howner, hkind⟩ := of_decide_eq_true hkey
    exact ⟨howner.symm, hkind.symm⟩
  · rintro ⟨howner, hkind⟩
    exact ⟨o, List.mem_filter.mpr ⟨ho, decide_eq_true ⟨howner.symm, hkind.symm⟩⟩, rfl⟩

theorem WellFormed.listed_once (h : t.WellFormed) {a : Automaton} (ha : a ∈ t.automata)
    (kind : OperationKind) {o : Operation} (ho : o ∈ t.operations) :
    (a.operations kind).count o.id = if a.name = o.owner ∧ kind = o.kind then 1 else 0 := by
  have hnodup : (a.operations kind).Nodup :=
    (h.increasing ha kind).imp fun {i j} hlt heq => by
      rw [heq] at hlt
      omega
  rw [hnodup.count]
  exact if_congr (h.mem_operations ha ho) rfl rfl

theorem WellFormed.consistent (h : t.WellFormed) (hk : t.KeysDistinct) (hh : t.Housed) :
    t.Consistent where
  automaton_id i a ha := h.automaton_id ⟨i⟩ a ha
  operation_id i o ho := h.operation_id ⟨i⟩ o ho
  automaton_names := h.automaton_names
  automatonId?_iff name id := by
    refine (h.automatonId?_iff name id).trans ⟨?_, ?_⟩
    · rintro ⟨a, ha, hname⟩
      exact ⟨a, List.mem_of_getElem? ha, hname, h.automaton_id id a ha⟩
    · rintro ⟨a, ha, hname, rfl⟩
      obtain ⟨i, hi⟩ := List.getElem?_of_mem ha
      have hid : a.id = ⟨i⟩ := h.automaton_id ⟨i⟩ a hi
      exact ⟨a, by rw [hid]; exact hi, hname⟩
  owner_known o ho := by
    obtain ⟨owner, howner⟩ := h.owner_known o ho
    obtain ⟨a, ha, hname⟩ := (h.automatonId?_iff o.owner owner).mp howner
    exact ⟨a, List.mem_of_getElem? ha, hname⟩
  listed_once o ho a ha kind := h.listed_once ha kind ho
  listed_known a ha kind id hid := by
    obtain ⟨i, hi⟩ := List.getElem?_of_mem ha
    rw [h.listed ⟨i⟩ a hi kind] at hid
    obtain ⟨o, ho, hoid⟩ := List.mem_map.mp hid
    exact ⟨o, List.mem_of_mem_filter ho, hoid⟩
  increasing a ha kind := h.increasing ha kind
  keysDistinct := hk
  housed := hh
  type_name := h.type_name

end SymbolTable

/-! ## One request -/

variable {t u : SymbolTable}

theorem Admits.growsTo (h : Admits t u) : t.GrowsTo u := by
  cases h with
  | array element => exact t.growsTo_internArray element
  | type h => exact SymbolTable.registerType_growsTo h
  | annotationType h => exact SymbolTable.registerAnnotationType_growsTo h
  | automaton h => exact SymbolTable.registerAutomaton_growsTo h
  | «variable» h => exact SymbolTable.registerVariable_growsTo h
  | operation h => exact SymbolTable.registerOperation_growsTo h

theorem Admits.housed (h : Admits t u) (ht : t.Housed) : u.Housed := by
  cases h with
  | array element => exact ht.of_variablesIn fun scope => by cases scope <;> rfl
  | type h =>
    obtain ⟨-, rfl⟩ := SymbolTable.registerType_eq_ok.mp h
    exact ht.of_variablesIn fun scope => by cases scope <;> rfl
  | annotationType h =>
    obtain ⟨-, rfl⟩ := SymbolTable.registerAnnotationType_eq_ok.mp h
    exact ht.of_variablesIn fun scope => by cases scope <;> rfl
  | automaton h => exact ht.registerAutomaton h
  | «variable» h => exact ht.registerVariable h
  | operation h => exact ht.registerOperation h

namespace SymbolTable

theorem toOption_eq_some {ε α : Type} {x : Except ε α} {a : α} :
    x.toOption = some a ↔ x = .ok a := by
  cases x <;> simp [Except.toOption]

theorem enter?_admits {request : Request} (h : t.enter? request = some u) : Admits t u := by
  cases request with
  | type type => exact .type (toOption_eq_some.mp h)
  | array element =>
    cases h
    exact .array element
  | automaton name type span =>
    obtain ⟨⟨id, u⟩, hu, rfl⟩ := Option.map_eq_some_iff.mp h
    exact .automaton (toOption_eq_some.mp hu)
  | operation s =>
    obtain ⟨⟨r, u⟩, hu, rfl⟩ := Option.map_eq_some_iff.mp h
    exact .operation (toOption_eq_some.mp hu)
  | «variable» v =>
    rw [enter?] at h
    split at h
    · exact .variable (toOption_eq_some.mp h)
    · cases h
  | annotationType a => exact .annotationType (toOption_eq_some.mp h)

/-- The collection of a variable is changed when its owner is there. -/
theorem variablesIn_modifyVariables_of_known {scope : VariableScope} (hk : t.knowsOwner scope = true)
    (hs : ∀ id, scope ≠ .argument id)
    (f : OrderedMap String Variable → OrderedMap String Variable) :
    (t.modifyVariables scope f).variablesIn scope = f (t.variablesIn scope) := by
  cases scope with
  | global => rfl
  | automaton owner =>
    obtain ⟨a, ha⟩ := Option.isSome_iff_exists.mp hk
    simp only [modifyVariables, variablesIn, automaton?_modifyAutomaton, ha, if_true,
      Option.map_some, Option.getD_some]
  | constructorParameter owner =>
    obtain ⟨a, ha⟩ := Option.isSome_iff_exists.mp hk
    simp only [modifyVariables, variablesIn, automaton?_modifyAutomaton, ha, if_true,
      Option.map_some, Option.getD_some]
  | argument owner => exact (hs owner rfl).elim
  | body owner =>
    obtain ⟨o, ho⟩ := Option.isSome_iff_exists.mp hk
    simp only [modifyVariables, variablesIn, operation?_modifyOperation, ho, if_true,
      Option.map_some, Option.getD_some]
  | result owner =>
    obtain ⟨o, ho⟩ := Option.isSome_iff_exists.mp hk
    simp only [modifyVariables, variablesIn, operation?_modifyOperation, ho, if_true,
      Option.map_some, Option.getD_some]

/-- An accepted signature has an operation, a new one or the one that it completes. -/
theorem WellFormed.registerOperation_key (h : t.WellFormed) {s : Signature} {r : Registration}
    (hu : t.registerOperation s = .ok (r, u)) :
    ∃ o ∈ u.operations, o.key = s.key ∧ (s.hasBody = true → o.hasBody = true) := by
  obtain ⟨owner, howner, ⟨-, -, rfl⟩ | ⟨id, declared, hfound, -, -, -, -, rfl⟩⟩ :=
    registerOperation_cases hu
  · exact ⟨_, List.mem_append_right _ (List.mem_singleton.mpr rfl), rfl, fun hs => hs⟩
  · obtain ⟨ho, hname, -, -⟩ := overload?_eq_some hfound
    obtain ⟨hkind, howns⟩ := h.overload?_key howner hfound
    have hcompleted : (t.modifyOperation id fun o => o.complete s).operation? id =
        some (declared.complete s) := by
      rw [operation?_modifyOperation, if_pos rfl, ho]
      rfl
    refine ⟨_, List.mem_of_getElem? hcompleted, ?_, fun _ => rfl⟩
    simp only [Signature.key, Operation.complete, Signature.argumentTypes, hname, hkind, howns]

/-- An accepted request is in the table. -/
theorem enter?_stores (hw : t.WellFormed) {request : Request} (h : t.enter? request = some u) :
    u.Stores request := by
  cases request with
  | type type =>
    obtain ⟨-, rfl⟩ := registerType_eq_ok.mp (toOption_eq_some.mp h)
    exact OrderedMap.get?_insert_self _ _ _
  | array element =>
    cases h
    exact knows_internArray.mpr (Or.inr rfl)
  | automaton name type span =>
    obtain ⟨⟨id, u⟩, hu, rfl⟩ := Option.map_eq_some_iff.mp h
    have ha := registerAutomaton_skeleton (toOption_eq_some.mp hu)
    exact ⟨_, List.mem_of_getElem? ha, rfl, rfl, rfl⟩
  | operation s =>
    obtain ⟨⟨r, u⟩, hu, rfl⟩ := Option.map_eq_some_iff.mp h
    exact hw.registerOperation_key (toOption_eq_some.mp hu)
  | «variable» v =>
    rw [enter?] at h
    split at h
    · rename_i hknown
      obtain ⟨hscope, -, rfl⟩ := registerVariable_eq_ok.mp (toOption_eq_some.mp h)
      refine ⟨v, ?_, .refl v⟩
      rw [variablesIn_modifyVariables_of_known hknown hscope, OrderedMap.get?_insert_self]
    · cases h
  | annotationType a =>
    obtain ⟨-, rfl⟩ := registerAnnotationType_eq_ok.mp (toOption_eq_some.mp h)
    exact OrderedMap.get?_insert_self _ _ _

/-- What a table has of a request, it keeps. -/
theorem Stores.mono {request : Request} (h : t.Stores request) (hu : t.GrowsTo u) :
    u.Stores request := by
  cases request with
  | type type => exact hu.type? h
  | array element => exact hu.knows h
  | automaton name type span =>
    obtain ⟨a, ha, hname, htype, hspan⟩ := h
    obtain ⟨i, hi⟩ := List.getElem?_of_mem ha
    obtain ⟨b, hb, hab⟩ := hu.automata.getElem? hi
    exact ⟨b, List.mem_of_getElem? hb, hab.name.trans hname, hab.type.trans htype,
      hab.span.trans hspan⟩
  | operation s =>
    obtain ⟨o, ho, hkey, hbody⟩ := h
    obtain ⟨i, hi⟩ := List.getElem?_of_mem ho
    obtain ⟨p, hp, hop⟩ := hu.operations.getElem? hi
    refine ⟨p, List.mem_of_getElem? hp, ?_, fun hs => hop.hasBody (hbody hs)⟩
    rw [← hkey, Signature.key, Signature.key, hop.kind, hop.name, hop.owner, hop.argumentTypes]
  | «variable» v =>
    obtain ⟨w, hw, hvw⟩ := h
    obtain ⟨x, hx, hwx⟩ := hu.variableIn? hw
    exact ⟨x, hx, hvw.trans hwx⟩
  | annotationType a => exact hu.annotation? h

end SymbolTable

/-! ## Sequences of requests -/

namespace SymbolTable

theorem entered_cons (t : SymbolTable) (request : Request) (rest : List Request) :
    t.entered (request :: rest) = ((t.enter? request).getD t).entered rest := rfl

/-- A sequence of requests is a sequence of accepted registrations. -/
theorem entered_admits (t : SymbolTable) (requests : List Request) :
    Relation.ReflTransGen Admits t (t.entered requests) := by
  induction requests generalizing t with
  | nil => exact .refl
  | cons request rest ih =>
    rw [entered_cons]
    cases h : t.enter? request with
    | none => exact ih t
    | some u => exact .head (enter?_admits h) (ih u)

theorem accepted_stored (hw : t.WellFormed) {requests : List Request} :
    ∀ request ∈ t.accepted requests, (t.entered requests).Stores request := by
  induction requests generalizing t with
  | nil => exact List.forall_mem_nil _
  | cons request rest ih =>
    rw [entered_cons, accepted]
    cases h : t.enter? request with
    | none => exact ih hw
    | some u =>
      refine List.forall_mem_cons.mpr ⟨?_, ih ((enter?_admits h).wellFormed hw)⟩
      refine (enter?_stores hw h).mono ?_
      exact .of_reflTransGen (u.entered_admits rest) fun _ _ => Admits.growsTo

end SymbolTable

/-- Whatever is asked for, in whatever order, the views of the table agree, and everything that was
accepted is there. -/
theorem registrations_consistent (requests : List Request) :
    (SymbolTable.empty.entered requests).Consistent ∧
      ∀ request ∈ SymbolTable.empty.accepted requests,
        (SymbolTable.empty.entered requests).Stores request := by
  have hreach : (SymbolTable.empty.entered requests).Reachable :=
    Relation.ReflTransGen.mono (fun _ _ => .admits) _ _ (SymbolTable.empty.entered_admits requests)
  have hhoused : (SymbolTable.empty.entered requests).Housed :=
    keeps_of_reflTransGen (SymbolTable.empty.entered_admits requests) (fun _ _ => Admits.housed)
      .empty
  exact ⟨hreach.wellFormed.consistent hreach.keysDistinct hhoused,
    SymbolTable.accepted_stored .empty⟩

/-! ## Looking operations up -/

/-- What a look through a list of operations comes to: the only one of them or, when argument types
are given, the first one that has these. -/
def OperationLookup.ofScan (operations : List Operation) : Option (List String) → OperationLookup
  | none =>
    match operations.map Operation.id with
    | [] => .notFound
    | [id] => .found id
    | ids => .ambiguous ids
  | some types =>
    match operations.find? fun o => decide (o.argumentTypes = types) with
    | some o => .found o.id
    | none => .notFound

/-- The index of operations is as good as the list of all operations. -/
theorem SymbolTable.WellFormed.lookupOperation_eq_scan (h : t.WellFormed) (name automaton : String)
    (types : Option (List String)) :
    t.lookupOperation name automaton types =
      .ofScan (t.operationsNamed automaton name) types := by
  cases types with
  | none =>
    rw [lookupOperation, h.indexed]
    rfl
  | some types =>
    rw [h.lookupOperation_eq, overloads, List.head?_filter]
    rfl

/-- Whatever is asked for, in whatever order, accepted or refused: an operation that is looked up in
the table is found, or not found, as it would be by going through all operations with its owner and
its name, in the order in which they were registered. -/
theorem lookups_scan (requests : List Request) (name automaton : String)
    (types : Option (List String)) :
    let t := SymbolTable.empty.entered requests
    t.lookupOperation name automaton types = .ofScan (t.operationsNamed automaton name) types ∧
      ((t.operationsNamed automaton name).Pairwise fun o p => o.id.index < p.id.index) ∧
      ∀ o ∈ t.operationsNamed automaton name, t.operation? o.id = some o := by
  have hw : (SymbolTable.empty.entered requests).WellFormed :=
    keeps_of_reflTransGen (SymbolTable.empty.entered_admits requests) (fun _ _ => Admits.wellFormed)
      .empty
  refine ⟨hw.lookupOperation_eq_scan name automaton types, ?_, fun o ho => ?_⟩
  · exact hw.operations_increasing.filter _
  · exact hw.operation?_id (List.mem_of_mem_filter ho)

/-- A function `f` of the automaton `A`, once more the same, and a procedure `f`. -/
def overloadRequests : List Request :=
  [.type (.simple "Int"), .automaton "A" "Int" (.onLine 1),
    .operation (Overload.onNumber .function), .operation (Overload.onNumber .function),
    .operation (Overload.onNumber .procedure)]

/-- The second function is refused; the procedure is the second operation called `f`. -/
theorem lookups_scan_overloads :
    let t := SymbolTable.empty.entered overloadRequests
    ∃ o ∈ t.operationsNamed "A" "f", o.id = ⟨1⟩ ∧
      t.lookupOperation "f" "A" none = .ambiguous [⟨0⟩, ⟨1⟩] ∧
      t.lookupOperation "f" "A" none = .ofScan (t.operationsNamed "A" "f") none ∧
      ((t.operationsNamed "A" "f").Pairwise fun o p => o.id.index < p.id.index) ∧
      t.operation? o.id = some o := by
  intro t
  have hids : (t.operationsNamed "A" "f").map Operation.id = [⟨0⟩, ⟨1⟩] := by decide +kernel
  have hmem : (⟨1⟩ : OperationId) ∈ (t.operationsNamed "A" "f").map Operation.id := by
    rw [hids]
    decide
  obtain ⟨o, ho, hid⟩ := List.mem_map.mp hmem
  obtain ⟨hscan, hordered, hknown⟩ := lookups_scan overloadRequests "f" "A" none
  refine ⟨o, ho, hid, ?_, hscan, hordered, hknown o ho⟩
  rw [hscan, OperationLookup.ofScan, hids]

end LibraryContract
