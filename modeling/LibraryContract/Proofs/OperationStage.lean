import LibraryContract.Proofs.Requests
import LibraryContract.Proofs.SignatureFace
import Mathlib.Data.List.Chain
import Mathlib.Data.List.Infix

/-!
# The stages of an operation

Operations are registered under their keys. At first no operation has a given key; a signature
without a body declares one, a signature with a body defines one, and a definition may also come
after its declaration. Nothing else happens to a key, whatever is registered under other ones and
whatever is refused.

* `SymbolTable.withKey?`, `SymbolTable.stage`: the operation with a key, and how far it has come;
* `WellFormed.registerOperation_answer`: what a registration answers depends on the entry of its key
  alone;
* `WellFormed.stage_entered`: one registration moves each key one stage at most;
* `registration_in_stages`: so does every registration of a sequence.
-/

namespace LibraryContract

/-! ## Stages -/

/-- How far the operation with a key has come. -/
inductive Stage
  | absent
  /-- There is an operation, without a body. -/
  | declared
  | defined
deriving DecidableEq, Repr

inductive Stage.Moves : Stage → Stage → Prop
  | declare : Moves .absent .declared
  | define : Moves .absent .defined
  | complete : Moves .declared .defined

/-- Why a signature is refused when `o` has its key. -/
inductive Operation.Refuses (o : Operation) (s : Signature) : RegistrationError → Prop
  | duplicate (h : o.hasBody = true ∨ s.hasBody = false) :
      Refuses o s (.duplicate (.operation s.kind) o.displayName)
  | mismatch {declared defined : String} (hlacks : o.hasBody = false) (hbrings : s.hasBody = true)
      (hdeclared : o.returnType = some declared) (hdefined : s.returnType = some defined)
      (hne : declared ≠ defined) : Refuses o s (.signatureMismatch o.displayName declared defined)

namespace SymbolTable

/-- The operation with a key. -/
def withKey? (t : SymbolTable) (key : Signature.Key) : Option Operation :=
  t.operations.find? fun o => decide (o.key = key)

def stage (t : SymbolTable) (key : Signature.Key) : Stage :=
  match t.withKey? key with
  | none => .absent
  | some o => if o.hasBody then .defined else .declared

/-- The answer to a signature of the automaton `owner`, by the entry of its key. -/
inductive Answer (t : SymbolTable) (owner : AutomatonId) (s : Signature) :
    Except RegistrationError (Registration × SymbolTable) → Prop
  | new (h : t.withKey? s.key = none) :
      Answer t owner s (.ok (.new ⟨t.operations.length⟩, (t.addOperation owner s).2))
  | completed {o : Operation} (h : t.withKey? s.key = some o) (hs : s.face.Completes o.face) :
      Answer t owner s (.ok (.completed o.id, t.modifyOperation o.id fun o => o.complete s))
  | refused {o : Operation} {e : RegistrationError} (h : t.withKey? s.key = some o)
      (hs : ¬s.face.Completes o.face) (he : o.Refuses s e) : Answer t owner s (.error e)

/-- The table `u` is `t` with the operation `o` completed to `p`. -/
structure CompletesEntry (t u : SymbolTable) (s : Signature) (o p : Operation) : Prop where
  /-- The lists of the automata and the index of names are as they were. -/
  rest : u = { t with operations := u.operations }
  ids : u.operations.map Operation.id = t.operations.map Operation.id
  id : p.id = o.id
  kind : p.kind = o.kind
  name : p.name = o.name
  owner : p.owner = o.owner
  argumentTypes : p.argumentTypes = o.argumentTypes
  arguments : p.arguments = s.arguments
  returnType : p.returnType = o.returnType.or s.returnType
  hasBody : p.hasBody = true

/-- What comes of a signature, told by the operation that has its key. -/
structure Handles (t : SymbolTable) (s : Signature) : Prop where
  entry_iff : ∀ o, t.withKey? s.key = some o ↔ o ∈ t.operations ∧ o.key = s.key
  new_iff : (∃ id u, t.registerOperation s = .ok (.new id, u)) ↔ t.withKey? s.key = none
  completed_iff : (∃ id u, t.registerOperation s = .ok (.completed id, u)) ↔
    ∃ o, t.withKey? s.key = some o ∧ o.hasBody = false ∧ s.hasBody = true ∧
      ∀ declared ∈ o.returnType, ∀ defined ∈ s.returnType, declared = defined
  refused : ∀ e, t.registerOperation s = .error e →
    (∃ o, t.withKey? s.key = some o ∧ o.Refuses s e) ∧ t.entered [.operation s] = t
  created : ∀ id u, t.registerOperation s = .ok (.new id, u) →
    (∀ o ∈ t.operations, o.id ≠ id) ∧ u.withKey? s.key = some (.ofSignature id s)
  completed : ∀ id u, t.registerOperation s = .ok (.completed id, u) →
    ∃ o p, t.withKey? s.key = some o ∧ o.id = id ∧ u.withKey? s.key = some p ∧
      t.CompletesEntry u s o p
  others : ∀ r u, t.registerOperation s = .ok (r, u) → ∀ key, key ≠ s.key →
    u.withKey? key = t.withKey? key

variable {t u : SymbolTable} {s : Signature} {owner : AutomatonId} {key : Signature.Key}

/-! ## Entries -/

theorem KeysDistinct.withKey?_iff (h : t.KeysDistinct) {o : Operation} :
    t.withKey? key = some o ↔ o ∈ t.operations ∧ o.key = key := h.find?_iff

theorem withKey?_eq_none_iff : t.withKey? key = none ↔ key ∉ t.operations.map fun o => o.key := by
  simp only [withKey?, List.find?_eq_none, decide_eq_true_eq, List.mem_map, not_exists, not_and]

/-- The entry of its key is what a signature finds. -/
theorem WellFormed.overload?_eq (hw : t.WellFormed) (hd : t.KeysDistinct)
    (howner : t.automatonId? s.owner = some owner) :
    t.overload? owner s = (t.withKey? s.key).map fun o => (o.id, o) := by
  cases hfound : t.overload? owner s with
  | none =>
    rw [withKey?_eq_none_iff.mpr (hw.key_ne howner hfound)]
    rfl
  | some found =>
    obtain ⟨id, o⟩ := found
    obtain ⟨ho, hkey⟩ := hw.key_of_overload? howner hfound
    rw [hd.withKey?_iff.mpr ⟨List.mem_of_getElem? ho, hkey⟩, Option.map_some,
      hw.operation_id id o ho]

theorem withKey?_addOperation (t : SymbolTable) (owner : AutomatonId) (s : Signature)
    (key : Signature.Key) :
    (t.addOperation owner s).2.withKey? key = (t.withKey? key).or
      (if s.key = key then some (.ofSignature ⟨t.operations.length⟩ s) else none) := by
  show (t.operations ++ [Operation.ofSignature ⟨t.operations.length⟩ s]).find? _ = _
  rw [List.find?_append, List.find?_singleton]
  congr 1
  exact if_congr decide_eq_true_iff rfl rfl

theorem WellFormed.withKey?_modifyOperation (hw : t.WellFormed) (hd : t.KeysDistinct)
    {id : OperationId} {f : Operation → Operation}
    (hf : ∀ o, t.operation? id = some o → (f o).key = o.key) (key : Signature.Key) :
    (t.modifyOperation id f).withKey? key =
      (t.withKey? key).map fun o => if o.id = id then f o else o := by
  refine Option.ext fun p => ?_
  rw [(hd.modifyOperation id hf).withKey?_iff, Option.map_eq_some_iff]
  constructor
  · rintro ⟨hp, rfl⟩
    obtain ⟨i, hi⟩ := List.getElem?_of_mem hp
    have hi : (t.modifyOperation id f).operation? ⟨i⟩ = some p := hi
    rw [operation?_modifyOperation] at hi
    split at hi
    · rename_i hid
      obtain ⟨o, ho, rfl⟩ := Option.map_eq_some_iff.mp hi
      rw [hid] at ho
      have hentry := hd.withKey?_iff.mpr ⟨List.mem_of_getElem? ho, (hf o ho).symm⟩
      exact ⟨o, hentry, if_pos (hw.operation_id id o ho)⟩
    · rename_i hid
      have hentry := hd.withKey?_iff.mpr ⟨List.mem_of_getElem? hi, rfl⟩
      exact ⟨p, hentry, if_neg (hw.operation_id _ p hi ▸ hid)⟩
  · rintro ⟨o, ho, rfl⟩
    obtain ⟨hmem, rfl⟩ := hd.withKey?_iff.mp ho
    have hown := hw.operation?_id hmem
    split
    · rename_i hid
      rw [hid] at hown
      refine ⟨List.mem_of_getElem? (i := id.index) ?_, hf o hown⟩
      show (t.modifyOperation id f).operation? id = _
      rw [operation?_modifyOperation, if_pos rfl, hown, Option.map_some]
    · rename_i hid
      refine ⟨List.mem_of_getElem? (i := o.id.index) ?_, rfl⟩
      show (t.modifyOperation id f).operation? o.id = _
      rw [operation?_modifyOperation, if_neg hid, hown]

/-! ## One signature -/

/-- What a registration answers depends on the entry of its key alone. -/
theorem WellFormed.registerOperation_answer (hw : t.WellFormed) (hd : t.KeysDistinct)
    (howner : t.automatonId? s.owner = some owner) :
    t.Answer owner s (t.registerOperation s) := by
  have hfound := hw.overload?_eq hd howner
  unfold SymbolTable.registerOperation
  simp only [howner, hfound]
  cases hentry : t.withKey? s.key with
  | none => exact .new hentry
  | some o =>
    simp only [Option.map_some]
    split
    · rename_i hbody
      rw [Bool.and_eq_true, Bool.not_eq_true'] at hbody
      obtain ⟨hlacks, hbrings⟩ := hbody
      cases hconflict : o.returnConflict? s with
      | none =>
        exact .completed hentry ⟨hlacks, hbrings, Operation.returnConflict?_eq_none.mp hconflict⟩
      | some e =>
        refine .refused hentry (fun hs => ?_) ?_
        · rw [Operation.returnConflict?_eq_none.mpr hs.returnType] at hconflict
          cases hconflict
        · unfold Operation.returnConflict? at hconflict
          split at hconflict
          · rename_i declared defined hdeclared hdefined
            split at hconflict
            · cases hconflict
            · rename_i hne
              cases hconflict
              exact .mismatch hlacks hbrings hdeclared hdefined hne
          · cases hconflict
    · rename_i hbody
      rw [Bool.and_eq_true, Bool.not_eq_true', not_and_or, Bool.not_eq_false, Bool.not_eq_true]
        at hbody
      refine .refused hentry (fun hs => ?_) (.duplicate hbody)
      have hlacks : o.hasBody = false := hs.lacks
      have hbrings : s.hasBody = true := hs.brings
      rw [hlacks, hbrings] at hbody
      rcases hbody with h | h <;> cases h

/-- A completed operation has the key of its definition. -/
theorem key_complete {o : Operation} (h : o.key = s.key) : (o.complete s).key = o.key := by
  simp only [Signature.key, Prod.mk.injEq] at h
  obtain ⟨-, -, -, htypes⟩ := h
  simp only [Signature.key, Operation.complete, Signature.argumentTypes] at htypes ⊢
  rw [← htypes]

theorem WellFormed.withKey?_complete (hw : t.WellFormed) (hd : t.KeysDistinct) {o : Operation}
    (ho : t.withKey? s.key = some o) (key : Signature.Key) :
    (t.modifyOperation o.id fun o => o.complete s).withKey? key =
      if key = s.key then some (o.complete s) else t.withKey? key := by
  obtain ⟨hmem, hkey⟩ := hd.withKey?_iff.mp ho
  rw [hw.withKey?_modifyOperation hd fun p hp => ?_]
  · split
    · rename_i hsame
      rw [hsame, ho, Option.map_some, if_pos rfl]
    · rename_i hother
      cases hentry : t.withKey? key with
      | none => rfl
      | some p =>
        obtain ⟨hpmem, hpkey⟩ := hd.withKey?_iff.mp hentry
        have hid : p.id ≠ o.id := by
          intro hid
          have hp := hw.operation?_id hpmem
          rw [hid, hw.operation?_id hmem] at hp
          cases hp
          exact hother (hpkey.symm.trans hkey)
        rw [Option.map_some, if_neg hid]
  · rw [hw.operation?_id hmem] at hp
    cases hp
    exact key_complete hkey

theorem completesEntry {o : Operation} (hkey : o.key = s.key) :
    t.CompletesEntry (t.modifyOperation o.id fun o => o.complete s) s o (o.complete s) where
  rest := rfl
  ids := by
    refine List.ext_getElem? fun i => ?_
    simp only [SymbolTable.modifyOperation, List.getElem?_map, List.getElem?_modify]
    split
    · cases t.operations[i]? <;> rfl
    · simp
  id := rfl
  kind := rfl
  name := rfl
  owner := rfl
  argumentTypes := (Prod.mk.inj (Prod.mk.inj (Prod.mk.inj (key_complete hkey)).2).2).2
  arguments := rfl
  returnType := rfl
  hasBody := rfl

theorem completes_face_iff {o : Operation} : s.face.Completes o.face ↔ o.hasBody = false ∧
    s.hasBody = true ∧ ∀ declared ∈ o.returnType, ∀ defined ∈ s.returnType, declared = defined :=
  ⟨fun h => ⟨h.lacks, h.brings, h.returnType⟩, fun h => ⟨h.1, h.2.1, h.2.2⟩⟩

/-- The number of the next operation is not taken. -/
theorem WellFormed.operation_id_ne_next (hw : t.WellFormed) {o : Operation}
    (ho : o ∈ t.operations) : o.id ≠ ⟨t.operations.length⟩ := by
  intro hid
  have hin := hw.operation?_id ho
  rw [hid, operation?, List.getElem?_eq_none (Nat.le_refl _)] at hin
  cases hin

theorem WellFormed.handles_new (hw : t.WellFormed) (hd : t.KeysDistinct)
    (hnone : t.withKey? s.key = none)
    (hresult : t.registerOperation s =
      .ok (.new ⟨t.operations.length⟩, (t.addOperation owner s).2)) : t.Handles s where
  entry_iff _ := hd.withKey?_iff
  new_iff := by simp [hresult, hnone]
  completed_iff := by simp [hresult, hnone]
  refused := by simp [hresult]
  created := by
    rw [hresult]
    rintro id u ⟨⟩
    refine ⟨fun o ho => hw.operation_id_ne_next ho, ?_⟩
    rw [withKey?_addOperation, hnone, if_pos rfl, Option.none_or]
  completed := by simp [hresult]
  others := by
    rw [hresult]
    rintro r u ⟨⟩ key hne
    rw [withKey?_addOperation, if_neg hne.symm, Option.or_none]

theorem WellFormed.handles_completed (hw : t.WellFormed) (hd : t.KeysDistinct) {o : Operation}
    (ho : t.withKey? s.key = some o) (hs : s.face.Completes o.face)
    (hresult : t.registerOperation s =
      .ok (.completed o.id, t.modifyOperation o.id fun o => o.complete s)) : t.Handles s where
  entry_iff _ := hd.withKey?_iff
  new_iff := by simp [hresult, ho]
  completed_iff := by simpa [hresult, ho] using completes_face_iff.mp hs
  refused := by simp [hresult]
  created := by simp [hresult]
  completed := by
    rw [hresult]
    rintro id u ⟨⟩
    have hentry := hw.withKey?_complete hd ho s.key
    rw [if_pos rfl] at hentry
    exact ⟨o, o.complete s, ho, rfl, hentry, completesEntry (hd.withKey?_iff.mp ho).2⟩
  others := by
    rw [hresult]
    rintro r u ⟨⟩ key hne
    rw [hw.withKey?_complete hd ho, if_neg hne]

theorem KeysDistinct.handles_refused (hd : t.KeysDistinct) {o : Operation} {e : RegistrationError}
    (ho : t.withKey? s.key = some o) (hs : ¬s.face.Completes o.face) (he : o.Refuses s e)
    (hresult : t.registerOperation s = .error e) : t.Handles s where
  entry_iff _ := hd.withKey?_iff
  new_iff := by simp [hresult, ho]
  completed_iff := by
    rw [hresult]
    constructor
    · rintro ⟨id, u, ⟨⟩⟩
    · rintro ⟨p, hp, hcompletes⟩
      rw [ho] at hp
      cases hp
      exact (hs (completes_face_iff.mpr hcompletes)).elim
  refused := by
    rw [hresult]
    rintro e' ⟨⟩
    refine ⟨⟨o, ho, he⟩, ?_⟩
    show ((t.registerOperation s).toOption.map Prod.snd).getD t = t
    rw [hresult]
    rfl
  created := by simp [hresult]
  completed := by simp [hresult]
  others := by simp [hresult]

theorem WellFormed.handles (hw : t.WellFormed) (hd : t.KeysDistinct)
    (howner : t.automatonId? s.owner = some owner) : t.Handles s := by
  have hanswer := hw.registerOperation_answer hd howner
  generalize hresult : t.registerOperation s = result at hanswer
  cases hanswer with
  | new hnone => exact hw.handles_new hd hnone hresult
  | completed ho hs => exact hw.handles_completed hd ho hs hresult
  | refused ho hs he => exact hd.handles_refused ho hs he hresult

theorem stage_of_withKey? {o : Operation} (h : t.withKey? key = some o) :
    t.stage key = if o.hasBody then .defined else .declared := by
  simp only [stage, h]

theorem stage_congr (h : u.withKey? key = t.withKey? key) : u.stage key = t.stage key := by
  simp only [stage, h]

/-- A registration moves a key one stage, or not at all. -/
theorem WellFormed.stage_entered (hw : t.WellFormed) (hd : t.KeysDistinct)
    (howner : t.automatonId? s.owner = some owner) (key : Signature.Key) :
    Relation.ReflGen Stage.Moves (t.stage key) ((t.entered [.operation s]).stage key) := by
  have hafter : t.entered [.operation s] =
      ((t.registerOperation s).toOption.map Prod.snd).getD t := rfl
  have hanswer := hw.registerOperation_answer hd howner
  rw [hafter]
  generalize t.registerOperation s = result at hanswer
  cases hanswer with
  | new hnone =>
    have hentry := t.withKey?_addOperation owner s key
    show Relation.ReflGen Stage.Moves (t.stage key) ((t.addOperation owner s).2.stage key)
    by_cases hkey : s.key = key
    · subst hkey
      rw [hnone, if_pos rfl, Option.none_or] at hentry
      rw [stage_of_withKey? hentry, stage, hnone, Operation.ofSignature]
      cases s.hasBody
      · exact .single .declare
      · exact .single .define
    · rw [if_neg hkey, Option.or_none] at hentry
      rw [stage_congr hentry]
  | @completed o ho hs =>
    have hentry := hw.withKey?_complete hd ho key
    show Relation.ReflGen Stage.Moves (t.stage key)
      ((t.modifyOperation o.id fun o => o.complete s).stage key)
    by_cases hkey : key = s.key
    · subst hkey
      have hlacks : o.hasBody = false := hs.lacks
      rw [if_pos rfl] at hentry
      rw [stage_of_withKey? hentry, stage_of_withKey? ho, hlacks, Operation.complete]
      exact .single .complete
    · rw [if_neg hkey] at hentry
      rw [stage_congr hentry]
  | refused _ _ _ => exact .refl

/-! ## Sequences of signatures -/

theorem Reachable.entered (h : t.Reachable) (requests : List Request) :
    (t.entered requests).Reachable :=
  h.trans (Relation.ReflTransGen.mono (fun _ _ => .admits) _ _ (t.entered_admits requests))

/-- The stages of a key before, between and after the registrations of a sequence. -/
def stagesOf (t : SymbolTable) (key : Signature.Key) (calls : List Signature) : List Stage :=
  calls.inits.map fun before => (t.entered (before.map .operation)).stage key

theorem stagesOf_cons (t : SymbolTable) (key : Signature.Key) (s : Signature)
    (rest : List Signature) :
    t.stagesOf key (s :: rest) = t.stage key :: (t.entered [.operation s]).stagesOf key rest := by
  simp only [stagesOf, List.inits_cons, List.map_cons, List.map_map]
  rfl

theorem head?_stagesOf (t : SymbolTable) (key : Signature.Key) (calls : List Signature) :
    (t.stagesOf key calls).head? = some (t.stage key) := by
  cases calls with
  | nil => rfl
  | cons s rest =>
    rw [stagesOf_cons]
    rfl

theorem automatonId?_entered (t : SymbolTable) (requests : List Request) {name : String}
    {id : AutomatonId} (h : t.automatonId? name = some id) :
    (t.entered requests).automatonId? name = some id := by
  have hgrows : t.GrowsTo (t.entered requests) :=
    .of_reflTransGen (t.entered_admits requests) fun _ _ => Admits.growsTo
  exact hgrows.automatonId? h

theorem Reachable.isChain_stagesOf (ht : t.Reachable) (key : Signature.Key)
    {calls : List Signature} (howners : ∀ s ∈ calls, ∃ owner, t.automatonId? s.owner = some owner) :
    (t.stagesOf key calls).IsChain (Relation.ReflGen Stage.Moves) := by
  induction calls generalizing t with
  | nil => exact .singleton _
  | cons s rest ih =>
    obtain ⟨⟨owner, howner⟩, hrest⟩ := List.forall_mem_cons.mp howners
    rw [stagesOf_cons, List.isChain_cons, head?_stagesOf]
    refine ⟨?_, ih (ht.entered _) fun s' hs' => ?_⟩
    · rintro _ ⟨⟩
      exact ht.wellFormed.stage_entered ht.keysDistinct howner key
    · obtain ⟨owner', howner'⟩ := hrest s' hs'
      exact ⟨owner', t.automatonId?_entered _ howner'⟩

end SymbolTable

/-- The operation with a key is declared first and defined then, or defined at once. Each signature
is new when nothing has its key, completes what only lacks its body, and otherwise is refused and
changes nothing. -/
theorem registration_in_stages {t : SymbolTable} (ht : t.Reachable) (calls : List Signature)
    (howners : ∀ s ∈ calls, ∃ owner, t.automatonId? s.owner = some owner) :
    (∀ key, (t.stagesOf key calls).IsChain (Relation.ReflGen Stage.Moves)) ∧
      ∀ before s after, calls = before ++ s :: after →
        (t.entered (before.map .operation)).Handles s := by
  refine ⟨fun key => ht.isChain_stagesOf key howners, fun before s after hsplit => ?_⟩
  have hbefore := ht.entered (before.map .operation)
  obtain ⟨owner, howner⟩ := howners s (hsplit ▸ List.mem_append_right _ List.mem_cons_self)
  exact hbefore.wellFormed.handles hbefore.keysDistinct (t.automatonId?_entered _ howner)

namespace Overload

/-- The automaton `A`, without operations. -/
def bare : SymbolTable :=
  SymbolTable.empty.entered [.type (.simple "Int"), .automaton "A" "Int" (.onLine 1)]

/-- A declaration of a function, one of a procedure, and a definition of the function; then the
function is declared again. -/
def calls : List Signature :=
  [onNumber .function, onNumber .procedure,
    { onNumber .function with returnType := some "Int", hasBody := true }, onNumber .function]

end Overload

theorem registration_in_stages_number :
    Overload.bare.Reachable ∧
      (∀ s ∈ Overload.calls, ∃ owner, Overload.bare.automatonId? s.owner = some owner) ∧
      Overload.bare.stagesOf (Overload.onNumber .function).key Overload.calls =
        [.absent, .declared, .declared, .defined, .defined] ∧
      (∀ key, (Overload.bare.stagesOf key Overload.calls).IsChain (Relation.ReflGen Stage.Moves)) ∧
      ∀ before s after, Overload.calls = before ++ s :: after →
        (Overload.bare.entered (before.map .operation)).Handles s := by
  have hreachable : Overload.bare.Reachable := SymbolTable.Reachable.entered .refl _
  have howners : ∀ s ∈ Overload.calls, (Overload.bare.automatonId? s.owner).isSome = true := by
    decide +kernel
  have howners := fun s hs => Option.isSome_iff_exists.mp (howners s hs)
  exact ⟨hreachable, howners, by decide +kernel,
    registration_in_stages hreachable Overload.calls howners⟩

end LibraryContract
