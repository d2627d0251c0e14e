import LibraryContract.Proofs.Interface
import LibraryContract.Proofs.Ledger
import LibraryContract.Proofs.Overload

/-!
# What declarations of one key come to

The face of a signature is what other declarations can see of it. For a declaration it depends on the
interface of the table and on the name of the owner only (`FunctionDecl.face`), so it is the same in
every table with that interface.

Registering declarations combines those of each key, in their order: the first one creates the
operation, a definition may complete it, and nothing else is accepted (`Face.Successive`). What becomes
of a key does not depend on the declarations of other keys.

* `FunctionDecl.signature_face`: the signature of a declaration has its face;
* `WellFormed.registerOperation_total`: when a registration succeeds;
* `WellFormed.face?_registerOperation`: what it changes for a key.
-/

namespace LibraryContract

open SyntaxTree Build

/-- What other declarations can see of an operation. -/
structure Signature.Face where
  kind : OperationKind
  name : Option String
  owner : String
  target : String
  /-- The names and types of the arguments. -/
  arguments : List (String × String)
  returnType : Option String
  hasBody : Bool

/-- What tells operations apart. -/
abbrev Signature.Key := OperationKind × Option String × String × List String

def Signature.face (s : Signature) : Signature.Face where
  kind := s.kind
  name := s.name
  owner := s.owner
  target := s.target
  arguments := s.arguments.map fun a => (a.name, a.type)
  returnType := s.returnType
  hasBody := s.hasBody

namespace Signature.Face

def key (f : Face) : Signature.Key := (f.kind, f.name, f.owner, f.arguments.map Prod.snd)

/-- A declaration with the body and the arguments of its definition. -/
def complete (declared f : Face) : Face :=
  { declared with
    target := if f.owner ≠ f.target then f.target else declared.target
    arguments := f.arguments
    returnType := declared.returnType.or f.returnType
    hasBody := true }

/-- A definition brings the body that a declaration lacks, and does not return another type. -/
structure Completes (f declared : Face) : Prop where
  lacks : declared.hasBody = false
  brings : f.hasBody = true
  returnType : ∀ type ∈ declared.returnType, ∀ type' ∈ f.returnType, type = type'

/-- What declarations of one key come to. -/
def merge : List Face → Option Face
  | [] => none
  | f :: rest => some (rest.foldl complete f)

/-- Every declaration after the first one completes what comes before it. -/
def Successive (faces : List Face) : Prop :=
  ∀ before f after, faces = before ++ f :: after → ∀ declared ∈ merge before, f.Completes declared

theorem merge_concat (faces : List Face) (f : Face) :
    merge (faces ++ [f]) = some ((merge faces).elim f fun declared => declared.complete f) := by
  cases faces with
  | nil => rfl
  | cons first rest => exact congrArg some (List.foldl_concat _ _ _ _)

theorem successive_nil : Successive [] := by
  intro before f after heq
  cases before <;> cases heq

theorem Successive.concat {faces : List Face} (h : Successive faces) {f : Face}
    (hf : ∀ declared ∈ merge faces, f.Completes declared) : Successive (faces ++ [f]) :=
  forall_split_concat h hf

theorem key_complete {declared f : Face} (h : declared.key = f.key) :
    (declared.complete f).key = f.key := by
  simp only [key, complete, Prod.mk.injEq] at h ⊢
  exact ⟨h.1, h.2.1, h.2.2.1, trivial⟩

end Signature.Face

theorem Signature.key_face (s : Signature) : s.face.key = s.key := by
  simp only [Face.key, face, key, argumentTypes, List.map_map, Function.comp_def]

theorem Operation.face_complete (o : Operation) (s : Signature) :
    (o.complete s).face = o.face.complete s.face := by
  simp only [Signature.face, complete, Signature.Face.complete, Signature.isRetargeted]
  by_cases h : s.owner = s.target <;> simp [h]

theorem Operation.returnConflict?_eq_none {o : Operation} {s : Signature} :
    o.returnConflict? s = none ↔
      ∀ type ∈ o.returnType, ∀ type' ∈ s.returnType, type = type' := by
  unfold returnConflict?
  cases o.returnType <;> cases s.returnType <;> simp

variable {V : Interface} {t u : SymbolTable}

/-! ## The face of a declaration -/

namespace SyntaxTree

/-- The type of an argument, where a target has the type of the automaton that it names. -/
def Parameter.typeIn (V : Interface) (p : Parameter) : String :=
  if p.isTarget then ((V.automaton? p.type.canonicalName).map Automaton.Face.type).getD ""
  else p.type.canonicalName

theorem Parameter.HasType.eq_typeIn (ht : t.Shows V) {p : Parameter} {type : String}
    (h : p.HasType t type) : type = p.typeIn V := by
  rw [HasType] at h
  rw [typeIn]
  split
  · rename_i hp
    rw [if_pos hp] at h
    obtain ⟨a, ha, rfl⟩ := h
    rw [← ht.interface_eq]
    simp only [SymbolTable.interface, ha, Option.map_some, Option.getD_some]
    rfl
  · rename_i hp
    rw [if_neg hp] at h
    exact h.symm

/-- What a declaration in an automaton says about its operation. -/
def FunctionDecl.face (V : Interface) (owner : String) (d : FunctionDecl) : Signature.Face where
  kind := d.kind
  name := d.name.map Identifier.name
  owner := owner
  target := d.targetName owner
  arguments := d.parameters.map fun p => (p.name.name, p.typeIn V)
  returnType := d.returnType.map TypeExpr.canonicalName
  hasBody := d.body.isSome

theorem FunctionDecl.signature_returnType {d : FunctionDecl} {owner : AutomatonId} {s : Signature}
    (h : (d.signature owner).Yields t s u) :
    s.returnType = d.returnType.map TypeExpr.canonicalName := by
  obtain ⟨_, _, _, _, _, -, -, hreturn, -, -, rfl⟩ := FunctionDecl.signature_yields h
  rcases yields_optionMapM.mp hreturn with ⟨hnone, rfl, -⟩ | ⟨type, name, hsome, rfl, hname⟩
  · rw [hnone]
    rfl
  · rw [hsome, (TypeExpr.resolve_known hname).1]
    rfl

theorem FunctionDecl.signature_face (ht : t.Shows V) {d : FunctionDecl} {owner : AutomatonId}
    {s : Signature} (h : (d.signature owner).Yields t s u) : s.face = d.face V s.owner := by
  obtain ⟨hdescribes, -⟩ := FunctionDecl.signature_describes ht.wellFormed h
  have hu := ht.interns (h.reaches (d.signature_within owner t))
  have harguments : (s.arguments.map fun a => (a.name, a.type)) =
      d.parameters.map fun p => (p.name.name, p.typeIn V) := by
    rw [← List.forall₂_eq_eq_eq, List.forall₂_map_left_iff, List.forall₂_map_right_iff]
    refine hdescribes.arguments.flip.imp fun a p hp => ?_
    rw [hp.name, hp.type.eq_typeIn hu]
  rw [Signature.face, FunctionDecl.face, hdescribes.kind, hdescribes.name, hdescribes.target, harguments,
    FunctionDecl.signature_returnType h, hdescribes.hasBody]

end SyntaxTree

/-! ## One key -/

theorem Operation.GrowsTo.key {o p : Operation} (h : o.GrowsTo p) : p.key = o.key := by
  rw [Signature.key, Signature.key, h.kind, h.name, h.owner, h.argumentTypes]

namespace SymbolTable

/-- The face of the operation with a key. -/
def face? (t : SymbolTable) (key : Signature.Key) : Option Signature.Face :=
  (t.operations.find? fun o => decide (o.key = key)).map fun o => o.face

theorem KeysDistinct.find?_iff (h : t.KeysDistinct) {key : Signature.Key} {o : Operation} :
    t.operations.find? (fun o => decide (o.key = key)) = some o ↔ o ∈ t.operations ∧ o.key = key := by
  constructor
  · intro hfound
    exact ⟨List.mem_of_find?_eq_some hfound, by simpa using List.find?_some hfound⟩
  · rintro ⟨ho, rfl⟩
    cases hfound : t.operations.find? fun p => decide (p.key = o.key) with
    | none => exact absurd (List.find?_eq_none.mp hfound o ho) (by simp)
    | some p =>
      have hp : p.key = o.key := by simpa using List.find?_some hfound
      exact congrArg some (List.inj_on_of_nodup_map h (List.mem_of_find?_eq_some hfound) ho hp)

theorem KeysDistinct.face?_iff (h : t.KeysDistinct) {key : Signature.Key} {f : Signature.Face} :
    t.face? key = some f ↔ ∃ o ∈ t.operations, o.key = key ∧ o.face = f := by
  simp only [face?, Option.map_eq_some_iff, h.find?_iff, and_assoc]

theorem KeysDistinct.face?_operation (h : t.KeysDistinct) {id : OperationId} {o : Operation}
    (ho : t.operation? id = some o) : t.face? o.key = some o.face :=
  h.face?_iff.mpr ⟨o, List.mem_of_getElem? ho, rfl, rfl⟩

theorem face?_eq_none_iff {key : Signature.Key} :
    t.face? key = none ↔ key ∉ t.operations.map fun o => o.key := by
  simp only [face?, Option.map_eq_none_iff, List.find?_eq_none, decide_eq_true_eq, List.mem_map,
    not_exists, not_and]

/-- A found overload is the operation with the key. -/
theorem WellFormed.key_of_overload? (hw : t.WellFormed) {s : Signature} {owner : AutomatonId}
    (howner : t.automatonId? s.owner = some owner) {id : OperationId} {o : Operation}
    (h : t.overload? owner s = some (id, o)) : t.operation? id = some o ∧ o.key = s.key := by
  obtain ⟨ho, hname, htypes, -⟩ := overload?_eq_some h
  obtain ⟨hkind, howns⟩ := hw.overload?_key howner h
  exact ⟨ho, by rw [Signature.key, Signature.key, hkind, hname, howns, htypes]⟩

/-- A declaration is accepted when it completes what its key has come to. -/
theorem WellFormed.registerOperation_total (hw : t.WellFormed) (hd : t.KeysDistinct) {s : Signature}
    {owner : AutomatonId} (howner : t.automatonId? s.owner = some owner)
    (hs : ∀ declared ∈ t.face? s.key, s.face.Completes declared) :
    ∃ r u, t.registerOperation s = .ok (r, u) := by
  unfold SymbolTable.registerOperation
  simp only [howner]
  cases hfound : t.overload? owner s with
  | none => exact ⟨_, _, rfl⟩
  | some found =>
    obtain ⟨ho, hkey⟩ := hw.key_of_overload? howner hfound
    obtain ⟨hlacks, hbrings, hreturn⟩ := hs _ (hkey ▸ hd.face?_operation ho)
    have hlacks : found.2.hasBody = false := hlacks
    have hbrings : s.hasBody = true := hbrings
    have hreturn : found.2.returnConflict? s = none := Operation.returnConflict?_eq_none.mpr hreturn
    simp only [hlacks, hbrings, hreturn]
    exact ⟨_, _, rfl⟩

/-- Nothing else is accepted. -/
theorem WellFormed.completes_of_registerOperation (hw : t.WellFormed) (hd : t.KeysDistinct)
    {s : Signature} {r : Registration} (h : t.registerOperation s = .ok (r, u)) :
    ∀ declared ∈ t.face? s.key, s.face.Completes declared := by
  obtain ⟨owner, howner, ⟨hnone, -, -⟩ | ⟨id, o, hfound, hlacks, hbrings, hreturn, -, -⟩⟩ :=
    registerOperation_cases h
  · rw [face?_eq_none_iff.mpr (hw.key_ne howner hnone)]
    intro declared hdeclared
    cases hdeclared
  · obtain ⟨ho, hkey⟩ := hw.key_of_overload? howner hfound
    rw [← hkey, hd.face?_operation ho]
    rintro _ ⟨⟩
    exact ⟨hlacks, hbrings, Operation.returnConflict?_eq_none.mp hreturn⟩

/-- The registered operation has the key of the signature, and the face of what it comes to. -/
theorem WellFormed.face_registered (hw : t.WellFormed) (hd : t.KeysDistinct) {s : Signature}
    {r : Registration} (h : t.registerOperation s = .ok (r, u)) {span : Span} {q : Operation}
    (hq : (u.withResult r.id span).operation? r.id = some q) :
    q.key = s.key ∧
      q.face = (t.face? s.key).elim s.face fun declared => declared.complete s.face := by
  cases hw.registerOperation_operation? h hq with
  | other hid => exact (hid rfl).elim
  | new hr =>
    obtain ⟨owner, howner, ⟨hnone, -, -⟩ | ⟨id, o, -, -, -, -, hcompleted, -⟩⟩ :=
      registerOperation_cases h
    · rw [face?_eq_none_iff.mpr (hw.key_ne howner hnone), Operation.toSignature_withResult]
      exact ⟨rfl, rfl⟩
    · rw [hr] at hcompleted
      cases hcompleted
  | @completed o hr ho hbody hbrings hreturn hkind hname howner htypes =>
    have hkey : o.key = s.key := by rw [Signature.key, Signature.key, hkind, hname, howner, htypes]
    have hcomplete : (o.face.complete s.face).key = s.key := by
      rw [Signature.Face.key_complete (by rw [Signature.key_face, Signature.key_face, hkey]),
        Signature.key_face]
    rw [Operation.toSignature_withResult, ← Signature.key_face, Operation.face_complete, hcomplete,
      ← hkey, hd.face?_operation ho]
    exact ⟨rfl, rfl⟩

/-- Operations of other keys stay as they are. -/
theorem WellFormed.operation?_of_key_ne (hw : t.WellFormed) (hd : t.KeysDistinct) {s : Signature}
    {r : Registration} (h : t.registerOperation s = .ok (r, u)) {span : Span} {id : OperationId}
    {p : Operation} (hp : (u.withResult r.id span).operation? id = some p) (hkey : p.key ≠ s.key) :
    t.operation? id = some p := by
  have hne : id ≠ r.id := by
    rintro rfl
    exact hkey (hw.face_registered hd h hp).1
  cases hw.registerOperation_operation? h hp with
  | other _ ho => exact ho
  | new hr => exact (hne (by rw [hr]; rfl)).elim
  | completed hr => exact (hne (by rw [hr]; rfl)).elim

/-- What a registration changes for a key. -/
theorem WellFormed.face?_registerOperation (hw : t.WellFormed) (hd : t.KeysDistinct) {s : Signature}
    {r : Registration} (h : t.registerOperation s = .ok (r, u)) (span : Span) (key : Signature.Key) :
    (u.withResult r.id span).face? key =
      if key = s.key then some ((t.face? key).elim s.face fun declared => declared.complete s.face)
      else t.face? key := by
  have hd' := (hd.registerOperation hw h).withResult r.id span
  split
  · rename_i hkey
    subst hkey
    obtain ⟨o, ho⟩ := registerOperation_known h
    obtain ⟨q, hq, -⟩ := (u.withResult_growsTo r.id span).operation? ho
    obtain ⟨hown, hface⟩ := hw.face_registered hd h hq
    rw [hd'.face?_iff.mpr ⟨q, List.mem_of_getElem? hq, hown, rfl⟩, hface]
  · rename_i hkey
    have hgrows : t.GrowsTo (u.withResult r.id span) :=
      (registerOperation_growsTo h).trans (u.withResult_growsTo r.id span)
    refine Option.ext fun f => ?_
    simp only [hd'.face?_iff, hd.face?_iff]
    constructor
    · rintro ⟨p, hp, rfl, hface⟩
      obtain ⟨i, hi⟩ := List.mem_iff_getElem?.mp hp
      exact ⟨p, List.mem_of_getElem? (hw.operation?_of_key_ne hd h hi hkey), rfl, hface⟩
    · rintro ⟨o, ho, rfl, hface⟩
      obtain ⟨i, hi⟩ := List.mem_iff_getElem?.mp ho
      have hi : t.operation? ⟨i⟩ = some o := hi
      obtain ⟨p, hp, hop⟩ := hgrows.operation? hi
      have hpkey : p.key ≠ s.key := fun hp => hkey (hop.key.symm.trans hp)
      obtain rfl := Option.some.inj ((hw.operation?_of_key_ne hd h hp hpkey).symm.trans hi)
      exact ⟨p, List.mem_of_getElem? hp, rfl, hface⟩

end SymbolTable

end LibraryContract
