import LibraryContract.Proofs.Lifecycle
import LibraryContract.Proofs.Signature

/-!
# Which declarations an operation comes from

The registration of operations keeps no record of its own, so this file keeps one beside it: the
ledger lists the accepted declarations in order, each with its registration. An operation comes
from one declaration, or from one without a body and the definition that completes it.

* `registerSignatures_eq`: the ledger explains the registration of operations;
* `analyze_stems`: at the end of an analysis, the signature of every operation stems from its
  declarations in the ledger.
-/

namespace LibraryContract

open SyntaxTree Build

/-- A declaration of an operation, with the automaton around it. -/
abbrev Placed := FunctionDecl × Option AutomatonId

/-- A registration, with the declaration that it accepts. -/
abbrev LedgerEntry := Registration × Placed

namespace Run

/-- Registers a signature and keeps the declaration. -/
def enter (options : Options) (item : Placed) : Build LedgerEntry := do
  let registration ← item.1.register options item.2
  return (registration, item)

/-- The declarations of operations of a library, with the automata around them. -/
def placed (library : SyntaxTree.Library) : List Placed :=
  operationDeclarations (withAutomata library).1 library.functions

/-- The accepted declarations of operations, in order. -/
def ledger (options : Options) (library : SyntaxTree.Library) : List LedgerEntry :=
  ((withAutomata library).2.collect (enter options) (placed library)).1

end Run

/-- The declarations of an operation among the accepted ones. -/
def declarationsOf (entries : List LedgerEntry) (id : OperationId) : List Placed :=
  (entries.filter fun e => decide (e.1.id = id)).map Prod.snd

/-- The automaton that owns a declared operation: the one around it, or the one that qualifies it. -/
def Placed.OwnedBy (t : SymbolTable) (item : Placed) (owner : String) : Prop :=
  match item.2 with
  | some id => ∃ a, t.automaton? id = some a ∧ a.name = owner
  | none => ∃ qualifier, item.1.automaton = some qualifier ∧ qualifier.name = owner

/-- The declaration has the key by which operations are told apart. -/
structure Placed.HasKey (t : SymbolTable) (item : Placed) (s : Signature) : Prop where
  kind : s.kind = item.1.kind
  name : s.name = item.1.name.map Identifier.name
  owner : item.OwnedBy t s.owner
  types : List.Forall₂ (Parameter.HasType t) item.1.parameters s.argumentTypes

/-- The signature comes from one declaration, or from one that another completes. -/
inductive Signature.Stems (t : SymbolTable) (s : Signature) : List Placed → Prop
  | created {item : Placed} (key : item.HasKey t s) (describes : item.1.Describes t s) :
      Stems t s [item]
  | completed {first last : Placed} (firstKey : first.HasKey t s) (lastKey : last.HasKey t s)
      (firstBody : first.1.body = none) (lastBody : last.1.body.isSome = true)
      (arguments : List.Forall₂ (Parameter.Gives t) last.1.parameters s.arguments)
      (target : s.target = if last.1.targetName s.owner = s.owner then first.1.targetName s.owner
        else last.1.targetName s.owner)
      (hasBody : s.hasBody = true) : Stems t s [first, last]

variable {t u : SymbolTable}

/-! ## One declaration -/

theorem Placed.OwnedBy.mono {item : Placed} {owner : String} (h : item.OwnedBy t owner)
    (hu : t.GrowsTo u) : item.OwnedBy u owner := by
  unfold OwnedBy at h ⊢
  split
  · rename_i id hid
    simp only [hid] at h
    obtain ⟨a, ha, rfl⟩ := h
    obtain ⟨b, hb, hab⟩ := hu.automaton? ha
    exact ⟨b, hb, hab.name⟩
  · rename_i hid
    simpa only [hid] using h

theorem Placed.HasKey.mono {item : Placed} {s : Signature} (h : item.HasKey t s)
    (hu : t.GrowsTo u) : item.HasKey u s :=
  { h with
    owner := h.owner.mono hu
    types := h.types.imp fun _ _ hp => hp.mono hu }

theorem SyntaxTree.FunctionDecl.Describes.mono {d : FunctionDecl} {s : Signature}
    (h : d.Describes t s) (hu : t.GrowsTo u) : d.Describes u s :=
  { h with arguments := h.arguments.imp fun _ _ hp => hp.mono hu }

theorem Signature.Stems.mono {s : Signature} {items : List Placed} (h : s.Stems t items)
    (hu : t.GrowsTo u) : s.Stems u items := by
  cases h with
  | created key describes => exact .created (key.mono hu) (describes.mono hu)
  | completed firstKey lastKey firstBody lastBody arguments target hasBody =>
    exact .completed (firstKey.mono hu) (lastKey.mono hu) firstBody lastBody
      (arguments.imp fun _ _ hp => hp.mono hu) target hasBody

theorem Signature.Stems.hasKey {s : Signature} {items : List Placed} (h : s.Stems t items) :
    ∀ item ∈ items, item.HasKey t s := by
  cases h with
  | created key _ => exact List.forall_mem_singleton.mpr key
  | completed firstKey lastKey _ _ _ _ _ =>
    exact List.forall_mem_cons.mpr ⟨firstKey, List.forall_mem_singleton.mpr lastKey⟩

theorem SyntaxTree.FunctionDecl.Describes.types {d : FunctionDecl} {s : Signature}
    (h : d.Describes t s) : List.Forall₂ (Parameter.HasType t) d.parameters s.argumentTypes :=
  List.forall₂_map_right_iff.mpr (h.arguments.imp fun _ _ hp => hp.type)

theorem SyntaxTree.FunctionDecl.resolveOwner_yields {options : Options} {d : FunctionDecl}
    {enclosing : Option AutomatonId} {owner : AutomatonId}
    (h : (d.resolveOwner options enclosing).Yields t owner) :
    enclosing = some owner ∨ enclosing = none ∧
      ∃ qualifier, d.automaton = some qualifier ∧ t.automatonId? qualifier.name = some owner := by
  unfold FunctionDecl.resolveOwner at h
  cases hd : d.automaton with
  | some qualifier =>
    cases enclosing with
    | some id =>
      simp only [hd, Check.yields_bind, Check.yields_ite, Check.yields_pure, Check.yields_fail] at h
      obtain ⟨name, -, h⟩ := h
      split at h
      · obtain ⟨-, -, rfl⟩ := h
        exact Or.inl rfl
      · exact h.elim
    | none =>
      simp only [hd] at h
      exact Or.inr ⟨rfl, qualifier, rfl, Identifier.yields_resolveAutomaton.mp h⟩
  | none =>
    cases enclosing with
    | some id =>
      simp only [hd, Check.yields_pure] at h
      exact Or.inl (congrArg some h)
    | none => simp [hd] at h

theorem SyntaxTree.FunctionDecl.register_yields {options : Options} {d : FunctionDecl}
    {enclosing : Option AutomatonId} {r : Registration}
    (h : (d.register options enclosing).Yields t r u) :
    ∃ owner s v w, (d.resolveOwner options enclosing).Yields t owner ∧
      (d.signature owner).Yields t s v ∧ v.registerOperation s = .ok (r, w) ∧
        u = w.withResult r.id d.span := by
  rw [FunctionDecl.register] at h
  simp only [yields_bind, yields_liftM, yields_register, yields_pure] at h
  obtain ⟨owner, _, ⟨howner, rfl⟩, s, v, hs, r', w, hr, _, x, hx, rfl, rfl⟩ := h
  refine ⟨owner, s, v, w, howner, hs, hr, ?_⟩
  rw [Yields, FunctionDecl.run_declareResult] at hx
  exact hx.2.symm

theorem SyntaxTree.FunctionDecl.register_givesUp (options : Options) (d : FunctionDecl)
    (enclosing : Option AutomatonId) (t : SymbolTable) :
    (d.register options enclosing).GivesUpWithin Interns t := by
  refine givesUpWithin_bind (within_liftM _) fun owner u _ => ?_
  refine givesUpWithin_bind (d.signature_within owner u) fun s v _ => ?_
  refine givesUpWithin_bind_of_total (givesUpWithin_register _ _) fun r w e => ?_
  show ((Build.bind (FunctionDecl.declareResult r.id d.span) fun _ => Build.pure r).run w).1.result ≠
    .error e
  simp [Build.bind, FunctionDecl.run_declareResult, Build.pure]

/-- An accepted declaration has the key of its signature. -/
theorem Placed.hasKey (ht : t.WellFormed) {options : Options} {item : Placed}
    (hitem : ∀ id, item.2 = some id → ∃ a, t.automaton? id = some a) {owner : AutomatonId}
    {s : Signature} (howner : (item.1.resolveOwner options item.2).Yields t owner)
    (hs : (item.1.signature owner).Yields t s u) : item.HasKey u s ∧ item.1.Describes u s := by
  obtain ⟨hdescribes, hname⟩ := FunctionDecl.signature_describes ht hs
  have hgrows : t.GrowsTo u :=
    .of_reflTransGen (hs.reaches (item.1.signature_within owner t)) fun _ _ => Interns.growsTo
  refine ⟨⟨hdescribes.kind, hdescribes.name, ?_, hdescribes.types⟩, hdescribes⟩
  refine OwnedBy.mono ?_ hgrows
  rcases FunctionDecl.resolveOwner_yields howner with hid | ⟨hnone, qualifier, hq, hid⟩
  · obtain ⟨a, ha⟩ := hitem owner hid
    simp only [OwnedBy, hid]
    exact ⟨a, ha, by rw [hname, ha]; rfl⟩
  · obtain ⟨a, ha, haname⟩ := (ht.automatonId?_iff _ _).mp hid
    simp only [OwnedBy, hnone]
    exact ⟨qualifier, hq, by rw [hname, ha, ← haname]; rfl⟩

/-- A definition moves the target of the operation it completes only away from the owner. -/
theorem Operation.target_complete (o : Operation) {s : Signature} {name : String}
    (hs : s.target = name) (howner : o.owner = s.owner) :
    (o.complete s).target = if name = o.owner then o.target else name := by
  show (if s.isRetargeted then s.target else o.target) = _
  by_cases hown : name = o.owner
  · have hkeep : s.isRetargeted = false :=
      decide_eq_false (by rw [hs, ← howner, hown]; exact not_not_intro rfl)
    rw [hkeep, if_neg Bool.false_ne_true, if_pos hown]
  · have hmove : s.isRetargeted = true :=
      decide_eq_true (by rw [hs, ← howner]; exact Ne.symm hown)
    rw [hmove, if_pos rfl, if_neg hown, hs]

/-- A definition completes the operation of an earlier declaration with the same key. -/
theorem Signature.Stems.complete {items : List Placed} {o : Operation} {s : Signature}
    {item : Placed} (h : o.toSignature.Stems t items) (hbody : o.hasBody = false)
    (hbrings : s.hasBody = true) (hkind : o.kind = s.kind) (hname : o.name = s.name)
    (howner : o.owner = s.owner) (htypes : o.argumentTypes = s.argumentTypes)
    (hkey : item.HasKey t s) (hdescribes : item.1.Describes t s) :
    (o.complete s).toSignature.Stems t (items ++ [item]) := by
  cases h with
  | completed _ _ _ _ _ _ hhas =>
    -- a completed operation has a body already
    rw [hbody] at hhas
    cases hhas
  | @created first firstKey firstDescribes =>
    have hfirst : first.HasKey t (o.complete s).toSignature :=
      { firstKey with types := (show (o.complete s).argumentTypes = o.argumentTypes from
          htypes.symm) ▸ firstKey.types }
    have hlast : item.HasKey t (o.complete s).toSignature :=
      ⟨hkind.trans hkey.kind, hname.trans hkey.name,
        (show item.OwnedBy t o.owner from howner ▸ hkey.owner), hkey.types⟩
    have hnobody : first.1.body = none := by
      have hsome := firstDescribes.hasBody.symm.trans hbody
      exact Option.not_isSome_iff_eq_none.mp (by rw [hsome]; exact Bool.false_ne_true)
    have htarget := o.target_complete (hdescribes.target.trans (by rw [← howner])) howner
    refine .completed hfirst hlast hnobody ?_ hdescribes.arguments ?_ rfl
    · rw [← hdescribes.hasBody, hbrings]
    · exact htarget.trans (by rw [show o.target = _ from firstDescribes.target]; rfl)

/-! ## The ledger -/

/-- An entry creates an operation exactly when no earlier one belongs to it. -/
def Sequential (entries : List LedgerEntry) : Prop :=
  ∀ before e after, entries = before ++ e :: after →
    ((∃ id, e.1 = .new id) ↔ declarationsOf before e.1.id = [])

/-- What holds of every member and those before it also holds with one member more at the end. -/
theorem forall_split_concat {α : Type} {P : List α → α → Prop} {l : List α} {a : α}
    (h : ∀ before b after, l = before ++ b :: after → P before b) (ha : P l a) :
    ∀ before b after, l ++ [a] = before ++ b :: after → P before b := by
  intro before b after heq
  rcases List.eq_nil_or_concat after with rfl | ⟨front, back, rfl⟩
  · obtain ⟨rfl, rfl⟩ := List.append_singleton_inj.mp heq
    exact ha
  · rw [List.concat_eq_append, ← List.cons_append, ← List.append_assoc] at heq
    obtain ⟨hl, -⟩ := List.append_singleton_inj.mp heq
    exact h before b front hl

theorem Sequential.concat {entries : List LedgerEntry} (h : Sequential entries) {e : LedgerEntry}
    (he : (∃ id, e.1 = .new id) ↔ declarationsOf entries e.1.id = []) :
    Sequential (entries ++ [e]) :=
  forall_split_concat h he

/-- The entries explain the operations of the table. -/
structure SymbolTable.Explained (entries : List LedgerEntry) (t : SymbolTable) : Prop where
  wellFormed : t.WellFormed
  stems : ∀ id o, t.operation? id = some o → o.toSignature.Stems t (declarationsOf entries id)
  known : ∀ e ∈ entries, ∃ o, t.operation? e.1.id = some o
  sequential : Sequential entries

theorem mem_declarationsOf_self {entries : List LedgerEntry} {e : LedgerEntry} (he : e ∈ entries) :
    e.2 ∈ declarationsOf entries e.1.id :=
  List.mem_map_of_mem (List.mem_filter.mpr ⟨he, decide_eq_true rfl⟩)

theorem SymbolTable.Explained.hasKey {entries : List LedgerEntry} (h : t.Explained entries)
    {e : LedgerEntry} (he : e ∈ entries) {o : Operation} (ho : t.operation? e.1.id = some o) :
    e.2.HasKey t o.toSignature :=
  (h.stems _ o ho).hasKey e.2 (mem_declarationsOf_self he)

theorem declarationsOf_concat (entries : List LedgerEntry) (e : LedgerEntry) (id : OperationId) :
    declarationsOf (entries ++ [e]) id =
      if e.1.id = id then declarationsOf entries id ++ [e.2] else declarationsOf entries id := by
  unfold declarationsOf
  rw [List.filter_append, List.map_append]
  split
  · rename_i hid
    simp [hid]
  · rename_i hid
    simp [hid]

/-- Arrays of known types do not matter. -/
theorem SymbolTable.Explained.interns {entries : List LedgerEntry} (h : t.Explained entries)
    (hu : Relation.ReflTransGen Interns t u) : u.Explained entries := by
  have hgrows : t.GrowsTo u := .of_reflTransGen hu fun _ _ => Interns.growsTo
  obtain ⟨types, heq⟩ := Interns.types_only hu
  have hops : ∀ id, u.operation? id = t.operation? id := fun id => by rw [heq]; rfl
  refine ⟨keeps_of_reflTransGen hu (fun _ _ => Interns.wellFormed) h.wellFormed, ?_, ?_,
    h.sequential⟩
  · intro id o ho
    rw [hops] at ho
    exact (h.stems id o ho).mono hgrows
  · intro e he
    rw [hops]
    exact h.known e he

/-- No entry has a number that no operation has. -/
theorem SymbolTable.Explained.declarationsOf_eq_nil {entries : List LedgerEntry}
    (h : t.Explained entries) {id : OperationId} (hid : id.index = t.operations.length) :
    declarationsOf entries id = [] := by
  rw [declarationsOf, List.map_eq_nil_iff, List.filter_eq_nil_iff]
  intro e he heid
  obtain ⟨o, ho⟩ := h.known e he
  rw [of_decide_eq_true heid] at ho
  have hlt := (List.getElem?_eq_some_iff.mp ho).1
  omega

/-- An accepted signature creates an operation exactly when the ledger has none of that number. -/
theorem SymbolTable.Explained.new_iff {entries : List LedgerEntry} (h : t.Explained entries)
    {s : Signature} {r : Registration} (hr : t.registerOperation s = .ok (r, u)) :
    (∃ id, r = .new id) ↔ declarationsOf entries r.id = [] := by
  obtain ⟨owner, -, ⟨-, rfl, -⟩ | ⟨id, declared, hfound, -, -, -, rfl, -⟩⟩ :=
    SymbolTable.registerOperation_cases hr
  · exact iff_of_true ⟨_, rfl⟩ (h.declarationsOf_eq_nil rfl)
  · refine iff_of_false (by simp) fun hnil => ?_
    have hstems := h.stems id declared (SymbolTable.overload?_eq_some hfound).1
    have hid : (Registration.completed id).id = id := rfl
    rw [← hid, hnil] at hstems
    cases hstems

/-- An accepted declaration is entered. -/
theorem SymbolTable.Explained.register {entries : List LedgerEntry} (h : t.Explained entries)
    {options : Options} {item : Placed}
    (hitem : ∀ id, item.2 = some id → ∃ a, t.automaton? id = some a) {r : Registration}
    (hr : (item.1.register options item.2).Yields t r u) :
    u.Explained (entries ++ [(r, item)]) := by
  obtain ⟨owner, s, v, w, howner, hs, hw, rfl⟩ := FunctionDecl.register_yields hr
  obtain ⟨hkey, hdescribes⟩ := Placed.hasKey h.wellFormed hitem howner hs
  have hv : v.Explained entries := h.interns (hs.reaches (item.1.signature_within owner t))
  have hgrows : v.GrowsTo (w.withResult r.id item.1.span) :=
    (SymbolTable.registerOperation_growsTo hw).trans (SymbolTable.withResult_growsTo _ _ _)
  refine ⟨(hv.wellFormed.registerOperation hw).withResult _ _, ?_, ?_,
    hv.sequential.concat (hv.new_iff hw)⟩
  · intro id p hp
    rw [declarationsOf_concat]
    cases hv.wellFormed.registerOperation_operation? hw hp with
    | other hid ho =>
      rw [if_neg (Ne.symm hid)]
      exact (hv.stems id p ho).mono hgrows
    | new hnew hlast =>
      have hnone := hv.declarationsOf_eq_nil hlast
      rw [if_pos (by rw [hnew]; rfl), hnone, Operation.toSignature_withResult]
      exact .created (hkey.mono hgrows) (hdescribes.mono hgrows)
    | @completed o hcompleted ho hbody hbrings hreturn hkind hname howner htypes =>
      -- the ledger gets a second entry for the operation
      rw [if_pos (by rw [hcompleted]; rfl), Operation.toSignature_withResult]
      exact ((hv.stems id o ho).complete hbody hbrings hkind hname howner htypes hkey
        hdescribes).mono hgrows
  · intro e he
    rcases List.mem_append.mp he with he | he
    · obtain ⟨o, ho⟩ := hv.known e he
      obtain ⟨p, hp, -⟩ := hgrows.operation? ho
      exact ⟨p, hp⟩
    · rw [List.mem_singleton.mp he]
      obtain ⟨o, ho⟩ := SymbolTable.registerOperation_known hw
      obtain ⟨p, hp, -⟩ := (SymbolTable.withResult_growsTo w r.id item.1.span).operation? ho
      exact ⟨p, hp⟩

/-! ## Runs -/

/-- The automaton is the one that the declaration declares. -/
structure SyntaxTree.AutomatonDecl.Heads (d : AutomatonDecl) (a : Automaton) : Prop where
  name : a.name = d.name.name
  span : a.span = d.span

/-- A declared automaton is registered. -/
theorem SyntaxTree.AutomatonDecl.declare_yields {d : AutomatonDecl} {a : PendingAutomaton}
    (h : d.declare.Yields t a u) :
    a.declaration = d ∧ ∃ b, u.automaton? a.id = some b ∧ d.Heads b := by
  rw [AutomatonDecl.declare] at h
  obtain ⟨type, v, -, h⟩ := yields_bind.mp h
  obtain ⟨id, w, hregister, h⟩ := yields_bind.mp h
  have hregister := yields_register.mp hregister
  have hskeleton := SymbolTable.registerAutomaton_skeleton hregister
  have hfurnish := d.furnish_within (hasSeen_registered hregister)
  have hgrows : w.GrowsTo u := .of_reflTransGen (h.reaches hfurnish) fun _ _ => Furnishes.growsTo
  simp only [yields_bind, yields_pure] at h
  obtain ⟨_, _, -, parameters, _, -, members, _, -, rfl, rfl⟩ := h
  obtain ⟨b, hb, hheads⟩ := hgrows.automaton? hskeleton
  exact ⟨rfl, b, hb, hheads.name, hheads.span⟩

namespace Run

/-- The automata that are handed on are registered. -/
theorem withAutomata_heads (library : SyntaxTree.Library) :
    ∀ a ∈ (withAutomata library).1, ∃ b, (withAutomata library).2.table.automaton? a.id = some b ∧
      a.declaration.Heads b := by
  apply collect_keeps (P := fun (a : PendingAutomaton) t =>
    ∃ b, t.automaton? a.id = some b ∧ a.declaration.Heads b)
  · rintro a t u hu ⟨b, hb, hheads⟩
    obtain ⟨c, hc, hbc⟩ := hu.automaton? hb
    exact ⟨c, hc, hbc.name.trans hheads.name, hbc.span.trans hheads.span⟩
  · exact fun d _ t => d.declare_within t
  · intro d _ t a u hd
    obtain ⟨rfl, hb⟩ := AutomatonDecl.declare_yields hd
    exact hb

theorem settle_enter (options : Options) (item : Placed) (r : Run) :
    r.settle (enter options item) =
      ((r.settle (item.1.register options item.2)).1.map fun registration => (registration, item),
        (r.settle (item.1.register options item.2)).2) := by
  rw [enter, bind_pure_comp, settle_map]

/-- Declarations are registered one after the other, and those that are entered take effect. -/
theorem foldl_registerSignature (options : Options) (items : List Placed)
    (state : List PendingOperation × Run) :
    items.foldl (registerSignature options) state =
      ((state.2.collect (enter options) items).1.foldl
          (fun operations e => recordOperation operations e.1 e.2.1) state.1,
        (state.2.collect (enter options) items).2) := by
  induction items generalizing state with
  | nil => rfl
  | cons item rest ih =>
    obtain ⟨operations, r⟩ := state
    rw [List.foldl_cons, collect_cons, settle_enter, registerSignature]
    rcases r.settle (item.1.register options item.2) with ⟨_ | registration, s⟩
    · exact ih (operations, s)
    · exact ih (recordOperation operations registration item.1, s)

/-- The ledger explains the registration of operations. -/
theorem registerSignatures_eq (options : Options) (automata : List PendingAutomaton)
    (topLevel : List FunctionDecl) (r : Run) :
    r.registerSignatures options automata topLevel =
      ((r.collect (enter options) (operationDeclarations automata topLevel)).1.foldl
          (fun operations e => recordOperation operations e.1 e.2.1) [],
        (r.collect (enter options) (operationDeclarations automata topLevel)).2) :=
  foldl_registerSignature options _ ([], r)

/-- Without an error, every declaration is entered. -/
theorem clean_mapM_enter {options : Options} {items : List Placed} {entries : List LedgerEntry}
    (h : (items.mapM (enter options)).Clean t entries u) : entries.map Prod.snd = items := by
  refine clean_mapM_invariant (I := fun items entries _ => entries.map Prod.snd = items) ?_ h rfl
  rintro item - items entries t e u rfl hd
  obtain ⟨r, v, -, hpure⟩ := clean_bind.mp hd
  obtain ⟨rfl, -⟩ := clean_pure.mp hpure
  rw [List.map_append]
  rfl

/-- The run after the registration of the operations, with the ledger at hand. -/
theorem withSignatures_run (options : Options) (library : SyntaxTree.Library) :
    (withSignatures options library).2 =
      ((withAutomata library).2.collect (enter options) (placed library)).2 :=
  congrArg Prod.snd (registerSignatures_eq _ _ _ _)

/-- The automaton around a declaration is registered. -/
theorem placed_named {library : SyntaxTree.Library} {item : Placed} (h : item ∈ placed library)
    {id : AutomatonId} (hid : item.2 = some id) :
    ∃ a, (withAutomata library).2.table.automaton? id = some a := by
  rcases List.mem_append.mp h with h | h
  · obtain ⟨a, ha, hd⟩ := List.mem_flatMap.mp h
    obtain ⟨d, -, rfl⟩ := List.mem_map.mp hd
    cases hid
    obtain ⟨b, hb, -⟩ := withAutomata_heads library a ha
    exact ⟨b, hb⟩
  · obtain ⟨d, -, rfl⟩ := List.mem_map.mp h
    cases hid

theorem withAutomata_explained (library : SyntaxTree.Library) :
    (withAutomata library).2.table.Explained [] := by
  refine ⟨withAutomata_wellFormed library, fun id o ho => ?_, fun e he => ?_, ?_⟩
  · rw [SymbolTable.operation?, withAutomata_operations library] at ho
    cases ho
  · cases he
  · intro before e after heq
    cases before <;> cases heq

/-- What holds before operations are registered, and stays true with each accepted declaration and
with the arrays of those that are not accepted, holds when some of them are registered. -/
theorem entered_invariant {options : Options} {library : SyntaxTree.Library}
    {I : List LedgerEntry → SymbolTable → Prop} {items : List Placed}
    (hitems : ∀ item ∈ items, item ∈ placed library)
    (hregister : ∀ entries t (item : Placed) r u, I entries t →
      (∀ id, item.2 = some id → ∃ a, t.automaton? id = some a) →
        (item.1.register options item.2).Yields t r u → I (entries ++ [(r, item)]) u)
    (hinterns : ∀ entries t u, I entries t → Relation.ReflTransGen Interns t u → I entries u)
    (hstart : I [] (withAutomata library).2.table) :
    I ((withAutomata library).2.collect (enter options) items).1
      ((withAutomata library).2.collect (enter options) items).2.table := by
  -- the automata must stay where the declarations were found, hence the first half
  have hrun : (withAutomata library).2.table.GrowsTo
      ((withAutomata library).2.collect (enter options) items).2.table ∧
        I ([] ++ ((withAutomata library).2.collect (enter options) items).1)
          ((withAutomata library).2.collect (enter options) items).2.table := by
    refine collect_invariant (I := fun (entries : List LedgerEntry) t =>
      (withAutomata library).2.table.GrowsTo t ∧ I entries t) ?_ ?_ ⟨.refl _, hstart⟩
    · rintro item hmem entries t e u ⟨hgrows, h⟩ he
      obtain ⟨r, v, hr, he⟩ := yields_bind.mp he
      obtain ⟨rfl, rfl⟩ := yields_pure.mp he
      have hu : t.GrowsTo v := by
        refine .of_reflTransGen (hr.reaches ?_) fun _ _ => Signs.growsTo
        exact item.1.register_within options item.2 t
      refine ⟨hgrows.trans hu, hregister entries t item r v h (fun id hid => ?_) hr⟩
      obtain ⟨a, ha⟩ := placed_named (hitems item hmem) hid
      obtain ⟨b, hb, -⟩ := hgrows.automaton? ha
      exact ⟨b, hb⟩
    · rintro item - entries t e ⟨hgrows, h⟩ he
      have hnames : Relation.ReflTransGen Interns t ((enter options item).run t).2 := by
        refine givesUpWithin_bind_of_total (item.1.register_givesUp options item.2 t) ?_ e he
        intro r u e he
        cases he
      have hu : t.GrowsTo ((enter options item).run t).2 :=
        .of_reflTransGen hnames fun _ _ => Interns.growsTo
      exact ⟨hgrows.trans hu, hinterns _ _ _ h hnames⟩
  exact hrun.2

/-- The same when all are registered. -/
theorem ledger_invariant {options : Options} {library : SyntaxTree.Library}
    {I : List LedgerEntry → SymbolTable → Prop}
    (hregister : ∀ entries t (item : Placed) r u, I entries t →
      (∀ id, item.2 = some id → ∃ a, t.automaton? id = some a) →
        (item.1.register options item.2).Yields t r u → I (entries ++ [(r, item)]) u)
    (hinterns : ∀ entries t u, I entries t → Relation.ReflTransGen Interns t u → I entries u)
    (hstart : I [] (withAutomata library).2.table) :
    I (ledger options library) (withSignatures options library).2.table := by
  rw [withSignatures_run]
  exact entered_invariant (fun _ h => h) hregister hinterns hstart

theorem withSignatures_explained (options : Options) (library : SyntaxTree.Library) :
    (withSignatures options library).2.table.Explained (ledger options library) := by
  apply ledger_invariant (I := fun entries t => t.Explained entries)
  · exact fun entries t item r u h hitem hr => h.register hitem hr
  · exact fun entries t u h hu => h.interns hu
  · exact withAutomata_explained library

/-- The signature of every operation stems from its declarations. -/
theorem analyze_stems (options : Options) (library : SyntaxTree.Library) :
    ∀ o ∈ (analyze options library).table.operations,
      o.toSignature.Stems (analyze options library).table
        (declarationsOf (ledger options library) o.id) := by
  intro p hp
  have hself := (analyze_wellFormed options library).operation?_id hp
  obtain ⟨o, ho, -, hsignature⟩ :=
    signature_of_elaborates (analyze_elaborates options library) hself
  have hstems := (withSignatures_explained options library).stems p.id o ho
  rw [hsignature]
  exact hstems.mono (analyze_growsTo options library)

end Run

end LibraryContract
