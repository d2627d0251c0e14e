import LibraryContract.Proofs.Accounting
import LibraryContract.Proofs.Provenance
import Mathlib.Data.List.Perm.Subperm

/-!
# Operations that are nested and operations that are qualified

It does not matter whether an operation stands inside of its automaton or outside of it with the name of
the automaton as its qualifier. Operations that move out are registered later and have other numbers.
What an operation says and does stays as it is, and so do the shifts that it causes.

Two conditions are needed. Names that are written for types must not be names of arrays, since these
become known when something mentions them. And no two operations may be looked up alike: declarations
may complete each other and a lookup takes the first operation that fits, so their order would matter.

* `RunsCleanly.operation_renumber`: what becomes of each operation;
* `RunsCleanly.shifts_renumber`: what becomes of the shifts of an automaton;
* `Session.nesting_is_qualification`: the statement for whole compilations.
-/

namespace LibraryContract

open SyntaxTree Build

variable {V : Interface} {t t' base : SymbolTable} {ρ : Renumbering}

/-- Two lists that come from one list item by item. -/
theorem eq_map_of_forall₂ {α β γ : Type} {R : α → β → Prop} {S : α → γ → Prop} {g : β → γ}
    {items : List α} {as : List β} {bs : List γ} (has : List.Forall₂ R items as)
    (hbs : List.Forall₂ S items bs) (hg : ∀ x a b, R x a → S x b → b = g a) : bs = as.map g := by
  induction has generalizing bs with
  | nil =>
    cases hbs
    rfl
  | cons ha _ ih =>
    cases hbs with
    | cons hb hbs => rw [List.map_cons, hg _ _ _ ha hb, ih hbs]

/-! ## Other numbers -/

theorem Operation.key_renumber (ρ : Renumbering) (o : Operation) : (o.renumber ρ).key = o.key := by
  simp only [Signature.key, Operation.renumber, Signature.renumber, Signature.argumentTypes,
    List.map_map]
  rfl

/-- Numbers do not matter for what can be seen from inside of an operation. -/
theorem Operation.resembles_renumber (ρ : Renumbering) (o : Operation) :
    o.Resembles (o.renumber ρ) where
  arguments := by
    simp only [Operation.renumber, Signature.renumber, List.map_map]
    rfl
  locals := by
    refine OrderedMap.ext ?_
    simp only [OrderedMap.map, Operation.renumber, List.map_map]
    refine List.map_congr_left fun entry _ => ?_
    simp only [Function.comp_apply, Variable.renumber, VariableScope.isResult_renumber]

theorem Renumbering.keeps_renumber (ρ : Renumbering) : ρ.Keeps fun o o' => o' = o.renumber ρ where
  resembles := by
    rintro o _ rfl
    exact o.resembles_renumber ρ
  contract := by
    rintro o _ c rfl
    simp only [Operation.renumber, List.map_append, List.map_singleton]
  statement := by
    rintro o _ s rfl
    simp only [Operation.renumber, List.map_append, List.map_singleton]
  declared := by
    rintro o _ v rfl
    simp only [Operation.renumber, OrderedMap.map_insert]

theorem Operation.renumber_withResult (ρ : Renumbering) (id : OperationId) (span : Span)
    (o : Operation) :
    (o.withResult id span).renumber ρ = (o.renumber ρ).withResult (ρ.operation id) span := by
  have hreturn : (o.renumber ρ).returnType = o.returnType := rfl
  have hlocals : (o.renumber ρ).locals = o.locals.map (Variable.renumber ρ) := rfl
  rw [withResult, withResult, hreturn, hlocals]
  cases o.returnType with
  | none => rfl
  | some type =>
    simp only [OrderedMap.contains_map]
    cases o.locals.contains resultName with
    | true => rfl
    | false =>
      simp only [Operation.renumber, Bool.false_eq_true, if_false, OrderedMap.map_insert]
      rfl

/-- Tables that have grown out of one table have its automata under the same numbers. -/
theorem takesAutomata_of_growsTo (hbase : base.Shows V) (h : t.Shows V) (h' : t'.Shows V)
    (hu : base.GrowsTo t) (hu' : base.GrowsTo t') (f : OperationId → OperationId) :
    (Renumbering.ofOperations f).TakesAutomata t t' := by
  rintro id id' ⟨a, a', ha, ha', hname, -⟩
  have hid := (h.wellFormed.automatonId?_iff a.name id).mpr ⟨a, ha, rfl⟩
  have hid' := (h'.wellFormed.automatonId?_iff a.name id').mpr ⟨a', ha', hname.symm⟩
  obtain ⟨i, hi, -⟩ := h.sameAutomaton hbase hid
  rw [hu.automatonId? hi] at hid
  rw [hu'.automatonId? hi] at hid'
  exact (Option.some.inj hid).symm.trans (Option.some.inj hid')

/-- The other numbers of operations are those of the operations of the same key. -/
def Renumbering.TakesOperations (ρ : Renumbering) (t t' : SymbolTable) : Prop :=
  ∀ id o, t.operation? id = some o → ∃ o', t'.operation? (ρ.operation id) = some o' ∧ o'.key = o.key

/-- The keys tell how to number the operations. -/
theorem SymbolTable.SameKeys.exists_numbers (h : t.SameKeys t') (hw' : t'.WellFormed) :
    ∃ f, (Renumbering.ofOperations f).TakesOperations t t' := by
  have hnumber : ∀ id, ∃ id', ∀ o, t.operation? id = some o →
      ∃ o', t'.operation? id' = some o' ∧ o'.key = o.key := by
    intro id
    cases ho : t.operation? id with
    | none => exact ⟨id, fun _ heq => (Option.some_ne_none _ heq.symm).elim⟩
    | some o =>
      have hmem : o.key ∈ t'.operations.map fun o => o.key :=
        h.mem_iff.mp (List.mem_map_of_mem (List.mem_of_getElem? ho))
      obtain ⟨o', ho', hkey⟩ := List.mem_map.mp hmem
      exact ⟨o'.id, fun p hp => ⟨o', hw'.operation?_id ho', Option.some.inj hp ▸ hkey⟩⟩
  choose f hf using hnumber
  exact ⟨f, hf⟩

/-- The second table has the operations of the first one under other numbers, and its automata have the
same shifts, which point at these numbers. -/
structure SymbolTable.RenumbersTo (f : OperationId → OperationId) (t t' : SymbolTable) : Prop where
  automata : ∀ id, (t'.automaton? id).map (fun a => (a.name, a.shifts)) =
    (t.automaton? id).map fun a => (a.name, a.shifts.map (Shift.renumber (.ofOperations f)))
  operation? : ∀ id o, t.operation? id = some o →
    t'.operation? (f id) = some (o.renumber (.ofOperations f))
  /-- Each operation has a number of its own, and there are no others. -/
  operations_perm : (t.operations.map (Operation.renumber (.ofOperations f))).Perm t'.operations

/-! ## Signatures -/

/-- A declaration founds one operation, whatever its number is. -/
theorem Owned.Founds.renumber (hbase : base.Shows V) {item : Owned} {o o' : Operation}
    (h : item.Founds V base o) (h' : item.Founds V base o')
    (hfree : ∀ e ∈ item.1.typeExprs, BracketFree e.innermost.name)
    {f : OperationId → OperationId} (hid : o'.id = f o.id) : o' = o.renumber (.ofOperations f) := by
  obtain ⟨t, owner, a, s, u, ht, hgrows, ha, hname, hs, ho⟩ := h
  obtain ⟨t', owner', a', s', u', ht', hgrows', ha', hname', hs', ho'⟩ := h'
  have hρ := takesAutomata_of_growsTo hbase ht ht' hgrows hgrows' f
  have howner := ht.sameAutomaton_of_name ht' ha ha' (hname.trans hname'.symm)
  obtain ⟨s'', u'', hs'', rfl, -⟩ := item.1.carries_signature ht ht' hρ howner hfree s u hs
  obtain ⟨rfl, -⟩ := hs'.yields.unique hs''.yields
  rw [ho, Operation.renumber_withResult, ho', hid]
  rfl

/-! ## Lookups -/

/-- What a lookup by name, owner and perhaps argument types asks for. -/
def Signature.AnswersTo (s : Signature) (name automaton : String) (types : Option (List String)) :
    Prop :=
  s.owner = automaton ∧ s.name = some name ∧ ∀ ts, types = some ts → s.argumentTypes = ts

theorem Signature.AnswersTo.of_key {s s' : Signature} {name automaton : String}
    {types : Option (List String)} (h : s.AnswersTo name automaton types) (hkey : s'.key = s.key) :
    s'.AnswersTo name automaton types := by
  simp only [Signature.key, Prod.mk.injEq] at hkey
  obtain ⟨-, hname, howner, htypes⟩ := hkey
  exact ⟨howner.trans h.1, hname.trans h.2.1, fun ts hts => htypes.trans (h.2.2 ts hts)⟩

/-- No two operations have one owner, one name and the same argument types. -/
def SymbolTable.CalleesDistinct (t : SymbolTable) : Prop :=
  (t.operations.map fun o => o.callee).Nodup

/-- A lookup finds an operation that it asks for. -/
theorem SymbolTable.WellFormed.answersTo (hw : t.WellFormed) {name automaton : String}
    {types : Option (List String)} {id : OperationId}
    (h : t.lookupOperation name automaton types = .found id) :
    ∃ o, t.operation? id = some o ∧ o.AnswersTo name automaton types := by
  cases types with
  | none =>
    obtain ⟨o, hnamed, rfl⟩ := hw.operationsNamed_of_lookup h
    have hmem : o ∈ t.operationsNamed automaton name := hnamed ▸ List.mem_cons_self
    obtain ⟨hmem, howner, hname⟩ := SymbolTable.mem_operationsNamed.mp hmem
    exact ⟨o, hw.operation?_id hmem, howner, hname,
      fun _ heq => (Option.some_ne_none _ heq.symm).elim⟩
  | some ts =>
    rw [hw.lookupOperation_eq] at h
    cases hhead : (t.overloads automaton name ts).head? with
    | none =>
      rw [hhead] at h
      cases h
    | some o =>
      rw [hhead] at h
      cases h
      obtain ⟨hnamed, htypes⟩ := List.mem_filter.mp (List.mem_of_head? hhead)
      obtain ⟨hmem, howner, hname⟩ := SymbolTable.mem_operationsNamed.mp hnamed
      refine ⟨o, hw.operation?_id hmem, howner, hname, fun types heq => ?_⟩
      rw [← Option.some.inj heq]
      exact of_decide_eq_true htypes

/-- When no two operations are looked up alike, a lookup finds every operation that it asks for. -/
theorem SymbolTable.CalleesDistinct.lookup_unique (h : t.CalleesDistinct) (hw : t.WellFormed)
    {name automaton : String} {types : Option (List String)} {id j : OperationId}
    (hid : t.lookupOperation name automaton types = .found id) {p : Operation}
    (hp : t.operation? j = some p) (hanswers : p.AnswersTo name automaton types) : j = id := by
  obtain ⟨o, ho, howner, hname, htypes⟩ := hw.answersTo hid
  obtain ⟨howner', hname', htypes'⟩ := hanswers
  have hsame : p = o := by
    cases types with
    | none =>
      -- there is one operation of this name only
      obtain ⟨q, hnamed, -⟩ := hw.operationsNamed_of_lookup hid
      have hp' := SymbolTable.mem_operationsNamed.mpr ⟨List.mem_of_getElem? hp, howner', hname'⟩
      have ho' := SymbolTable.mem_operationsNamed.mpr ⟨List.mem_of_getElem? ho, howner, hname⟩
      rw [hnamed, List.mem_singleton] at hp' ho'
      exact hp'.trans ho'.symm
    | some ts =>
      refine List.inj_on_of_nodup_map h (List.mem_of_getElem? hp) (List.mem_of_getElem? ho) ?_
      simp only [Signature.callee, howner', howner, hname', hname, htypes' ts rfl, htypes ts rfl]
  rw [← hw.operation_id j p hp, hsame, hw.operation_id id o ho]

/-- Triggers name the operations of the same keys. -/
theorem SyntaxTree.Trigger.Names.renumber (hw : t.WellFormed) (hw' : t'.WellFormed)
    (hdistinct : t'.CalleesDistinct) (hρ : ρ.TakesOperations t t') {automaton : String}
    {trigger : Trigger} {id id' : OperationId} (h : trigger.Names t automaton id)
    (h' : trigger.Names t' automaton id') : id' = ρ.operation id := by
  obtain ⟨o, ho, hanswers⟩ := hw.answersTo h
  obtain ⟨o', ho', hkey⟩ := hρ id o ho
  exact (hdistinct.lookup_unique hw' h' ho' (hanswers.of_key hkey)).symm

/-- Shifts become the same under the other numbers. -/
theorem SyntaxTree.ShiftDecl.Becomes.renumber (hw : t.WellFormed) (hw' : t'.WellFormed)
    (hdistinct : t'.CalleesDistinct) (hρ : ρ.TakesOperations t t') {id id' : AutomatonId}
    (hname : (t.automaton? id).map Automaton.name = (t'.automaton? id').map Automaton.name)
    {part : ShiftDecl × Identifier} {s s' : Shift} (h : ShiftDecl.Becomes t id part s)
    (h' : ShiftDecl.Becomes t' id' part s') : s' = s.renumber ρ := by
  obtain ⟨⟨hsource, htarget, -, hspan⟩, hnames⟩ := h
  obtain ⟨⟨hsource', htarget', -, hspan'⟩, hnames'⟩ := h'
  rw [← hname] at hnames'
  have hfunctions : s'.functions = s.functions.map ρ.operation :=
    eq_map_of_forall₂ hnames hnames' fun _ _ _ hi hj => hi.renumber hw hw' hdistinct hρ hj
  have htargets := Option.some.inj (htarget'.symm.trans htarget)
  obtain ⟨source, target, functions, span⟩ := s'
  simp only at hsource' hfunctions htargets hspan'
  rw [Shift.renumber, hsource, hspan, hsource', hfunctions, htargets, hspan']

namespace Run

variable {l l' : SyntaxTree.Library} {options : Options}

/-! ## One run -/

theorem RunsCleanly.mentioned_free (h : RunsCleanly options l) (hfree : l.BracketFree)
    {p : PendingOperation} (hp : p ∈ recordOperations (ledger options l)) :
    (∀ e ∈ p.declaration.typeExprs, BracketFree e.innermost.name) ∧
      ∀ e ∈ p.declaration.bodyTypeExprs, BracketFree e.innermost.name := by
  obtain ⟨item, hitem, hdeclaration⟩ := h.entered.declared hp
  rw [hdeclaration]
  exact ⟨hfree.signature (h.placed_eq ▸ hitem), hfree.body (h.placed_eq ▸ hitem)⟩

theorem RunsCleanly.growsTo_of_elaborates (h : RunsCleanly options l) {t : SymbolTable}
    (ht : Relation.ReflTransGen Elaborates (withSignatures options l).2.table t) :
    (withAutomata l).2.table.GrowsTo t :=
  h.entered.signed.grows.trans (.of_reflTransGen ht fun _ _ => Elaborates.growsTo)

/-- When no two declarations are looked up alike, no two operations are. -/
theorem RunsCleanly.calleesDistinct (h : RunsCleanly options l) (hfree : l.BracketFree)
    (hdistinct : l.calleeKeys.Nodup) : (withSignatures options l).2.table.CalleesDistinct := by
  have hkeys := h.entered.signed.tallies.distinct
  have hfaces : ∀ o ∈ (withSignatures options l).2.table.operations,
      ∃ item ∈ l.owned, o.face = item.face (interface l) := by
    intro o ho
    obtain ⟨item, hitem, hfounds, -⟩ := h.exists_declaration (h.nodup_keys hfree hdistinct)
      ((withSignatures_wellFormed options l).operation?_id ho)
    exact ⟨item, hitem, hfounds.face_eq⟩
  rw [h.calleeKeys_eq hfree] at hdistinct
  refine List.Nodup.map_on (fun o ho p hp hcallee => ?_) (List.Nodup.of_map _ hkeys)
  obtain ⟨item, hitem, hface⟩ := hfaces o ho
  obtain ⟨other, hother, hface'⟩ := hfaces p hp
  have hsame : item = other := by
    refine List.inj_on_of_nodup_map hdistinct hitem hother ?_
    rw [← hface, ← hface', Signature.callee_face, Signature.callee_face, hcallee]
  refine List.inj_on_of_nodup_map hkeys ho hp ?_
  rw [← Signature.key_face, hface, hsame, ← hface', Signature.key_face]

/-- An operation was registered with the signature that it has in the end. -/
theorem exists_registered {id : OperationId} {o : Operation}
    (ho : (analyze options l).table.operation? id = some o) :
    ∃ p, (withSignatures options l).2.table.operation? id = some p ∧ p.key = o.key := by
  have hsignatures := congrArg (fun ss => ss[id.index]?)
    (signatures_of_elaborates (analyze_elaborates options l))
  simp only [List.getElem?_map] at hsignatures
  rw [show (analyze options l).table.operations[id.index]? = some o from ho,
    Option.map_some] at hsignatures
  obtain ⟨p, hp, hsame⟩ := Option.map_eq_some_iff.mp hsignatures.symm
  exact ⟨p, hp, congrArg Signature.key hsame⟩

/-! ## Two runs -/

section Rehoused

variable (h : RunsCleanly options l) (h' : RunsCleanly options l') (hl : l.Rehouses l')
  (hfree : l.BracketFree) (hdistinct : l.calleeKeys.Nodup)

include h h' hl hfree hdistinct

/-- Operations of one key come from one declaration. -/
theorem RunsCleanly.exists_shared_declaration {id id' : OperationId} {o o' : Operation}
    (ho : (withSignatures options l).2.table.operation? id = some o)
    (ho' : (withSignatures options l').2.table.operation? id' = some o') (hkey : o'.key = o.key) :
    ∃ item : Owned, item.Founds (interface l) (withAutomata l).2.table o ∧
      item.Founds (interface l) (withAutomata l).2.table o' ∧
      (∃ p ∈ recordOperations (ledger options l), p.id = id ∧ p.declaration.unqualified = item.1) ∧
      ∃ p' ∈ recordOperations (ledger options l'), p'.id = id' ∧
        p'.declaration.unqualified = item.1 := by
  have hkeys := h.nodup_keys hfree hdistinct
  have hkeys' := h'.nodup_keys (hl.bracketFree hfree) (hl.calleeKeys.nodup_iff.mp hdistinct)
  obtain ⟨item, hitem, hfounds, hbody⟩ := h.exists_declaration hkeys ho
  obtain ⟨item', hitem', hfounds', hbody'⟩ := h'.exists_declaration hkeys' ho'
  rw [← interface_rehouses hl, ← withAutomata_rehouses hl] at hfounds'
  have hsame : item' = item := by
    refine List.inj_on_of_nodup_map hkeys (hl.owned.mem_iff.mpr hitem') hitem ?_
    rw [← hfounds'.face_eq, ← hfounds.face_eq, Signature.key_face, Signature.key_face, hkey]
  exact ⟨item, hfounds, hsame ▸ hfounds', hbody, hsame ▸ hbody'⟩

/-- Each operation is registered as the same under the other numbers. -/
theorem RunsCleanly.registered_renumber {f : OperationId → OperationId} {id : OperationId}
    {o o' : Operation} (ho : (withSignatures options l).2.table.operation? id = some o)
    (ho' : (withSignatures options l').2.table.operation? (f id) = some o') (hkey : o'.key = o.key) :
    o' = o.renumber (.ofOperations f) := by
  obtain ⟨item, hfounds, hfounds', ⟨b, hb, -, hdeclaration⟩, -⟩ :=
    h.exists_shared_declaration h' hl hfree hdistinct ho ho' hkey
  refine hfounds.renumber h.toDeclaresCleanly.shows hfounds' ?_ ?_
  · rw [← hdeclaration]
    exact (h.mentioned_free hfree hb).1
  · rw [(withSignatures_wellFormed options l').operation_id _ o' ho',
      (withSignatures_wellFormed options l).operation_id _ o ho]

/-- Each operation is in the end the same under the other numbers. -/
theorem RunsCleanly.operation_renumber {f : OperationId → OperationId}
    (hf : (Renumbering.ofOperations f).TakesOperations (withSignatures options l).2.table
      (withSignatures options l').2.table) {id : OperationId} {o : Operation}
    (ho : (analyze options l).table.operation? id = some o) :
    (analyze options l').table.operation? (f id) = some (o.renumber (.ofOperations f)) := by
  obtain ⟨p, hp, -⟩ := exists_registered ho
  obtain ⟨p', hp', hkey⟩ := hf id p hp
  have hregistered := h.registered_renumber h' hl hfree hdistinct hp hp' hkey
  -- contracts and bodies are looked at for one declaration
  obtain ⟨item, -, -, ⟨b, hb, rfl, hdeclaration⟩, b', hb', hid', hdeclaration'⟩ :=
    h.exists_shared_declaration h' hl hfree hdistinct hp hp' hkey
  obtain ⟨t, u, ht, hsame, hclean, hend⟩ := h.exists_body hb
  obtain ⟨t', u', ht', hsame', hclean', hend'⟩ := h'.exists_body hb'
  rw [hid'] at hsame' hclean' hend'
  have hshows := h.entered.signed.shows.elaborates ht
  have hshows' := h'.entered.signed.shows.elaborates ht'
  have hgrows := h.growsTo_of_elaborates ht
  have hgrows' := h'.growsTo_of_elaborates ht'
  rw [← interface_rehouses hl] at hshows'
  rw [← withAutomata_rehouses hl] at hgrows'
  have hρ := takesAutomata_of_growsTo h.toDeclaresCleanly.shows hshows hshows' hgrows hgrows' f
  have hcarries := FunctionDecl.carries_elaborate hshows hshows' (Renumbering.keeps_renumber _) hρ
    (hsame.trans hp) (hsame'.trans hp') hregistered (by rw [hregistered]; rfl)
    (by rw [hregistered]; rfl) b.declaration.unqualified (h.mentioned_free hfree hb).2
  obtain ⟨_, v, hv, q, q', hq, hq', hqq⟩ := hcarries () u hclean
  rw [hdeclaration, ← hdeclaration'] at hv
  obtain ⟨-, rfl⟩ := hclean'.yields.unique hv.yields
  rw [hend, hq] at ho
  rw [← Option.some.inj ho, ← hqq]
  exact hend'.trans hq'

/-- The operations are in the end the same under the other numbers, in another order. -/
theorem RunsCleanly.rehoused_operations_perm {f : OperationId → OperationId}
    (hf : (Renumbering.ofOperations f).TakesOperations (withSignatures options l).2.table
      (withSignatures options l').2.table)
    (hkeys : (withSignatures options l).2.table.SameKeys (withSignatures options l').2.table) :
    ((analyze options l).table.operations.map (Operation.renumber (.ofOperations f))).Perm
      (analyze options l').table.operations := by
  have hends : ∀ {l : SyntaxTree.Library}, RunsCleanly options l →
      (analyze options l).table.KeysDistinct ∧ (analyze options l).table.operations.length =
        (withSignatures options l).2.table.operations.length := by
    intro l h
    have helaborates := analyze_elaborates options l
    have hlength := congrArg List.length (signatures_of_elaborates helaborates)
    rw [List.length_map, List.length_map] at hlength
    exact ⟨keeps_of_reflTransGen helaborates (fun _ _ => Elaborates.keysDistinct)
      h.entered.signed.tallies.distinct, hlength⟩
  have hsub : (analyze options l).table.operations.map (Operation.renumber (.ofOperations f)) ⊆
      (analyze options l').table.operations := by
    intro x hx
    obtain ⟨o, ho, rfl⟩ := List.mem_map.mp hx
    exact List.mem_of_getElem? (h.operation_renumber h' hl hfree hdistinct hf
      ((analyze_wellFormed options l).operation?_id ho))
  have hnodup :
      ((analyze options l).table.operations.map (Operation.renumber (.ofOperations f))).Nodup := by
    refine List.Nodup.of_map (fun o : Operation => o.key) ?_
    rw [List.map_map, Function.comp_def]
    simp only [Operation.key_renumber]
    exact (hends h).1
  -- there are as many in one table as in the other
  have hlength : (analyze options l').table.operations.length ≤
      ((analyze options l).table.operations.map (Operation.renumber (.ofOperations f))).length := by
    have hcount := hkeys.length_eq
    rw [List.length_map, List.length_map] at hcount
    rw [List.length_map, (hends h).2, (hends h').2, hcount]
  exact (hnodup.subperm hsub).perm_of_length_le hlength

omit hdistinct in
/-- The shifts of an automaton are in the end the same under the other numbers. -/
theorem RunsCleanly.shifts_renumber (hdistinct' : l'.calleeKeys.Nodup)
    {f : OperationId → OperationId}
    (hf : (Renumbering.ofOperations f).TakesOperations (withSignatures options l).2.table
      (withSignatures options l').2.table) (id : AutomatonId) :
    ((analyze options l').table.automaton? id).map (fun a => (a.name, a.shifts)) =
      ((analyze options l).table.automaton? id).map fun a =>
        (a.name, a.shifts.map (Shift.renumber (.ofOperations f))) := by
  cases ha : (analyze options l).table.automaton? id with
  | none =>
    have hnone : (analyze options l').table.automaton? id = none := by
      have hlength := congrArg List.length hl.automata
      rw [List.length_map, List.length_map, h.mirrors_automata.length_eq,
        h'.mirrors_automata.length_eq] at hlength
      rw [SymbolTable.automaton?, List.getElem?_eq_none_iff] at ha ⊢
      exact hlength ▸ ha
    rw [hnone]
    rfl
  | some a =>
    obtain ⟨d, hd, hmirrors⟩ := forall₂_getElem? h.mirrors_automata ha
    obtain ⟨d', hd', hheads⟩ := hl.symm.getElem?_automata hd
    obtain ⟨a', ha', hmirrors'⟩ := forall₂_getElem? h'.mirrors_automata.flip hd'
    have hname : d'.name.name = d.name.name := AutomatonDecl.name_eq hheads
    have hshifts : d'.shifts = d.shifts := by
      show d'.withoutFunctions.shifts = d.withoutFunctions.shifts
      rw [hheads]
    have hbecomes := h.becomes hd ha
    have hbecomes' := h'.becomes hd' ha'
    rw [hshifts] at hbecomes'
    have hregistered : ((withSignatures options l).2.table.automaton? id).map Automaton.name =
        ((withSignatures options l').2.table.automaton? id).map Automaton.name := by
      obtain ⟨b, hb, hregisters⟩ := forall₂_getElem? h.registers_withSignatures.automata.flip hd
      obtain ⟨b', hb', hregisters'⟩ := forall₂_getElem? h'.registers_withSignatures.automata.flip hd'
      rw [SymbolTable.automaton?, SymbolTable.automaton?, hb, hb', Option.map_some, Option.map_some,
        hregisters.name, hregisters'.name, hname]
    have hsame : a'.shifts = a.shifts.map (Shift.renumber (.ofOperations f)) :=
      eq_map_of_forall₂ hbecomes hbecomes' fun _ _ _ hs hs' =>
        hs.renumber (withSignatures_wellFormed options l) (withSignatures_wellFormed options l')
          (h'.calleesDistinct (hl.bracketFree hfree) hdistinct') hf hregistered hs'
    rw [SymbolTable.automaton?, ha', Option.map_some, Option.map_some, hsame, hmirrors.name,
      hmirrors'.name, hname]

/-- Where operations stand decides about their numbers only. -/
theorem RunsCleanly.exists_renumbersTo :
    ∃ f, (analyze options l).table.RenumbersTo f (analyze options l').table := by
  have hcounterparts := h.counterparts_of_rehouses hl hfree hdistinct
  have hkeys := (h.counterparts_alike hcounterparts hfree).keys
  obtain ⟨f, hf⟩ := hkeys.exists_numbers (withSignatures_wellFormed options l')
  exact ⟨f, h.shifts_renumber h' hl hfree (hl.calleeKeys.nodup_iff.mp hdistinct) hf,
    fun _ _ => h.operation_renumber h' hl hfree hdistinct hf,
    h.rehoused_operations_perm h' hl hfree hdistinct hf hkeys⟩

end Rehoused

end Run

/-! ## Compilations -/

namespace Sample

/-- The door with the operations `turn` and `close`. -/
def workingDoor : AutomatonDecl :=
  { door with
    functions :=
      [{ turning with automaton := none },
        { turning with
          automaton := none, name := some (.onLine "close" 40), contracts := [], body := none }] }

/-- A library whose operations are all nested. -/
def nesting : SyntaxTree.Library :=
  { library with
    declarations := library.declarations.dropLast.dropLast ++ [.automatonDecl workingDoor] }

/-- The library with `turn` moved out of the door. -/
def qualifying : SyntaxTree.Library :=
  { library with
    declarations := library.declarations.dropLast.dropLast ++
      [.automatonDecl { workingDoor with functions := workingDoor.functions.drop 1 },
        .functionDecl turning] }

theorem nesting_movesOut : nesting.MovesOut qualifying :=
  ⟨_, _, .other (.other (.other (.other (.other (.other (.other
    (.automaton (.leaves (show (Identifier.onLine "Door" 30).name = "Door" from rfl) (.stays .nil))
      .nil))))))), rfl⟩

end Sample

namespace Session

/-- It does not matter whether operations are nested in their automata or qualified with them. Libraries
of which one is the other with some operations moved out, both compile or both fail; and when they
compile, their operations and their shifts differ in the numbers of the operations only. -/
theorem nesting_is_qualification (options : Options) {l l' : SyntaxTree.Library}
    (hmoves : l.MovesOut l') (hnested : l.NestsPlainly)
    (hfree : ∀ name ∈ l.typeNames, BracketFree name) (hdistinct : l.calleeKeys.Nodup) :
    ((∃ result, ((start options).compile l).1 = .ok result) ↔
      ∃ result, ((start options).compile l').1 = .ok result) ∧
    ∀ result result', ((start options).compile l).1 = .ok result →
      ((start options).compile l').1 = .ok result' →
        ∃ f, result.table.RenumbersTo f result'.table := by
  have hl : l.Rehouses l' := hmoves.rehouses hnested
  have hfree' : l'.BracketFree := hl.bracketFree hfree
  have hdistinct' : l'.calleeKeys.Nodup := hl.calleeKeys.nodup_iff.mp hdistinct
  refine ⟨?_, fun result result' hresult hresult' => ?_⟩
  · rw [compile_succeeds_iff, compile_succeeds_iff]
    exact ⟨fun h => (Run.clean_analyze h).rehouses_faultless hl hfree hdistinct,
      fun h => (Run.clean_analyze h).rehouses_faultless hl.symm hfree' hdistinct'⟩
  · obtain ⟨h, rfl⟩ := Run.clean_of_compile hresult
    obtain ⟨h', rfl⟩ := Run.clean_of_compile hresult'
    exact h.exists_renumbersTo h' hl hfree hdistinct

/-- There is a library that compiles with an operation nested and with the operation moved out. -/
theorem nesting_is_qualification_sample :
    ∃ result result' f, ((start .standard).compile Sample.nesting).1 = .ok result ∧
      ((start .standard).compile Sample.qualifying).1 = .ok result' ∧
        result.table.RenumbersTo f result'.table := by
  have hnested : Sample.nesting.NestsPlainly := by decide
  have hfree : ∀ name ∈ Sample.nesting.typeNames, BracketFree name := by decide
  have hdistinct : Sample.nesting.calleeKeys.Nodup := by decide +kernel
  obtain ⟨hiff, hsame⟩ :=
    nesting_is_qualification .standard Sample.nesting_movesOut hnested hfree hdistinct
  have hcompiles : ∃ result, ((start .standard).compile Sample.nesting).1 = .ok result :=
    (compile_succeeds_iff _ _).mpr (show Diagnostics.hasErrors _ = false by decide +kernel)
  obtain ⟨result, hresult⟩ := hcompiles
  obtain ⟨result', hresult'⟩ := hiff.mp ⟨result, hresult⟩
  obtain ⟨f, hf⟩ := hsame result result' hresult hresult'
  exact ⟨result, result', f, hresult, hresult', hf⟩

/-- The operation that moves out has another number, and the shifts of its automaton follow. -/
example :
    ((Run.analyze .standard Sample.nesting).table.automata.map fun a =>
      a.shifts.map Shift.functions) = [[], [[⟨0⟩], [⟨0⟩]]] ∧
    ((Run.analyze .standard Sample.qualifying).table.automata.map fun a =>
      a.shifts.map Shift.functions) = [[], [[⟨1⟩], [⟨1⟩]]] := by
  decide +kernel

end Session

end LibraryContract
