import LibraryContract.Proofs.Rehousing

/-!
# What operations and shifts have come from

Without errors, an operation with a single declaration is in the end what this declaration has made of
it: the declaration gave it its signature, and then its contracts and its body in one step. The shifts
of an automaton come from the step that looked at the automaton, and the operations that cause them are
those that the declarations name in the end.

* `RunsCleanly.exists_declaration`: the declaration that an operation comes from;
* `RunsCleanly.exists_body`: the step that gave it its contracts and its body;
* `RunsCleanly.becomes`: the shifts of an automaton.
-/

namespace LibraryContract

open SyntaxTree Build

variable {V : Interface} {t u base : SymbolTable}

/-! ## Signatures -/

theorem SyntaxTree.FunctionDecl.clean_register {options : Options} {d : FunctionDecl}
    {enclosing : Option AutomatonId} {r : Registration}
    (h : (d.register options enclosing).Clean t r u) :
    ∃ owner s v w, (d.resolveOwner options enclosing).Yields t owner ∧
      (d.signature owner).Clean t s v ∧ v.registerOperation s = .ok (r, w) ∧
        u = w.withResult r.id d.span := by
  obtain ⟨owner, _, howner, h⟩ := clean_bind.mp h
  obtain ⟨hyields, rfl⟩ := clean_liftM howner
  obtain ⟨s, v, hs, h⟩ := clean_bind.mp h
  obtain ⟨r', w, hr, h⟩ := clean_bind.mp h
  obtain ⟨_, x, hx, h⟩ := clean_bind.mp h
  obtain ⟨rfl, rfl⟩ := clean_pure.mp h
  refine ⟨owner, s, v, w, hyields, hs, Build.clean_register.mp hr, ?_⟩
  exact (hx.yields.unique (FunctionDecl.clean_declareResult r'.id d.span w).yields).2

/-- The operation is what the declaration makes of it: it has its signature and the variable for what it
returns, and nothing else yet. -/
def Owned.Founds (V : Interface) (base : SymbolTable) (item : Owned) (o : Operation) : Prop :=
  ∃ t owner a s u, t.Shows V ∧ base.GrowsTo t ∧ t.automaton? owner = some a ∧ a.name = item.2 ∧
    (item.1.signature owner).Clean t s u ∧
      o = (Operation.ofSignature o.id s).withResult o.id item.1.span

/-- A declaration and its operation say the same. -/
theorem Owned.Founds.face_eq {item : Owned} {o : Operation} (h : item.Founds V base o) :
    o.face = item.face V := by
  obtain ⟨t, owner, a, s, u, ht, -, ha, hname, hs, ho⟩ := h
  have howner : s.owner = item.2 := by
    rw [(FunctionDecl.signature_describes ht.wellFormed hs.yields).2, ha, ← hname]
    rfl
  rw [ho, Operation.toSignature_withResult, Owned.face, ← howner]
  exact FunctionDecl.signature_face ht hs.yields

/-- Every operation of the table is what one of the declarations makes of it. -/
def SymbolTable.Founded (V : Interface) (t base : SymbolTable) (items : List Placed) : Prop :=
  ∀ id o, t.operation? id = some o → ∃ item ∈ items, (item.owned base).Founds V base o

theorem Placed.owner_named (ht : t.WellFormed) (hbase : base.GrowsTo t) {item : Placed}
    (hitem : item.Known base) {options : Options} {owner : AutomatonId}
    (howner : (item.1.resolveOwner options item.2).Yields t owner) :
    ∃ a, t.automaton? owner = some a ∧ a.name = item.ownerName base := by
  rcases FunctionDecl.resolveOwner_yields howner with hid | ⟨hnone, qualifier, hq, hid⟩
  · obtain ⟨b, hb⟩ := hitem owner hid
    obtain ⟨a, ha, hgrows⟩ := hbase.automaton? hb
    refine ⟨a, ha, ?_⟩
    simp only [Placed.ownerName, hid, hb, Option.map_some, Option.getD_some, hgrows.name]
  · obtain ⟨a, ha, hname⟩ := (ht.automatonId?_iff _ _).mp hid
    refine ⟨a, ha, ?_⟩
    simp only [Placed.ownerName, hnone, hq, Option.map_some, Option.getD_some, hname]

/-- A declaration with a key of its own founds an operation. -/
theorem SymbolTable.Founded.enter {items : List Placed} (hf : t.Founded V base items)
    (h : t.Signed V base items) {item : Placed} (hitem : item.Known base)
    (hnew : ∀ other ∈ items, ((other.owned base).face V).key ≠ ((item.owned base).face V).key)
    {options : Options} {e : LedgerEntry} (he : (Run.enter options item).Clean t e u) :
    u.Founded V base (items ++ [item]) := by
  obtain ⟨r, x, hr, hpure⟩ := clean_bind.mp he
  obtain ⟨-, rfl⟩ := clean_pure.mp hpure
  obtain ⟨owner, s, v, w, howner, hs, hw, rfl⟩ := FunctionDecl.clean_register hr
  have hinterns := hs.yields.reaches (item.1.signature_within owner t)
  have hv := h.shows.interns hinterns
  have hface := Placed.signature_face h.shows h.grows hitem howner hs.yields
  obtain ⟨types, rfl⟩ := Interns.types_only hinterns
  intro id o ho
  cases hv.wellFormed.registerOperation_operation? hw ho with
  | other _ hold =>
    obtain ⟨other, hother, hfounds⟩ := hf id o hold
    exact ⟨other, List.mem_append_left _ hother, hfounds⟩
  | new _ _ =>
    obtain ⟨a, ha, hname⟩ := Placed.owner_named h.shows.wellFormed h.grows hitem howner
    refine ⟨item, List.mem_append_right _ (List.mem_singleton_self _), t, owner, a, s, _, h.shows,
      h.grows, ha, hname, hs, ?_⟩
    rw [Operation.id_withResult]
    rfl
  | @completed declared _ hold _ _ _ hkind hname howns htypes =>
    -- the declaration that it comes from would have the same key
    obtain ⟨other, hother, hfounds⟩ := hf id declared hold
    refine (hnew other hother ?_).elim
    rw [← hfounds.face_eq, ← hface, Signature.key_face, Signature.key_face, Signature.key, hkind, hname,
      howns, htypes]
    rfl

namespace Run

variable {l : SyntaxTree.Library} {options : Options}

/-- When no two declarations have one key, each operation is what one of them makes of it. -/
theorem RunsCleanly.founded (h : RunsCleanly options l)
    (hkeys : (l.owned.map fun item => (item.face (interface l)).key).Nodup) :
    (withSignatures options l).2.table.Founded (interface l) (withAutomata l).2.table (placed l) := by
  have hinvariant := clean_mapM_invariant (I := fun items _ t =>
      t.Signed (interface l) (withAutomata l).2.table items ∧
        ((items.map fun item => ((item.owned (withAutomata l).2.table).face (interface l)).key).Nodup →
          t.Founded (interface l) (withAutomata l).2.table items)) ?_ h.signatures
    ⟨h.signed_nil, fun _ id o ho => ?_⟩
  · refine hinvariant.2 ?_
    rw [← h.owned, List.map_map] at hkeys
    exact hkeys
  · intro item hitem items _ t e u ht he
    have hknown : item.Known (withAutomata l).2.table := fun _ hid => placed_named hitem hid
    refine ⟨signed_enter ht.1 hknown he, fun hnodup => ?_⟩
    rw [List.map_append, List.map_singleton, List.nodup_append] at hnodup
    refine (ht.2 hnodup.1).enter ht.1 hknown (fun other hother => ?_) he
    exact hnodup.2.2 _ (List.mem_map_of_mem hother) _ (List.mem_singleton_self _)
  · rw [SymbolTable.operation?, withAutomata_operations] at ho
    cases ho

/-- An operation comes from one declaration, and the contracts and the body that are looked at for it
are those of this declaration. -/
theorem RunsCleanly.exists_declaration (h : RunsCleanly options l)
    (hkeys : (l.owned.map fun item => (item.face (interface l)).key).Nodup) {id : OperationId}
    {o : Operation} (ho : (withSignatures options l).2.table.operation? id = some o) :
    ∃ item ∈ l.owned, item.Founds (interface l) (withAutomata l).2.table o ∧
      ∃ p ∈ recordOperations (ledger options l), p.id = id ∧
        p.declaration.unqualified = item.1 := by
  obtain ⟨placedItem, hplaced, hfounds⟩ := h.founded hkeys id o ho
  have howned := List.mem_map_of_mem (f := Placed.owned (withAutomata l).2.table) hplaced
  rw [h.owned] at howned
  refine ⟨_, howned, hfounds, ?_⟩
  -- the declarations of the operation are those of its key, and there is one only
  have hkey : ((placedItem.owned (withAutomata l).2.table).face (interface l)).key = o.key := by
    rw [← hfounds.face_eq, Signature.key_face]
  have hdeclarations := h.entered.declarationsOf_owned ho
  rw [h.owned] at hdeclarations
  have hmem : placedItem.owned (withAutomata l).2.table ∈
      (declarationsOf (ledger options l) id).map (Placed.owned (withAutomata l).2.table) := by
    rw [hdeclarations]
    exact List.mem_filter.mpr ⟨howned, decide_eq_true hkey⟩
  obtain ⟨last, hlast⟩ : ∃ last, (declarationsOf (ledger options l) id).getLast? = some last := by
    refine Option.ne_none_iff_exists'.mp fun hnone => ?_
    rw [List.getLast?_eq_none_iff.mp hnone] at hmem
    cases hmem
  have hlast' := List.mem_map_of_mem (f := Placed.owned (withAutomata l).2.table)
    (List.mem_of_getLast? hlast)
  rw [hdeclarations] at hlast'
  obtain ⟨hlastOwned, hlastKey⟩ := List.mem_filter.mp hlast'
  have hsame : last.owned (withAutomata l).2.table = placedItem.owned (withAutomata l).2.table :=
    List.inj_on_of_nodup_map hkeys hlastOwned howned
      ((of_decide_eq_true hlastKey).trans hkey.symm)
  exact ⟨⟨id, last.1⟩, (mem_recordOperations h.entered.explained.sequential).mpr ⟨last, hlast, rfl⟩,
    rfl, congrArg Prod.fst hsame⟩

/-! ## Contracts and bodies -/

/-- What an operation is in the end, the step that looked at its contracts and its body has left; the
step found the operation as it was registered. -/
theorem RunsCleanly.exists_body (h : RunsCleanly options l) {p : PendingOperation}
    (hp : p ∈ recordOperations (ledger options l)) :
    ∃ t u, Relation.ReflTransGen Elaborates (withSignatures options l).2.table t ∧
      t.operation? p.id = (withSignatures options l).2.table.operation? p.id ∧
        (p.declaration.elaborate p.id).Clean t () u ∧
          (analyze options l).table.operation? p.id = u.operation? p.id := by
  obtain ⟨_, hbodies⟩ := h.bodies
  rw [← withSignatures_recorded] at hp
  have hshifts := withShifts_fills options l
  have hother : ∀ q ∈ (withSignatures options l).1, ∀ t (b : Unit) u id,
      (q.declaration.elaborate q.id).Clean t b u → id ≠ q.id → u.operation? id = t.operation? id := by
    intro q _ t b u id hq hid
    obtain ⟨types, contracts, statements, f, rfl, -, -⟩ := FunctionDecl.elaborate_clean hq
    rw [SymbolTable.operation?_modifyOperation, if_neg hid]
    rfl
  obtain ⟨t, a, u, ht, hclean, hbefore, hafter⟩ := clean_mapM_apart
    PendingOperation.id SymbolTable.operation? hbodies (withSignatures_nodup options l)
    (fun q _ t => q.declaration.elaborate_within q.id t) hother p hp
  refine ⟨t, u, (elaborates_of_fills hshifts).trans ht, ?_, hclean, hafter⟩
  rw [hbefore]
  exact operation?_of_fills hshifts (List.forall_mem_nil _)

end Run

/-! ## Shifts -/

/-- Once operations are registered, lookups lead to the same ones. -/
theorem lookupOperation_of_elaborates (h : Relation.ReflTransGen Elaborates t u) :
    u.lookupOperation = t.lookupOperation := by
  have hids : u.operationIds = t.operationIds :=
    keeps_of_reflTransGen (P := fun u => u.operationIds = t.operationIds) h
      (fun _ _ hstep hids => hstep.names.2.trans hids) rfl
  have htypes : u.hasArgumentTypes = t.hasArgumentTypes := by
    funext types id
    have hsignature : ∀ v : SymbolTable, v.hasArgumentTypes types id =
        (((v.operations.map fun o => o.toSignature)[id.index]?).map fun s =>
          decide (s.argumentTypes = types)).getD false := by
      intro v
      rw [SymbolTable.hasArgumentTypes, SymbolTable.operation?, List.getElem?_map]
      cases v.operations[id.index]? <;> rfl
    rw [hsignature, hsignature, signatures_of_elaborates h]
  funext name automaton types
  unfold SymbolTable.lookupOperation
  rw [hids, htypes]

theorem SyntaxTree.ShiftDecl.Becomes.of_elaborates {id : AutomatonId}
    {part : ShiftDecl × Identifier} {s : Shift} (h : ShiftDecl.Becomes u id part s)
    (hid : ∃ a, t.automaton? id = some a) (htu : Relation.ReflTransGen Elaborates t u) :
    ShiftDecl.Becomes t id part s := by
  obtain ⟨hmirrors, hfunctions⟩ := h
  obtain ⟨a, ha⟩ := hid
  have hgrows : t.GrowsTo u := .of_reflTransGen htu fun _ _ => Elaborates.growsTo
  obtain ⟨b, hb, hab⟩ := hgrows.automaton? ha
  refine ⟨hmirrors, ?_⟩
  rw [hb, Option.map_some, Option.getD_some, hab.name] at hfunctions
  rw [ha, Option.map_some, Option.getD_some]
  refine hfunctions.imp fun trigger f hf => ?_
  rw [Trigger.Names, ← lookupOperation_of_elaborates htu]
  exact hf

/-- Initial values leave the shifts of automata as they are. -/
theorem PendingInitializer.shifts_of_elaborate {p : PendingInitializer} {scope : Scope} {a : Unit}
    (h : (p.elaborate scope).Clean t a u) (id : AutomatonId) :
    (u.automaton? id).map Automaton.shifts = (t.automaton? id).map Automaton.shifts := by
  obtain ⟨value, v, hvalue, hmodify⟩ := clean_bind.mp h
  obtain ⟨-, rfl⟩ := clean_liftM hvalue
  obtain rfl := clean_modify.mp hmodify
  cases p.scope with
  | automaton owner => exact t.map_automaton?_modifyAutomaton owner id fun _ => rfl
  | constructorParameter owner => exact t.map_automaton?_modifyAutomaton owner id fun _ => rfl
  | _ => rfl

/-- Automata are numbered by their places. -/
theorem SyntaxTree.Library.nodup_pendingAutomata (l : SyntaxTree.Library) :
    (l.pendingAutomata.map PendingAutomaton.id).Nodup := by
  refine List.Nodup.of_map AutomatonId.index ?_
  have hrange : (l.pendingAutomata.map PendingAutomaton.id).map AutomatonId.index =
      List.range l.automata.length :=
    List.ext_getElem (by simp [pendingAutomata])
      fun i hi hi' => by simp [pendingAutomata, AutomatonDecl.pending]
  rw [hrange]
  exact List.nodup_range

namespace Run

/-- Looking at an automaton adds its shifts to it, and no shifts to others. -/
theorem shifts_of_completeAutomaton {p : PendingAutomaton} {x : Unit}
    (hp : ∀ q ∈ p.initializers, q.scope.OutsideOperations)
    (h : (completeAutomaton p).Clean t x u) : ∃ v new, Relation.ReflTransGen Elaborates t v ∧
      List.Forall₂ (ShiftDecl.Becomes v p.id) (p.declaration.shifts.flatMap ShiftDecl.parts) new ∧
        ∀ id, (u.automaton? id).map Automaton.shifts = ((t.automaton? id).map Automaton.shifts).map
          fun shifts => if id = p.id then shifts ++ new else shifts := by
  obtain ⟨_, v, hinitials, h⟩ := clean_bind.mp h
  obtain ⟨_, w, hshifts, hpure⟩ := clean_bind.mp h
  obtain ⟨-, rfl⟩ := clean_pure.mp hpure
  obtain ⟨types, new, rfl, hnew⟩ := ShiftDecl.mapM_elaborate_clean hshifts
  have hv : ∀ id, (v.automaton? id).map Automaton.shifts = (t.automaton? id).map Automaton.shifts :=
    fun id => clean_mapM_keeps
      (P := fun v => (v.automaton? id).map Automaton.shifts = (t.automaton? id).map Automaton.shifts)
      (fun q _ s b w hs hq => (PendingInitializer.shifts_of_elaborate hq id).trans hs) hinitials rfl
  refine ⟨v, new, hinitials.yields.reaches (within_mapM (fun q hq s =>
    elaborateInitializer_within rfl rfl (hp q hq) s) t), hnew, fun id => ?_⟩
  rw [← hv, SymbolTable.automaton?_modifyAutomaton]
  by_cases hid : id = p.id
  · simp only [hid, if_true, Option.map_map]
    rfl
  · simp only [hid, if_false, Option.map_id']
    rfl

variable {l : SyntaxTree.Library} {options : Options}

theorem RunsCleanly.shifts_withInitials (h : RunsCleanly options l) (id : AutomatonId) :
    ((withInitials options l).table.automaton? id).map Automaton.shifts =
      ((withSignatures options l).2.table.automaton? id).map Automaton.shifts := by
  obtain ⟨_, hinitials⟩ := h.initials
  exact clean_mapM_keeps (P := fun t => (t.automaton? id).map Automaton.shifts =
      ((withSignatures options l).2.table.automaton? id).map Automaton.shifts)
    (fun _ _ _ _ _ ht hq => (PendingInitializer.shifts_of_elaborate hq id).trans ht) hinitials rfl

/-- Bodies leave automata as they are. -/
theorem RunsCleanly.automaton?_withShifts (h : RunsCleanly options l) (id : AutomatonId) :
    (analyze options l).table.automaton? id = (withShifts options l).table.automaton? id := by
  obtain ⟨_, hbodies⟩ := h.bodies
  refine clean_mapM_keeps (P := fun t => t.automaton? id = (withShifts options l).table.automaton? id)
    (fun q _ t b u ht hq => ?_) hbodies rfl
  obtain ⟨types, contracts, statements, f, rfl, -, -⟩ := FunctionDecl.elaborate_clean hq
  exact ht

/-- The shifts of an automaton are in the end what the declaration of the automaton makes of them. -/
theorem RunsCleanly.becomes (h : RunsCleanly options l) {i : Nat} {d : AutomatonDecl}
    (hd : l.automata[i]? = some d) {a : Automaton}
    (ha : (analyze options l).table.automaton? ⟨i⟩ = some a) :
    List.Forall₂ (ShiftDecl.Becomes (withSignatures options l).2.table ⟨i⟩)
      (d.shifts.flatMap ShiftDecl.parts) a.shifts := by
  obtain ⟨_, hshifts⟩ := h.shifts
  rw [h.registers.2] at hshifts
  have hmem := Library.mem_pendingAutomata hd
  obtain ⟨t, x, u, ht, hclean, hbefore, hafter⟩ := clean_mapM_apart
    PendingAutomaton.id (fun t id => (t.automaton? id).map Automaton.shifts) hshifts
    l.nodup_pendingAutomata
    (fun p hp t => completeAutomaton_within (l.pendingAutomata_outside p hp) t)
    (fun p hp s _ v id hs hid => by
      obtain ⟨_, _, -, -, hkeep⟩ := shifts_of_completeAutomaton (l.pendingAutomata_outside p hp) hs
      rw [hkeep id]
      simp only [hid, if_false, Option.map_id']) (d.pending ⟨i⟩) hmem
  obtain ⟨v, new, hv, hnew, hkeep⟩ :=
    shifts_of_completeAutomaton (l.pendingAutomata_outside _ hmem) hclean
  obtain ⟨b, hb, hregisters⟩ := forall₂_getElem? h.registers_withSignatures.automata.flip hd
  -- there are no shifts before the step and none come after it
  have hbefore' : (t.automaton? ⟨i⟩).map Automaton.shifts = some [] := by
    refine (Eq.trans hbefore (h.shifts_withInitials ⟨i⟩)).trans ?_
    rw [SymbolTable.automaton?, hb, Option.map_some, hregisters.shifts]
  have hafter' : some a.shifts = (u.automaton? ⟨i⟩).map Automaton.shifts := by
    rw [← Option.map_some, ← ha, h.automaton?_withShifts]
    exact hafter
  have hkeep := hkeep ⟨i⟩
  rw [hbefore'] at hkeep
  have hfinal : some a.shifts = some ([] ++ new) := by
    refine (hafter'.trans hkeep).trans (congrArg some ?_)
    exact if_pos rfl
  rw [Option.some.inj hfinal]
  exact hnew.imp fun part s hs =>
    hs.of_elaborates ⟨b, hb⟩ ((withInitials_elaborates options l).trans (ht.trans hv))

end Run

end LibraryContract
