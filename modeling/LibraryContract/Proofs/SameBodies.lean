import LibraryContract.Proofs.Filling
import LibraryContract.Proofs.SameSignatures

/-!
# The same bodies in another order

When two libraries leave the same work to the later phases, the operations that the runs register
have the same keys and the same faces, and the body that stands for an operation is that of the last
declaration of its key in both. So whatever is looked at late is looked at in tables that answer alike.

* `Entered.exists_twin`: each body that is to be looked at has its counterpart;
* `RunsCleanly.counterparts_faultless`: the counterpart of a library without errors has none.
-/

namespace LibraryContract

open SyntaxTree Build

variable {V : Interface} {t t' u base base' : SymbolTable}

/-! ## Operations of one key -/

theorem Placed.HasKey.key_eq (ht : t.Shows V) (hbase : base.GrowsTo t) {item : Placed}
    (hitem : item.Known base) {s : Signature} (h : item.HasKey t s) :
    s.key = ((item.owned base).face V).key := by
  have howner : s.owner = item.ownerName base :=
    h.owner.eq_ownerName.trans (hitem.ownerName_eq hbase)
  have htypes : s.argumentTypes = item.1.parameters.map (Parameter.typeIn V) := by
    rw [← List.forall₂_eq_eq_eq, List.forall₂_map_right_iff]
    exact h.types.flip.imp fun _ _ htype => Parameter.HasType.eq_typeIn ht htype
  rw [Signature.key, h.kind, h.name, howner, htypes]
  simp [Signature.Face.key, Placed.owned, Owned.face, FunctionDecl.face, FunctionDecl.unqualified]

/-- The operations of the table are those that the entries tell of, with the declarations in `items`.
-/
structure SymbolTable.Entered (V : Interface) (t base : SymbolTable) (entries : List LedgerEntry)
    (items : List Placed) : Prop where
  signed : t.Signed V base items
  explained : t.Explained entries
  items_eq : entries.map Prod.snd = items
  known : ∀ item ∈ items, item.Known base

/-- The declarations of an operation are those of its key. -/
theorem SymbolTable.Entered.declarationsOf_owned {entries : List LedgerEntry} {items : List Placed}
    (h : t.Entered V base entries items) {id : OperationId} {o : Operation}
    (ho : t.operation? id = some o) :
    (declarationsOf entries id).map (Placed.owned base) =
      keyed V o.key (items.map (Placed.owned base)) := by
  have hsame : ∀ e ∈ entries, e.1.id = id ↔ ((e.2.owned base).face V).key = o.key := by
    intro e he
    obtain ⟨p, hp⟩ := h.explained.known e he
    have hknown := h.known e.2 (h.items_eq ▸ List.mem_map_of_mem he)
    have hkey : p.key = ((e.2.owned base).face V).key :=
      (h.explained.hasKey he hp).key_eq h.signed.shows h.signed.grows hknown
    rw [← hkey]
    constructor
    · rintro rfl
      rw [ho] at hp
      cases hp
      rfl
    · intro heq
      have hpo : p = o := List.inj_on_of_nodup_map h.signed.tallies.distinct
        (List.mem_of_getElem? hp) (List.mem_of_getElem? ho) heq
      have hid := h.explained.wellFormed.operation_id
      rw [← hid _ p hp, hpo, hid _ o ho]
  rw [declarationsOf, keyed, ← h.items_eq, List.map_map, List.map_map, List.filter_map]
  refine congrArg (List.map _) (List.filter_congr fun e he => ?_)
  exact decide_eq_decide.mpr (hsame e he)

/-- Tables that answer alike about every key have the same keys. -/
theorem SymbolTable.KeysDistinct.sameKeys (h : t.KeysDistinct) (h' : t'.KeysDistinct)
    (hface : ∀ key, t.face? key = t'.face? key) : t.SameKeys t' := by
  refine (List.perm_ext_iff_of_nodup h h').mpr fun key => not_iff_not.mp ?_
  rw [← face?_eq_none_iff, ← face?_eq_none_iff, hface]

theorem Operation.Unelaborated.resembles {o o' : Operation} (h : o.Unelaborated)
    (h' : o'.Unelaborated) (hface : o.face = o'.face) : o.Resembles o' := by
  have hreturn : o.returnType = o'.returnType := congrArg Signature.Face.returnType hface
  refine ⟨congrArg Signature.Face.arguments hface, ?_⟩
  cases hr : o.returnType with
  | none => rw [h.locals_none hr, h'.locals_none (hreturn ▸ hr)]
  | some type =>
    obtain ⟨v, hv, -, htype, hscope, -⟩ := h.locals_some type hr
    obtain ⟨v', hv', -, htype', hscope', -⟩ := h'.locals_some type (hreturn ▸ hr)
    rw [hv, hv', OrderedMap.map_insert, OrderedMap.map_insert, htype, htype', hscope, hscope']
    rfl

/-! ## Bodies of one declaration -/

/-- The same declaration, but for its qualifier, stands for operations of one face. -/
structure PendingOperation.Twins (t t' : SymbolTable) (p p' : PendingOperation) : Prop where
  declaration : p.declaration.unqualified = p'.declaration.unqualified
  operation : ∃ o o', t.operation? p.id = some o ∧ t'.operation? p'.id = some o' ∧ o.face = o'.face

namespace SymbolTable.Entered

variable {entries entries' : List LedgerEntry} {items items' : List Placed}
  (h : t.Entered V base entries items) (h' : t'.Entered V base' entries' items')
  (hkeyed : ∀ key, keyed V key (items'.map (Placed.owned base')) =
    keyed V key (items.map (Placed.owned base)))

include h h' hkeyed

theorem face?_eq (key : Signature.Key) : t.face? key = t'.face? key := by
  rw [h.signed.tallies.face?_eq, h'.signed.tallies.face?_eq, hkeyed]

theorem alike : t.Alike V t' :=
  ⟨h.signed.shows, h'.signed.shows,
    h.signed.tallies.distinct.sameKeys h'.signed.tallies.distinct (h.face?_eq h' hkeyed)⟩

omit h' hkeyed in
theorem declared {p : PendingOperation} (hp : p ∈ Run.recordOperations entries) :
    ∃ item ∈ items, p.declaration = item.1 := by
  obtain ⟨last, hlast, hdeclaration⟩ := (Run.mem_recordOperations h.explained.sequential).mp hp
  obtain ⟨e, he, rfl⟩ := List.mem_map.mp (List.mem_of_getLast? hlast)
  exact ⟨e.2, h.items_eq ▸ List.mem_map_of_mem (List.mem_filter.mp he).1, hdeclaration⟩

/-- What is to be looked at in one table is to be looked at in the other. -/
theorem exists_twin {p' : PendingOperation} (hp' : p' ∈ Run.recordOperations entries') :
    ∃ p ∈ Run.recordOperations entries, p.Twins t t' p' := by
  obtain ⟨last', hlast', hdeclaration'⟩ :=
    (Run.mem_recordOperations h'.explained.sequential).mp hp'
  obtain ⟨o', ho'⟩ : ∃ o', t'.operation? p'.id = some o' := by
    obtain ⟨e, he, -⟩ := List.mem_map.mp (List.mem_of_getLast? hlast')
    obtain ⟨hmem, hid⟩ := List.mem_filter.mp he
    exact of_decide_eq_true hid ▸ h'.explained.known e hmem
  -- the operation of this key in the other table
  have hface := h'.signed.tallies.distinct.face?_operation ho'
  rw [← h.face?_eq h' hkeyed, h.signed.tallies.distinct.face?_iff] at hface
  obtain ⟨o, hmem, hkey, hface⟩ := hface
  have ho : t.operation? o.id = some o := h.explained.wellFormed.operation?_id hmem
  -- both have the declarations of the key, so both have the same last one
  have hdeclarations : (declarationsOf entries o.id).map (Placed.owned base) =
      (declarationsOf entries' p'.id).map (Placed.owned base') := by
    rw [h.declarationsOf_owned ho, h'.declarationsOf_owned ho', hkeyed, hkey]
  have hlast := congrArg List.getLast? hdeclarations
  rw [List.getLast?_map, List.getLast?_map, hlast', Option.map_some, Option.map_eq_some_iff] at hlast
  obtain ⟨last, hlast, howned⟩ := hlast
  refine ⟨⟨o.id, last.1⟩, ?_, ?_, o, o', ho, ho', hface⟩
  · exact (Run.mem_recordOperations h.explained.sequential).mpr ⟨last, hlast, rfl⟩
  · rw [hdeclaration']
    exact congrArg Prod.fst howned

end SymbolTable.Entered

theorem PendingOperation.Twins.carries_elaborate {p p' : PendingOperation}
    (h : PendingOperation.Twins t t' p p') (hu : t.Operations Operation.Unelaborated)
    (hu' : t'.Operations Operation.Unelaborated) {s s' : SymbolTable} (hs : s.Shows V)
    (hs' : s'.Shows V) (hsame : s.operation? p.id = t.operation? p.id)
    (hsame' : s'.operation? p'.id = t'.operation? p'.id)
    (hfree : ∀ e ∈ p'.declaration.bodyTypeExprs, BracketFree e.innermost.name) :
    Carries s s' (fun _ _ _ _ => True) (p.declaration.elaborate p.id)
      (p'.declaration.elaborate p'.id) := by
  obtain ⟨hdeclaration, o, o', ho, ho', hface⟩ := h
  obtain ⟨ρ, hρ, hoperation⟩ := hs'.exists_renumbering s fun _ => p'.id
  have hnumber : p'.id = ρ.operation p.id := by rw [hoperation]
  have hcarries := FunctionDecl.carries_elaborate hs hs' ρ.keeps_resembles hρ (hsame.trans ho)
    (hnumber ▸ hsame'.trans ho') ((hu _ o ho).resembles (hu' _ o' ho') hface)
    (congrArg Signature.Face.owner hface) (congrArg Signature.Face.target hface)
    p'.declaration.unqualified hfree
  rw [← hnumber] at hcarries
  show Carries s s' _ (p.declaration.unqualified.elaborate p.id) _
  rw [hdeclaration]
  exact hcarries.mono fun _ _ _ _ _ => trivial

/-! ## Runs -/

namespace Run

variable {l l' : SyntaxTree.Library} {options : Options}

theorem RunsCleanly.entered (h : RunsCleanly options l) :
    (withSignatures options l).2.table.Entered (interface l) (withAutomata l).2.table
      (ledger options l) (placed l) where
  signed := h.signed
  explained := withSignatures_explained options l
  items_eq := clean_mapM_enter h.signatures
  known := fun _ hitem _ hid => placed_named hitem hid

theorem completeAutomaton_within {a : PendingAutomaton}
    (ha : ∀ p ∈ a.initializers, p.scope.OutsideOperations) (t : SymbolTable) :
    (completeAutomaton a).Within Elaborates t := by
  refine within_bind (within_mapM (fun p hp u => ?_) t) fun _ u _ => ?_
  · exact elaborateInitializer_within rfl rfl (ha p hp) u
  · refine within_bind (within_mapM (fun d _ v => ?_) u) fun _ _ _ => within_pure _
    exact (d.elaborate_within a.id v).mono fun _ _ => Connects.elaborates

theorem withInitials_elaborates (options : Options) (library : SyntaxTree.Library) :
    Relation.ReflTransGen Elaborates (withSignatures options library).2.table
      (withInitials options library).table := by
  refine within_performAll (fun p hp t => ?_) _
  obtain ⟨⟨hh, -⟩, -⟩ := withGlobals_belongs library p hp
  exact elaborateInitializer_within rfl rfl hh t

/-- The bodies before one leave its operation as it was registered. -/
theorem ids_of_split {library : SyntaxTree.Library} {done rest : List PendingOperation}
    {p : PendingOperation} (hitems : (withSignatures options library).1 = done ++ p :: rest) :
    ∀ q ∈ done, q.id ≠ p.id := fun _ hq heq =>
  not_mem_of_nodup_split (withSignatures_nodup options library) hitems
    (heq ▸ List.mem_map_of_mem hq)

theorem fills_concat {library : SyntaxTree.Library} {done rest : List PendingOperation}
    {p : PendingOperation} (hitems : (withSignatures options library).1 = done ++ p :: rest)
    (ht : Relation.ReflTransGen (Fills (valuesLeft library) done)
      (withSignatures options library).2.table t) {a : Unit}
    (hp : (p.declaration.elaborate p.id).Clean t a u) :
    Relation.ReflTransGen (Fills (valuesLeft library) (done ++ [p]))
      (withSignatures options library).2.table u := by
  have hfirst : t.Untouched p.id := by
    have hstart : (withSignatures options library).2.table.Untouched p.id := fun o ho =>
      (withSignatures_unelaborated options library p.id o ho).statements
    exact hstart.fills ht (ids_of_split hitems)
  have hmem : p ∈ done ++ [p] := List.mem_append_right done (List.mem_singleton_self p)
  refine Relation.ReflTransGen.trans ?_ (hp.yields.reaches (p.elaborate_fills hmem hfirst))
  exact Relation.ReflTransGen.mono
    (fun _ _ h => h.mono (fun _ hv => hv) fun q hq => List.mem_append_left _ hq) _ _ ht

/-- Looking at an automaton does not depend on its operations. -/
theorem completeAutomaton_withoutFunctions (d : AutomatonDecl) (id : AutomatonId) :
    completeAutomaton (d.withoutFunctions.pending id) = completeAutomaton (d.pending id) := rfl

section Phases

variable (h : RunsCleanly options l) (hl : Counterparts l l') (hfree : l.BracketFree)

include h hl hfree

theorem RunsCleanly.counterparts_entered :
    (withSignatures options l').2.Faultless ∧
      (withSignatures options l').2.table.Entered (interface l) (withAutomata l').2.table
        (ledger options l') (placed l') := by
  obtain ⟨entries, u, hclean, hsigned⟩ := h.counterparts_signatures hl hfree
  obtain ⟨rfl, hfaultless, rfl⟩ := withSignatures_of_clean hl.right.faultless hclean
  exact ⟨hfaultless, hsigned, withSignatures_explained options l', clean_mapM_enter hclean,
    fun _ hitem _ hid => placed_named hitem hid⟩

theorem RunsCleanly.counterparts_alike :
    (withSignatures options l).2.table.Alike (interface l) (withSignatures options l').2.table :=
  h.entered.alike (h.counterparts_entered hl hfree).2 hl.keyed_placed

theorem RunsCleanly.counterparts_initials : (withInitials options l').Faultless := by
  have halike := h.counterparts_alike hl hfree
  have hwithin : ∀ l : SyntaxTree.Library, ∀ p ∈ l.globals.filterMap (VariableDecl.pending .global),
      ∀ t, (p.elaborate .global).Within Elaborates t := by
    intro l p hp t
    obtain ⟨d, -, e, -, rfl⟩ := VariableDecl.mem_pending.mp hp
    exact elaborateInitializer_within (p := ⟨_, .global, _⟩) rfl rfl trivial t
  obtain ⟨_, hinitials⟩ := h.initials
  rw [h.pendingGlobals] at hinitials
  have hclean : ∃ results u, ((l'.globals.filterMap (VariableDecl.pending .global)).mapM
      (PendingInitializer.elaborate .global)).Clean (withSignatures options l').2.table results u := by
    refine exists_clean_mapM_within hinitials (hwithin l) (hwithin l') fun p hp => ?_
    obtain ⟨d, hd, e, he, rfl⟩ := VariableDecl.mem_pending.mp hp
    refine ⟨_, VariableDecl.mem_pending.mpr ⟨d, hl.globals d hd, e, he, rfl⟩, ?_⟩
    intro s s' hs hs'
    have hst := halike.elaborates hs hs'
    obtain ⟨ρ, hρ, -⟩ := hst.right.exists_renumbering s fun i => i
    have htwins : PendingInitializer.Twins ⟨d.name.name, .global, e⟩ ⟨d.name.name, .global, e⟩ :=
      ⟨rfl, trivial, trivial⟩
    have hglobal : Scope.global.Matches ρ s s' .global := ⟨.none, .none, .none, rfl, hρ, rfl⟩
    exact (htwins.carries_elaborate hst hglobal ⟨rfl, rfl⟩ ⟨rfl, rfl⟩).mono
      fun _ _ _ _ _ => trivial
  obtain ⟨_, _, hclean⟩ := hclean
  rw [← hl.right.pendingGlobals] at hclean
  exact (withInitials_of_clean (h.counterparts_entered hl hfree).1 hclean).1

theorem RunsCleanly.counterparts_shifts : (withShifts options l').Faultless := by
  have halike := (h.counterparts_alike hl hfree).elaborates (withInitials_elaborates options l)
    (withInitials_elaborates options l')
  have hwithin : ∀ l : SyntaxTree.Library, ∀ a ∈ l.pendingAutomata, ∀ t,
      (completeAutomaton a).Within Elaborates t :=
    fun l a ha => completeAutomaton_within (l.pendingAutomata_outside a ha)
  have hgrows : ∀ {t base : SymbolTable} {entries items}, t.Entered (interface l) base entries items →
      ∀ {u v : SymbolTable}, Relation.ReflTransGen Elaborates t u →
        Relation.ReflTransGen Elaborates u v → base.GrowsTo v := fun ht _ _ hu hv =>
    ht.signed.grows.trans (.of_reflTransGen (hu.trans hv) fun _ _ => Elaborates.growsTo)
  obtain ⟨_, hshifts⟩ := h.shifts
  rw [h.registers.2] at hshifts
  have hclean : ∃ results u, (l'.pendingAutomata.mapM completeAutomaton).Clean
      (withInitials options l').table results u := by
    refine exists_clean_mapM_within hshifts (hwithin l) (hwithin l') fun a ha => ?_
    obtain ⟨i', hi', rfl⟩ := List.mem_mapIdx.mp ha
    obtain ⟨i, d, hi, hd, hsame⟩ := hl.automata i' _ (List.getElem?_eq_getElem hi')
    refine ⟨d.pending ⟨i⟩, Library.mem_pendingAutomata hi, fun s s' hs hs' => ?_⟩
    have hsame := hsame.grows (hgrows h.entered (withInitials_elaborates options l) hs)
      (hgrows (h.counterparts_entered hl hfree).2 (withInitials_elaborates options l') hs')
      (halike.elaborates hs hs').left (halike.elaborates hs hs').right
    rw [← completeAutomaton_withoutFunctions d, ← completeAutomaton_withoutFunctions _ ⟨i'⟩, ← hd]
    exact carries_completeAutomaton (halike.elaborates hs hs') hsame d.withoutFunctions
      (hfree.shifts (d := d) (List.mem_of_getElem? hi))
  obtain ⟨_, _, hclean⟩ := hclean
  rw [← hl.right.registers.2] at hclean
  exact (withShifts_of_clean (h.counterparts_initials hl hfree) hclean).1

/-- The counterpart of a library without errors has none. -/
theorem RunsCleanly.counterparts_faultless : (analyze options l').Faultless := by
  have halike := h.counterparts_alike hl hfree
  obtain ⟨-, hentered'⟩ := h.counterparts_entered hl hfree
  obtain ⟨_, hbodies⟩ := h.bodies
  have hclean : ∃ results u, ((withSignatures options l').1.mapM fun o : PendingOperation =>
      o.declaration.elaborate o.id).Clean (withShifts options l').table results u ∧
        Relation.ReflTransGen (Fills (valuesLeft l') (withSignatures options l').1)
          (withSignatures options l').2.table u := by
    refine exists_clean_mapM_of_counterparts
      (P := fun done s => Relation.ReflTransGen (Fills (valuesLeft l) done)
        (withSignatures options l).2.table s)
      (I := fun done _ s' => Relation.ReflTransGen (Fills (valuesLeft l') done)
        (withSignatures options l').2.table s')
      hbodies (withShifts_fills options l)
      (fun done p rest s a v hitems hs hp => fills_concat hitems hs hp) (withShifts_fills options l') ?_
    intro done' p' rest' _ s' hitems' hs'
    have hp' : p' ∈ recordOperations (ledger options l') := by
      rw [← withSignatures_recorded, hitems']
      exact List.mem_append_right _ List.mem_cons_self
    obtain ⟨p, hp, htwins⟩ := h.entered.exists_twin hentered' hl.keyed_placed hp'
    refine ⟨p, withSignatures_recorded options l ▸ hp, fun done rest s a v hitems hs hv => ?_⟩
    have hexprs : p'.declaration.bodyTypeExprs = p.declaration.bodyTypeExprs := by
      show p'.declaration.unqualified.bodyTypeExprs = p.declaration.unqualified.bodyTypeExprs
      rw [htwins.declaration]
    have hmentioned : ∀ e ∈ p'.declaration.bodyTypeExprs, BracketFree e.innermost.name := by
      obtain ⟨item, hitem, hdeclaration⟩ := h.entered.declared hp
      rw [hexprs, hdeclaration]
      exact hfree.body (h.placed_eq ▸ hitem)
    have hcarries := htwins.carries_elaborate (withSignatures_unelaborated options l)
      (withSignatures_unelaborated options l') (halike.left.elaborates (elaborates_of_fills hs))
      (halike.right.elaborates (elaborates_of_fills hs'))
      (operation?_of_fills hs (ids_of_split hitems)) (operation?_of_fills hs' (ids_of_split hitems'))
      hmentioned
    obtain ⟨b, v', hv', -⟩ := hcarries a v hv
    exact ⟨b, v', hv', fills_concat hitems' hs' hv'⟩
  obtain ⟨_, _, hclean, -⟩ := hclean
  exact analyze_of_clean (h.counterparts_shifts hl hfree) hclean

end Phases

end Run

end LibraryContract
