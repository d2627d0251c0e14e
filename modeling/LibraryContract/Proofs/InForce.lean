import LibraryContract.Proofs.Filling
import LibraryContract.Proofs.ForwardReference

/-!
# The declarations in force

The registration of operations leaves a list of bodies that are still to be looked at. A declaration
that creates an operation adds to the list, and a definition takes the place of the declaration that
it completes; what is refused leaves the list alone. So no body is looked at twice, and the names of
the arguments in it are those of the declaration that brought it.

* `Tracks.register`: what one accepted declaration does to the list;
* `tracks_entered`: at any time the list has one entry for each operation, in order;
* `signatures_in_force`: each entry holds the declaration in force.
-/

namespace LibraryContract

open SyntaxTree Build

/-! ## Statements -/

/-- The declaration of an entry is in force: it created the operation and is the only accepted one,
or it is the definition that completed the only other one. -/
inductive PendingOperation.InForce (entries : List LedgerEntry) (o : PendingOperation) : Prop
  | created {owner : Option AutomatonId}
      (only : (entries.filter fun e => decide (e.1.id = o.id)) =
        [(.new o.id, (o.declaration, owner))])
  | completed {first : Placed} {owner : Option AutomatonId}
      (both : (entries.filter fun e => decide (e.1.id = o.id)) =
        [(.new o.id, first), (.completed o.id, (o.declaration, owner))])
      (firstBody : first.1.body = none) (body : o.declaration.body.isSome = true)

/-- The registered operation has the arguments of the declaration, and a body if that has one. -/
structure PendingOperation.Shapes (t : SymbolTable) (o : PendingOperation) (p : Operation) :
    Prop where
  hasBody : p.hasBody = o.declaration.body.isSome
  arguments : List.Forall₂ (Parameter.Gives t) o.declaration.parameters p.arguments

/-- What a declaration does to the list, by the registration that comes of it. -/
inductive SyntaxTree.FunctionDecl.TakesEffect (d : FunctionDecl)
    (operations : List PendingOperation) : Option Registration → List PendingOperation → Prop
  | refused : TakesEffect d operations none operations
  | new : TakesEffect d operations (some (.new ⟨operations.length⟩))
      (operations ++ [⟨⟨operations.length⟩, d⟩])
  | completed {front back : List PendingOperation} {earlier : PendingOperation}
      (heq : operations = front ++ earlier :: back) (earlierBody : earlier.declaration.body = none)
      (body : d.body.isSome = true) :
      TakesEffect d operations (some (.completed earlier.id)) (front ++ ⟨earlier.id, d⟩ :: back)

namespace Run

/-- The bodies to be looked at when the first declarations of operations have been tried. -/
def pendingAfter (options : Options) (library : SyntaxTree.Library) (before : List Placed) :
    List PendingOperation :=
  (before.foldl (registerSignature options) ([], (withAutomata library).2)).1

/-- The accepted ones of the first declarations of operations. -/
def ledgerAfter (options : Options) (library : SyntaxTree.Library) (before : List Placed) :
    List LedgerEntry :=
  ((withAutomata library).2.collect (enter options) before).1

end Run

/-! ## Accepted declarations -/

/-- The first accepted declaration of an operation creates it. -/
theorem Sequential.new_of_filter {entries : List LedgerEntry} (h : Sequential entries)
    {id : OperationId} {e : LedgerEntry} {rest : List LedgerEntry}
    (hfilter : (entries.filter fun e => decide (e.1.id = id)) = e :: rest) : e.1 = .new id := by
  obtain ⟨before, after, rfl, hnone, he, -⟩ := List.filter_eq_cons_iff.mp hfilter
  obtain rfl := of_decide_eq_true he
  have hnil : declarationsOf before e.1.id = [] := by
    rw [declarationsOf, List.filter_eq_nil_iff.mpr hnone, List.map_nil]
  obtain ⟨i, hi⟩ := (h before e after rfl).mpr hnil
  rw [hi]
  rfl

/-- The second one completes it. -/
theorem Sequential.completed_of_filter {entries : List LedgerEntry} (h : Sequential entries)
    {id : OperationId} {first e : LedgerEntry} {rest : List LedgerEntry}
    (hfilter : (entries.filter fun e => decide (e.1.id = id)) = first :: e :: rest) :
    e.1 = .completed id := by
  obtain ⟨before, after, rfl, -, hfirst, hrest⟩ := List.filter_eq_cons_iff.mp hfilter
  obtain ⟨middle, last, rfl, -, he, -⟩ := List.filter_eq_cons_iff.mp hrest
  obtain rfl := of_decide_eq_true he
  have hmem : first.2 ∈ declarationsOf (before ++ first :: middle) e.1.id :=
    List.mem_map_of_mem (List.mem_filter.mpr ⟨by simp, hfirst⟩)
  have hnew := h (before ++ first :: middle) e last (by simp)
  rcases hr : e.1 with i | i
  · rw [hnew.mp ⟨i, hr⟩] at hmem
    cases hmem
  · rfl

/-- An entry of the list is replaced where it stands. -/
theorem Run.recordOperation_completed {front back : List PendingOperation} {o : PendingOperation}
    (hnodup : ((front ++ o :: back).map PendingOperation.id).Nodup) (d : FunctionDecl) :
    Run.recordOperation (front ++ o :: back) (.completed o.id) d = front ++ ⟨o.id, d⟩ :: back := by
  have hkeep : ∀ p ∈ front ++ back,
      (if p.id = o.id then (⟨o.id, d⟩ : PendingOperation) else p) = p := by
    intro p hp
    rw [List.map_append, List.map_cons, List.nodup_middle, List.nodup_cons,
      ← List.map_append] at hnodup
    rw [if_neg]
    exact fun hid => hnodup.1 (hid ▸ List.mem_map_of_mem hp)
  have hfront := List.map_congr_left fun p hp => hkeep p (List.mem_append_left back hp)
  have hback := List.map_congr_left fun p hp => hkeep p (List.mem_append_right front hp)
  have hany : (front ++ o :: back).any (fun p => decide (p.id = o.id)) = true :=
    List.any_eq_true.mpr ⟨o, by simp, decide_eq_true rfl⟩
  simp only [Run.recordOperation, hany, if_true]
  rw [List.map_append, List.map_cons, hfront, hback, if_pos rfl, List.map_id', List.map_id']

/-- The accepted declarations explain the table, and the list that they leave follows the
operations. -/
structure Tracks (entries : List LedgerEntry) (t : SymbolTable) : Prop where
  explained : t.Explained entries
  ids : (Run.recordOperations entries).map PendingOperation.id =
    (List.range t.operations.length).map OperationId.mk

namespace Tracks

variable {entries : List LedgerEntry} {t u : SymbolTable}

theorem length_eq (h : Tracks entries t) :
    (Run.recordOperations entries).length = t.operations.length := by
  simpa using congrArg List.length h.ids

theorem nodup (h : Tracks entries t) :
    ((Run.recordOperations entries).map PendingOperation.id).Nodup := by
  rw [h.ids]
  refine List.Nodup.map (fun i j hij => ?_) List.nodup_range
  exact congrArg OperationId.index hij

theorem operation? (h : Tracks entries t) {o : PendingOperation}
    (ho : o ∈ Run.recordOperations entries) : ∃ p, t.operation? o.id = some p := by
  have hid := List.mem_map_of_mem (f := PendingOperation.id) ho
  rw [h.ids, List.mem_map] at hid
  obtain ⟨i, hi, hio⟩ := hid
  rw [← hio]
  exact ⟨_, List.getElem?_eq_getElem (List.mem_range.mp hi)⟩

theorem exists_entry (h : Tracks entries t) {id : OperationId} {p : Operation}
    (hp : t.operation? id = some p) : ∃ o ∈ Run.recordOperations entries, o.id = id := by
  rw [← List.mem_map, h.ids]
  have hlt := (List.getElem?_eq_some_iff.mp hp).1
  exact List.mem_map.mpr ⟨id.index, List.mem_range.mpr hlt, rfl⟩

/-- Each entry of the list holds the declaration in force for its operation. -/
theorem inForce (h : Tracks entries t) {o : PendingOperation}
    (ho : o ∈ Run.recordOperations entries) :
    o.InForce entries ∧ ∃ p, t.operation? o.id = some p ∧ o.Shapes t p := by
  have hsequential := h.explained.sequential
  obtain ⟨p, hp⟩ := h.operation? ho
  obtain ⟨last, hlast, hdeclaration⟩ := (Run.mem_recordOperations hsequential).mp ho
  have hstems := h.explained.stems o.id p hp
  generalize hitems : declarationsOf entries o.id = items at hstems hlast
  cases hstems with
  | @created item key describes =>
    obtain rfl : item = last := Option.some.inj hlast
    obtain ⟨⟨r, _⟩, hfilter, rfl⟩ := List.map_eq_singleton_iff.mp hitems
    have hr : r = .new o.id := hsequential.new_of_filter hfilter
    rw [hr] at hfilter
    refine ⟨.created (by rw [hfilter, hdeclaration]), p, hp, ?_, ?_⟩
    · rw [hdeclaration]
      exact describes.hasBody
    · rw [hdeclaration]
      exact describes.arguments
  | @completed first item _ _ firstBody lastBody arguments _ hasBody =>
    obtain rfl : item = last := Option.some.inj hlast
    obtain ⟨⟨r, _⟩, entries', hfilter, rfl, hrest⟩ := List.map_eq_cons_iff.mp hitems
    obtain ⟨⟨r', _⟩, rfl, rfl⟩ := List.map_eq_singleton_iff.mp hrest
    have hr : r = .new o.id := hsequential.new_of_filter hfilter
    have hr' : r' = .completed o.id := hsequential.completed_of_filter hfilter
    rw [hr, hr'] at hfilter
    rw [← hdeclaration] at lastBody arguments
    refine ⟨.completed (by rw [hfilter, hdeclaration]) firstBody lastBody, p, hp, ?_, arguments⟩
    rw [lastBody]
    exact hasBody

theorem interns (h : Tracks entries t) (hu : Relation.ReflTransGen Interns t u) :
    Tracks entries u := by
  obtain ⟨types, heq⟩ := Interns.types_only hu
  refine ⟨h.explained.interns hu, ?_⟩
  rw [h.ids, heq]

/-- An accepted declaration takes effect in the list. -/
theorem register (h : Tracks entries t) {options : Options} {item : Placed}
    (hitem : ∀ id, item.2 = some id → ∃ a, t.automaton? id = some a) {r : Registration}
    (hr : (item.1.register options item.2).Yields t r u) :
    Tracks (entries ++ [(r, item)]) u ∧
      item.1.TakesEffect (Run.recordOperations entries) (some r)
        (Run.recordOperations (entries ++ [(r, item)])) := by
  obtain ⟨owner, s, v, w, howner, hs, hw, rfl⟩ := FunctionDecl.register_yields hr
  obtain ⟨-, hdescribes⟩ := Placed.hasKey h.explained.wellFormed hitem howner hs
  have hv : Tracks entries v := h.interns (hs.reaches (item.1.signature_within owner t))
  have hexplained := h.explained.register hitem hr
  have hrecord : Run.recordOperations (entries ++ [(r, item)]) =
      Run.recordOperation (Run.recordOperations entries) r item.1 := List.foldl_concat _ _ _ _
  have hcount : (w.withResult r.id item.1.span).operations.length = w.operations.length :=
    List.length_modify _ _ _
  obtain ⟨enclosing, -, ⟨-, rfl, rfl⟩ | ⟨id, declared, hfound, hbody, hbrings, -, rfl, rfl⟩⟩ :=
    SymbolTable.registerOperation_cases hw
  · have hone : (v.addOperation enclosing s).2.operations.length = v.operations.length + 1 :=
      List.length_append
    rw [hrecord]
    refine ⟨⟨hexplained, ?_⟩, ?_⟩
    · rw [hrecord, hcount, hone, List.range_succ, List.map_append, ← hv.ids]
      exact List.map_append
    · rw [← hv.length_eq]
      exact .new
  · have hsame : (v.modifyOperation id fun o => o.complete s).operations.length =
        v.operations.length := List.length_modify _ _ _
    have hdeclared := (SymbolTable.overload?_eq_some hfound).1
    -- the operation has an entry, which the definition replaces
    obtain ⟨o, ho, rfl⟩ := hv.exists_entry hdeclared
    obtain ⟨-, p, hp, hshapes⟩ := hv.inForce ho
    obtain rfl : p = declared := Option.some.inj (hp.symm.trans hdeclared)
    obtain ⟨front, back, hsplit⟩ := List.append_of_mem ho
    have hnodup := hv.nodup
    rw [hsplit] at hnodup
    have hreplaced := hrecord
    rw [hsplit, Run.recordOperation_completed hnodup] at hreplaced
    refine ⟨⟨hexplained, ?_⟩, ?_⟩
    · rw [hcount, hsame, ← hv.ids, hreplaced, hsplit]
      simp
    · rw [hreplaced]
      refine .completed hsplit ?_ ?_
      · rw [← Option.not_isSome_iff_eq_none, ← hshapes.hasBody, hbody]
        exact Bool.false_ne_true
      · rw [← hdescribes.hasBody, hbrings]

end Tracks

/-! ## Runs -/

namespace Run

variable {options : Options} {library : SyntaxTree.Library}

theorem pendingAfter_eq (before : List Placed) :
    pendingAfter options library before = recordOperations (ledgerAfter options library before) :=
  congrArg Prod.fst (foldl_registerSignature options before _)

/-- Whatever has been tried, the list follows the operations. -/
theorem tracks_entered {before : List Placed} (h : ∀ item ∈ before, item ∈ placed library) :
    Tracks (ledgerAfter options library before)
      (afterSignatures options library before).table := by
  rw [afterSignatures_eq]
  refine entered_invariant (I := Tracks) h ?_ ?_ ?_
  · exact fun entries t item r u h hitem hr => (h.register hitem hr).1
  · exact fun entries t u h hu => h.interns hu
  · refine ⟨withAutomata_explained library, ?_⟩
    rw [withAutomata_operations]
    rfl

theorem afterSignatures_growsTo (before : List Placed) :
    (withAutomata library).2.table.GrowsTo (afterSignatures options library before).table :=
  .of_reflTransGen (foldl_registerSignature_signs options before ([], (withAutomata library).2))
    fun _ _ => Signs.growsTo

/-- One declaration takes effect in the list, or leaves it alone. -/
theorem pendingAfter_concat {before after : List Placed} {item : Placed}
    (h : placed library = before ++ item :: after) :
    item.1.TakesEffect (pendingAfter options library before)
      ((afterSignatures options library before).settle (item.1.register options item.2)).1
      (pendingAfter options library (before ++ [item])) := by
  have htracks : Tracks (ledgerAfter options library before)
      (afterSignatures options library before).table :=
    tracks_entered fun item hitem => h ▸ List.mem_append_left _ hitem
  have hledger : ledgerAfter options library (before ++ [item]) =
      ledgerAfter options library before ++
        (((afterSignatures options library before).settle (item.1.register options item.2)).1.map
          fun registration => (registration, item)).toList := by
    rw [ledgerAfter, collect_append, collect_cons, ← afterSignatures_eq, settle_enter]
    simp [ledgerAfter, collect]
  rw [pendingAfter_eq, pendingAfter_eq, hledger]
  cases hr : ((afterSignatures options library before).settle
    (item.1.register options item.2)).1 with
  | none =>
    rw [Option.map_none, Option.toList_none, List.append_nil]
    exact .refused
  | some r =>
    rw [Option.map_some, Option.toList_some]
    have hitem : ∀ id, item.2 = some id →
        ∃ a, (afterSignatures options library before).table.automaton? id = some a := by
      intro id hid
      obtain ⟨a, ha⟩ := placed_named (h ▸ List.mem_append_right _ List.mem_cons_self) hid
      obtain ⟨b, hb, -⟩ := (afterSignatures_growsTo before).automaton? ha
      exact ⟨b, hb⟩
    exact (htracks.register hitem (settle_eq_some.mp hr)).2

/-- When all operations are registered, the list of bodies to be looked at has one entry for each
operation, in the order of their numbers, and the entry holds the declaration in force, from which
the operation has its arguments. Each declaration that was tried has either created the entry of a
new operation, or replaced that of the declaration that it completes, or left the list alone. -/
theorem signatures_in_force (options : Options) (library : SyntaxTree.Library) :
    (withSignatures options library).1.map PendingOperation.id =
        (List.range (withSignatures options library).2.table.operations.length).map OperationId.mk ∧
      (∀ o ∈ (withSignatures options library).1, o.InForce (ledger options library) ∧
        ∃ p, (withSignatures options library).2.table.operation? o.id = some p ∧
          o.Shapes (withSignatures options library).2.table p) ∧
      (∀ before item after, placed library = before ++ item :: after →
        item.1.TakesEffect (pendingAfter options library before)
          ((afterSignatures options library before).settle (item.1.register options item.2)).1
          (pendingAfter options library (before ++ [item]))) ∧
      pendingAfter options library (placed library) = (withSignatures options library).1 := by
  have htracks : Tracks (ledger options library) (withSignatures options library).2.table :=
    tracks_entered fun item h => h
  refine ⟨?_, ?_, fun before item after h => pendingAfter_concat h, rfl⟩
  · rw [withSignatures_recorded]
    exact htracks.ids
  · intro o ho
    rw [withSignatures_recorded] at ho
    exact htracks.inForce ho

end Run

end LibraryContract
