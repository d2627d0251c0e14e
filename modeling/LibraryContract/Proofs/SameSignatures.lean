import LibraryContract.Proofs.SameHeads
import LibraryContract.Proofs.SameKeys
import LibraryContract.Proofs.Tally

/-!
# The same operations in another order

The operations of an automaton are registered in the order of their declarations, but automata may
come in another order, and a declaration may stand inside of its automaton or outside of all with the
automaton as its qualifier. A declaration is accepted by what its key has come to before. Where the
declarations of one key keep their order, the same declarations are accepted and the operations have
the same faces.

* `Run.Counterparts`: two libraries with the same work for the phases after the automata;
* `Placed.Twins.carries_register`: one declaration in two tables;
* `RunsCleanly.counterparts_signatures`: all declarations.
-/

namespace LibraryContract

open SyntaxTree Build

variable {V : Interface} {t u t' u' base base' : SymbolTable}

/-- The automaton `id` owns the declared operation, whatever the options are. -/
inductive Placed.SettledBy (t : SymbolTable) (id : AutomatonId) : Placed → Prop
  | nested {d : FunctionDecl} (hd : d.automaton = none) : SettledBy t id (d, some id)
  | qualified {d : FunctionDecl} {qualifier : Identifier} (hd : d.automaton = some qualifier)
      (hid : t.automatonId? qualifier.name = some id) : SettledBy t id (d, none)

theorem Placed.SettledBy.mono {id : AutomatonId} {item : Placed} (h : item.SettledBy t id)
    (hu : t.GrowsTo u) : item.SettledBy u id := by
  cases h with
  | nested hd => exact .nested hd
  | qualified hd hid => exact .qualified hd (hu.automatonId? hid)

theorem SyntaxTree.Identifier.passes_resolveAutomaton {name : Identifier} {id : AutomatonId} :
    name.resolveAutomaton.Passes t id ↔ t.automatonId? name.name = some id := by
  unfold Identifier.resolveAutomaton
  simp only [Check.passes_bind, Check.passes_look, exists_eq_left']
  cases t.automatonId? name.name <;> simp

theorem Placed.SettledBy.passes {id : AutomatonId} {item : Placed} (h : item.SettledBy t id)
    (options : Options) : (item.1.resolveOwner options item.2).Passes t id := by
  unfold FunctionDecl.resolveOwner
  cases h with
  | nested hd =>
    rw [hd]
    exact Check.passes_pure.mpr rfl
  | qualified hd hid =>
    rw [hd]
    exact Identifier.passes_resolveAutomaton.mpr hid

/-- Two declarations of one operation, in automata of one name or outside of all: they differ in their
qualifiers at most, and qualifiers that matter lead to automata of one name. -/
inductive Placed.Twins (t t' : SymbolTable) : Placed → Placed → Prop
  | inside {d : FunctionDecl} {id id' : AutomatonId} (h : SameAutomaton t t' id id') :
      Twins t t' (d, some id) (d, some id')
  | outside {d d' : FunctionDecl} (hd : d.unqualified = d'.unqualified)
      (hname : d.automaton.map Identifier.name = d'.automaton.map Identifier.name) :
      Twins t t' (d, none) (d', none)
  | moved {item item' : Placed} {id id' : AutomatonId}
      (hd : item.1.unqualified = item'.1.unqualified) (hid : item.SettledBy t id)
      (hid' : item'.SettledBy t' id') (h : SameAutomaton t t' id id') : Twins t t' item item'

theorem Placed.Twins.unqualified {item item' : Placed} (h : item.Twins t t' item') :
    item.1.unqualified = item'.1.unqualified := by
  cases h with
  | inside _ => rfl
  | outside hd _ => exact hd
  | moved hd _ _ _ => exact hd

theorem Placed.Twins.grows {item item' : Placed} (h : item.Twins t t' item') (hu : t.GrowsTo u)
    (hu' : t'.GrowsTo u') (hs : u.Shows V) (hs' : u'.Shows V) : item.Twins u u' item' := by
  cases h with
  | inside h => exact .inside (h.grows hu hu' hs hs')
  | outside hd hname => exact .outside hd hname
  | moved hd hid hid' h => exact .moved hd (hid.mono hu) (hid'.mono hu') (h.grows hu hu' hs hs')

theorem Placed.Twins.carries_resolveOwner {item item' : Placed} (htwins : item.Twins t t' item')
    (h : t.Shows V) (h' : t'.Shows V) (options : Options) :
    Check.Carries t t' (SameAutomaton t t') (item.1.resolveOwner options item.2)
      (item'.1.resolveOwner options item'.2) := by
  cases htwins with
  | inside hsame => exact FunctionDecl.carries_resolveOwner h h' options _ (.some hsame)
  | @outside d d' _ hname =>
    intro id hpasses
    unfold FunctionDecl.resolveOwner at hpasses ⊢
    cases hd : d.automaton with
    | none =>
      rw [hd] at hpasses
      exact (Check.passes_fail.mp hpasses).elim
    | some qualifier =>
      rw [hd] at hpasses hname
      obtain ⟨qualifier', hd', hname⟩ := Option.map_eq_some_iff.mp hname.symm
      obtain ⟨id', hid', hsame⟩ :=
        h.sameAutomaton h' (Identifier.passes_resolveAutomaton.mp hpasses)
      rw [hd']
      exact ⟨id', Identifier.passes_resolveAutomaton.mpr (hname ▸ hid'), hsame⟩
  | moved _ hid hid' hsame =>
    intro id hpasses
    obtain rfl := hpasses.yields.unique (hid.passes options).yields
    exact ⟨_, hid'.passes options, hsame⟩

theorem SyntaxTree.FunctionDecl.clean_declareResult (id : OperationId) (span : Span)
    (t : SymbolTable) : (FunctionDecl.declareResult id span).Clean t () (t.withResult id span) := by
  rw [Clean, Yields, FunctionDecl.run_declareResult]
  exact ⟨⟨rfl, rfl⟩, rfl⟩

/-- The declaration without its operations. -/
def SyntaxTree.AutomatonDecl.withoutFunctions (d : AutomatonDecl) : AutomatonDecl :=
  { d with functions := [] }

/-- The new declaration completes what its key has come to. -/
def Owned.Follows (V : Interface) (item : Owned) (items : List Owned) : Prop :=
  ∀ declared ∈ Signature.Face.merge ((keyed V (item.face V).key items).map (Owned.face V)),
    (item.face V).Completes declared

theorem Placed.Twins.carries_register {items : List Placed} {item item' : Placed}
    (htwins : Placed.Twins t t' item item') (h : t.Shows V) (h' : t'.Signed V base items)
    (hitem : item'.Known base) (hfree : ∀ e ∈ item'.1.typeExprs, BracketFree e.innermost.name)
    (hfollows : (item'.owned base).Follows V (items.map (Placed.owned base)))
    (options : Options) :
    Carries t t' (fun _ _ _ _ => True) (item.1.register options item.2)
      (item'.1.register options item'.2) := by
  have howner := (htwins.carries_resolveOwner h h'.shows options).and_right
    fun owner howner => howner
  refine carries_liftM_bind howner ?_
  rintro owner owner' ⟨howner, howner'⟩
  -- signatures do not depend on qualifiers
  have hsignature : item.1.signature owner = item'.1.signature owner := by
    show item.1.unqualified.signature owner = item'.1.unqualified.signature owner
    rw [htwins.unqualified]
  have hspan : item.1.span = item'.1.span := by
    show item.1.unqualified.span = item'.1.unqualified.span
    rw [htwins.unqualified]
  rw [hsignature, hspan]
  obtain ⟨ρ, hρ, -⟩ := h'.shows.exists_renumbering t fun i => i
  refine carries_bind (item'.1.carries_signature h h'.shows hρ howner hfree).yields ?_
  rintro s v s' v' ⟨⟨-, hv⟩, -, hs'⟩
  have hface := Placed.signature_face h'.shows h'.grows hitem howner' hs'
  have hshows := h'.shows.interns hv.right
  have htallies := h'.tallies.interns hv.right
  obtain ⟨id, hid⟩ : ∃ id, v'.automatonId? s'.owner = some id := by
    obtain ⟨-, a', -, ha', -, -⟩ := howner
    refine ⟨owner', (hshows.wellFormed.automatonId?_iff _ _).mpr ⟨a', ?_, ?_⟩⟩
    · obtain ⟨types, rfl⟩ := Interns.types_only hv.right
      exact ha'
    · rw [(FunctionDecl.signature_describes h'.shows.wellFormed hs').2, ha']
      rfl
  have haccepted : ∀ declared ∈ v'.face? s'.key, s'.face.Completes declared := by
    rw [htallies.face?_eq, ← Signature.key_face, hface]
    exact hfollows
  obtain ⟨r', w', hw'⟩ :=
    hshows.wellFormed.registerOperation_total htallies.distinct hid haccepted
  refine carries_bind (P := fun _ _ _ _ => True)
    (fun _ _ _ => ⟨r', w', clean_register.mpr hw', trivial⟩) fun _ _ r' w' _ _ _ _ => ?_
  exact ⟨r', _, clean_bind.mpr ⟨(), _, FunctionDecl.clean_declareResult _ _ _,
    clean_pure.mpr ⟨rfl, rfl⟩⟩, trivial⟩

/-! ## All declarations -/

/-- A declaration follows those of its key that come before it. -/
theorem Owned.follows_of_successive {items before after : List Owned} {item : Owned}
    (h : ∀ key, Signature.Face.Successive ((keyed V key items).map (Owned.face V)))
    (hitems : items = before ++ item :: after) : item.Follows V before := by
  refine h (item.face V).key _ (item.face V)
    ((keyed V (item.face V).key after).map (Owned.face V)) ?_
  simp only [hitems, keyed, List.filter_append, List.filter_cons, decide_true, if_true,
    List.map_append, List.map_cons]

namespace Run

variable {l l' : SyntaxTree.Library} {options : Options}

theorem DeclaresCleanly.signed_nil (h : DeclaresCleanly l) :
    (withAutomata l).2.table.Signed (interface l) (withAutomata l).2.table [] :=
  ⟨h.shows, .refl _, .empty (withAutomata_operations l)⟩

theorem signed_enter {item : Placed} {items : List Placed} (h : t.Signed V base items)
    (hitem : item.Known base) {e : LedgerEntry} (he : (enter options item).Clean t e u) :
    u.Signed V base (items ++ [item]) := by
  obtain ⟨r, v, hr, hpure⟩ := clean_bind.mp he
  obtain ⟨-, rfl⟩ := clean_pure.mp hpure
  exact h.register hitem hr.yields

theorem RunsCleanly.signed (h : RunsCleanly options l) :
    (withSignatures options l).2.table.Signed (interface l) (withAutomata l).2.table (placed l) :=
  clean_mapM_invariant (I := fun items _ t => t.Signed (interface l) (withAutomata l).2.table items)
    (fun _ hitem _ _ _ _ _ ht he => signed_enter ht (fun _ hid => placed_named hitem hid) he)
    h.signatures h.signed_nil

theorem DeclaresCleanly.owned (h : DeclaresCleanly l) :
    (placed l).map (Placed.owned (withAutomata l).2.table) = l.owned := by
  rw [h.placed_eq]
  exact Library.placed_owned h.registers.1.automaton_names.symm

/-! ## Two libraries -/

/-- Two libraries that declare their names cleanly and leave the same work to the later phases: what
one of them mentions stands for the same in the other. -/
structure Counterparts (l l' : SyntaxTree.Library) : Prop where
  left : DeclaresCleanly l
  right : DeclaresCleanly l'
  interface_eq : interface l = interface l'
  globals : ∀ d ∈ l'.globals, d ∈ l.globals
  automata : ∀ i' d', l'.automata[i']? = some d' → ∃ i d, l.automata[i]? = some d ∧
    d.withoutFunctions = d'.withoutFunctions ∧
      SameAutomaton (withAutomata l).2.table (withAutomata l').2.table ⟨i⟩ ⟨i'⟩
  exists_twin : ∀ item' ∈ placed l', ∃ item ∈ placed l,
    item.Twins (withAutomata l).2.table (withAutomata l').2.table item'
  /-- The declarations of one key come in one order. -/
  keyed : ∀ key, keyed (interface l) key l'.owned = keyed (interface l) key l.owned

theorem Counterparts.keyed_placed (hl : Counterparts l l') (key : Signature.Key) :
    LibraryContract.keyed (interface l) key
        ((placed l').map (Placed.owned (withAutomata l').2.table)) =
      LibraryContract.keyed (interface l) key
        ((placed l).map (Placed.owned (withAutomata l).2.table)) := by
  rw [hl.left.owned, hl.right.owned, hl.keyed]

/-- One declaration gives automata that stand for each other. -/
theorem DeclaresCleanly.sameAutomaton (h : DeclaresCleanly l) (h' : DeclaresCleanly l')
    (hinterface : interface l = interface l') {i i' : Nat} {d d' : AutomatonDecl}
    (hi : l.automata[i]? = some d) (hi' : l'.automata[i']? = some d')
    (hname : d.name.name = d'.name.name) :
    SameAutomaton (withAutomata l).2.table (withAutomata l').2.table ⟨i⟩ ⟨i'⟩ := by
  obtain ⟨a, ha, hregisters⟩ := forall₂_getElem? h.registers.1.automata.flip hi
  obtain ⟨a', ha', hregisters'⟩ := forall₂_getElem? h'.registers.1.automata.flip hi'
  have hshows := h'.shows
  rw [← hinterface] at hshows
  exact h.shows.sameAutomaton_of_name hshows ha ha'
    (hregisters.name.trans (hname.trans hregisters'.name.symm))

/-- Libraries that differ in the order of their declarations are counterparts, as long as the
operations outside of automata keep theirs. -/
theorem DeclaresCleanly.counterparts (h : DeclaresCleanly l) (h' : DeclaresCleanly l')
    (hl : l.Reorders l') : Counterparts l l' := by
  have hinterface := h.interface_eq h' hl
  have hautomata : ∀ i' d', l'.automata[i']? = some d' → ∃ i, l.automata[i]? = some d' :=
    fun i' d' hi' => List.mem_iff_getElem?.mp (hl.automata.mem_iff.mpr (List.mem_of_getElem? hi'))
  refine ⟨h, h', hinterface, fun d hd => hl.globals.mem_iff.mpr hd, fun i' d hi' => ?_,
    fun item' hitem' => ?_, fun key => ?_⟩
  · obtain ⟨i, hi⟩ := hautomata i' d hi'
    exact ⟨i, d, hi, rfl, h.sameAutomaton h' hinterface hi hi' rfl⟩
  · rw [h'.placed_eq, Library.mem_placed] at hitem'
    rw [h.placed_eq]
    rcases hitem' with ⟨i', d, hi', f, hf, rfl⟩ | ⟨f, hf, rfl⟩
    · obtain ⟨i, hi⟩ := hautomata i' d hi'
      exact ⟨(f, some ⟨i⟩), Library.mem_placed.mpr (.inl ⟨i, d, hi, f, hf, rfl⟩),
        .inside (h.sameAutomaton h' hinterface hi hi' rfl)⟩
    · exact ⟨(f, none), Library.mem_placed.mpr (.inr ⟨f, hl.functions ▸ hf, rfl⟩), .outside rfl rfl⟩
  · rw [Library.keyed_reorders hl h.namesDistinct.automata]

/-- The same declarations are accepted. -/
theorem RunsCleanly.counterparts_signatures (h : RunsCleanly options l) (hl : Counterparts l l')
    (hfree : l.BracketFree) :
    ∃ entries u, ((placed l').mapM (enter options)).Clean (withAutomata l').2.table entries u ∧
      u.Signed (interface l) (withAutomata l').2.table (placed l') := by
  refine exists_clean_mapM_of_counterparts
    (P := fun items s => s.Signed (interface l) (withAutomata l).2.table items)
    (I := fun items _ u => u.Signed (interface l) (withAutomata l').2.table items) h.signatures
    h.signed_nil ?_ (hl.interface_eq ▸ hl.right.signed_nil) ?_
  · intro done item rest t e u hitems ht he
    have hitem : item ∈ placed l := hitems ▸ List.mem_append_right done List.mem_cons_self
    exact signed_enter ht (fun _ hid => placed_named hitem hid) he
  · intro done item' rest entries t' hitems ht'
    have hitem' : item' ∈ placed l' := hitems ▸ List.mem_append_right done List.mem_cons_self
    have hknown : item'.Known (withAutomata l').2.table := fun _ hid => placed_named hitem' hid
    obtain ⟨item, hitem, htwins⟩ := hl.exists_twin item' hitem'
    refine ⟨item, hitem, ?_⟩
    intro before after s e v _ hs he
    obtain ⟨r, w, hr, -⟩ := clean_bind.mp he
    have howned : (placed l').map (Placed.owned (withAutomata l').2.table) =
        done.map (Placed.owned (withAutomata l').2.table) ++
          item'.owned (withAutomata l').2.table ::
            rest.map (Placed.owned (withAutomata l').2.table) := by
      rw [hitems, List.map_append, List.map_cons]
    have hfollows : (item'.owned (withAutomata l').2.table).Follows (interface l)
        (done.map (Placed.owned (withAutomata l').2.table)) := by
      refine Owned.follows_of_successive (fun key => ?_) howned
      rw [hl.keyed_placed]
      exact h.signed.tallies.successive key
    have hexprs : item.1.typeExprs = item'.1.typeExprs := by
      show item.1.unqualified.typeExprs = item'.1.unqualified.typeExprs
      rw [htwins.unqualified]
    have hcarries := (htwins.grows hs.grows ht'.grows hs.shows ht'.shows).carries_register hs.shows ht'
      hknown (hexprs ▸ hfree.signature (h.placed_eq ▸ hitem)) hfollows options
    obtain ⟨r', u', hr', -⟩ := hcarries r w hr
    have hentered : (enter options item').Clean t' (r', item') u' :=
      clean_bind.mpr ⟨r', u', hr', clean_pure.mpr ⟨rfl, rfl⟩⟩
    exact ⟨(r', item'), u', hentered, signed_enter ht' hknown hentered⟩

end Run

end LibraryContract
