import LibraryContract.Proofs.Callee

/-!
# Libraries that house their operations elsewhere

Where an operation stands does not matter before operations are registered, so two libraries that
differ in this only have one table up to there. When no two operations are looked up alike, the order
of their declarations does not matter afterwards, and the two libraries are counterparts.

* `Run.withAutomata_rehouses`: the tables before the operations are registered;
* `RunsCleanly.counterparts_of_rehouses`: the two libraries leave the same work to the later phases;
* `RunsCleanly.rehouses_faultless`: a library without errors has none when it is rehoused.
-/

namespace LibraryContract

open SyntaxTree Build

/-- The automaton is declared as before, with its operations to come. -/
theorem SyntaxTree.AutomatonDecl.declare_withoutFunctions (d : AutomatonDecl) :
    d.withoutFunctions.declare =
      (fun a : PendingAutomaton => { a with declaration := a.declaration.withoutFunctions }) <$>
        d.declare := by
  simp only [AutomatonDecl.declare, map_bind, map_pure]
  rfl

theorem SyntaxTree.AutomatonDecl.name_eq {d d' : AutomatonDecl}
    (h : d.withoutFunctions = d'.withoutFunctions) : d.name.name = d'.name.name := by
  show d.withoutFunctions.name.name = d'.withoutFunctions.name.name
  rw [h]

namespace Run

variable {l l' : SyntaxTree.Library} {options : Options}

/-- Operations do not matter before they are registered. -/
theorem withAutomata_rehouses (hl : l.Rehouses l') : (withAutomata l).2 = (withAutomata l').2 := by
  have hglobals : (withGlobals l).2 = (withGlobals l').2 := by
    simp only [withGlobals, withAnnotations, withTypes, hl.types, hl.annotations, hl.globals]
  have hheads : ∀ l : SyntaxTree.Library,
      ((withGlobals l).2.collect AutomatonDecl.declare
        (l.automata.map AutomatonDecl.withoutFunctions)).2 = (withAutomata l).2 := by
    intro l
    rw [collect_map AutomatonDecl.declare_withoutFunctions]
    rfl
  rw [← hheads, ← hheads, hglobals, hl.automata]

theorem DeclaresCleanly.rehouses (h : DeclaresCleanly l) (hl : l.Rehouses l') :
    DeclaresCleanly l' := by
  refine clean_withAutomata ?_
  rw [← withAutomata_rehouses hl]
  exact h.faultless

theorem interface_rehouses (hl : l.Rehouses l') : interface l = interface l' :=
  congrArg (fun r : Run => r.table.interface) (withAutomata_rehouses hl)

/-- No two declarations come to one operation. -/
theorem RunsCleanly.nodup_keys (h : RunsCleanly options l) (hfree : l.BracketFree)
    (hdistinct : l.calleeKeys.Nodup) :
    (l.owned.map fun item => (item.face (interface l)).key).Nodup := by
  rw [h.calleeKeys_eq hfree] at hdistinct
  refine List.Nodup.of_map (fun key : Signature.Key => (key.2.2.1, key.2.1, key.2.2.2)) ?_
  rw [List.map_map]
  exact hdistinct

theorem DeclaresCleanly.automatonId?_eq (h : DeclaresCleanly l) {i : Nat} {d : AutomatonDecl}
    (hi : l.automata[i]? = some d) :
    (withAutomata l).2.table.automatonId? d.name.name = some ⟨i⟩ := by
  obtain ⟨a, ha, hregisters⟩ := forall₂_getElem? h.registers.1.automata.flip hi
  exact (h.shows.wellFormed.automatonId?_iff _ _).mpr ⟨a, ha, hregisters.name⟩

/-- A declaration that is settled for an automaton stands in it or is qualified with its name. -/
theorem DeclaresCleanly.exists_settledBy (h : DeclaresCleanly l) (hnested : l.NestsPlainly) {i : Nat}
    {a : AutomatonDecl} (hi : l.automata[i]? = some a) {d : FunctionDecl}
    (hd : (d, some a.name.name) ∈ l.settled) :
    ∃ item ∈ placed l, item.1.unqualified = d ∧ item.SettledBy (withAutomata l).2.table ⟨i⟩ := by
  rw [h.placed_eq]
  have hid := h.automatonId?_eq hi
  rcases Library.mem_settled.mp hd with ⟨b, hb, f, hf, heq⟩ | ⟨f, hf, heq⟩
  · obtain ⟨rfl, hname⟩ := Prod.mk.inj heq
    obtain ⟨j, hj⟩ := List.mem_iff_getElem?.mp hb
    have hsame : some (⟨j⟩ : AutomatonId) = some ⟨i⟩ := by
      rw [← h.automatonId?_eq hj, ← hid, Option.some.inj hname]
    cases hsame
    exact ⟨(f, some ⟨i⟩), Library.mem_placed.mpr (.inl ⟨i, b, hj, f, hf, rfl⟩), rfl,
      .nested (hnested b hb f hf)⟩
  · obtain ⟨rfl, hname⟩ := Prod.mk.inj heq
    obtain ⟨qualifier, hq, hname⟩ := Option.map_eq_some_iff.mp hname.symm
    exact ⟨(f, none), Library.mem_placed.mpr (.inr ⟨f, hf, rfl⟩), rfl, .qualified hq (hname ▸ hid)⟩

/-- Every declaration has its twin. -/
theorem DeclaresCleanly.rehouses_exists_twin (h : DeclaresCleanly l) (hl : l.Rehouses l') :
    ∀ item' ∈ placed l', ∃ item ∈ placed l,
      item.Twins (withAutomata l).2.table (withAutomata l').2.table item' := by
  have h' := h.rehouses hl
  -- what is settled for an automaton in one library is settled for it in the other
  have hmoved : ∀ {item' : Placed} {i' : Nat} {a' : AutomatonDecl}, l'.automata[i']? = some a' →
      (item'.1.unqualified, some a'.name.name) ∈ l'.settled →
      item'.SettledBy (withAutomata l').2.table ⟨i'⟩ →
        ∃ item ∈ placed l, item.Twins (withAutomata l).2.table (withAutomata l').2.table item' := by
    intro item' i' a' hi' hsettled hid'
    obtain ⟨a, hi, hheads⟩ := hl.getElem?_automata hi'
    have hname := AutomatonDecl.name_eq hheads
    rw [← hname] at hsettled
    obtain ⟨item, hitem, hd, hid⟩ :=
      h.exists_settledBy hl.left hi (hl.settled.mem_iff.mpr hsettled)
    exact ⟨item, hitem, .moved hd hid hid'
      (h.sameAutomaton h' (interface_rehouses hl) hi hi' hname)⟩
  intro item' hitem'
  rw [h'.placed_eq, Library.mem_placed] at hitem'
  rcases hitem' with ⟨i', a', hi', d', hd', rfl⟩ | ⟨d', hd', rfl⟩
  · have ha' := List.mem_of_getElem? hi'
    exact hmoved hi' (Library.mem_settled.mpr (.inl ⟨a', ha', d', hd', rfl⟩))
      (.nested (hl.right a' ha' d' hd'))
  · have hsettled : d'.settle ∈ l'.settled := Library.mem_settled.mpr (.inr ⟨d', hd', rfl⟩)
    rcases Library.mem_settled.mp (hl.settled.mem_iff.mpr hsettled) with
      ⟨a, ha, d, -, heq⟩ | ⟨d, hd, heq⟩
    · -- the qualifier names an automaton
      obtain ⟨a', ha', hheads⟩ := hl.symm.mem_automata ha
      have hname := AutomatonDecl.name_eq hheads
      obtain ⟨i', hi'⟩ := List.mem_iff_getElem?.mp ha'
      have howner : d'.automaton.map Identifier.name = some a'.name.name := by
        rw [hname]
        exact congrArg Prod.snd heq
      obtain ⟨qualifier, hq, hqname⟩ := Option.map_eq_some_iff.mp howner
      refine hmoved hi' ?_ (.qualified hq (hqname ▸ h'.automatonId?_eq hi'))
      rw [← howner]
      exact hsettled
    · rw [h.placed_eq]
      exact ⟨(d, none), Library.mem_placed.mpr (.inr ⟨d, hd, rfl⟩),
        .outside (congrArg Prod.fst heq).symm (congrArg Prod.snd heq).symm⟩

/-- When no two operations are looked up alike, rehoused libraries leave the same work to the later
phases. -/
theorem RunsCleanly.counterparts_of_rehouses (h : RunsCleanly options l) (hl : l.Rehouses l')
    (hfree : l.BracketFree) (hdistinct : l.calleeKeys.Nodup) : Counterparts l l' where
  left := h.toDeclaresCleanly
  right := h.rehouses hl
  interface_eq := interface_rehouses hl
  globals := fun _ hd => hl.globals ▸ hd
  automata i' d' hi' := by
    obtain ⟨d, hi, hheads⟩ := hl.getElem?_automata hi'
    exact ⟨i', d, hi, hheads, h.sameAutomaton (h.rehouses hl) (interface_rehouses hl) hi hi'
      (AutomatonDecl.name_eq hheads)⟩
  exists_twin := h.rehouses_exists_twin hl
  keyed key := (Library.filter_eq_of_perm hl.owned (h.nodup_keys hfree hdistinct) key).symm

/-- A library without errors has none when its operations are housed elsewhere. -/
theorem RunsCleanly.rehouses_faultless (h : RunsCleanly options l) (hl : l.Rehouses l')
    (hfree : l.BracketFree) (hdistinct : l.calleeKeys.Nodup) : (analyze options l').Faultless :=
  h.counterparts_faultless (h.counterparts_of_rehouses hl hfree hdistinct) hfree

end Run

end LibraryContract
