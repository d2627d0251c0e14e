import LibraryContract.Proofs.Accounting
import LibraryContract.Proofs.DeclaredTypes

/-!
# Forward references

Names are registered before anything that mentions them is looked at, so a declaration can be
mentioned before it. When an analysis reports that something is missing, the library does not
declare it, wherever one looks; or, for an operation, every declaration of it has been rejected.

* `Run.types_known`, `Run.automata_known`: from its phase on, every declared name is taken.
* `Run.first_registered`: of automata with one name it is the first that is registered.
* `Run.accepted_indexed`: an accepted operation can be found under its owner and its name.
* `Run.forward_references_resolve`: what the diagnostics of an analysis say about a library.
-/

namespace LibraryContract

open SyntaxTree Build

/-! ## Names that are taken -/

namespace SyntaxTree

/-- A declared type is registered, or its name was taken. -/
theorem TypeDecl.declare_knows (d : TypeDecl) (t : SymbolTable) :
    (d.declare.run t).2.Knows d.name.name := by
  rw [declare]
  show ((Build.bind (modify _) fun _ => registerUnit _ _).run t).2.Knows d.name.name
  rw [run_bind_of_ok (a := ()) rfl]
  generalize ((modify _).run t).2 = u
  rw [SymbolTable.knows_iff_contains, ← d.name_toDataType]
  simp only [registerUnit, Build.register, SymbolTable.registerType, TypeRegistry.insert?]
  by_cases hc : u.types.contains d.toDataType.name = true
  · simp only [hc, if_true, Except.map]
  · simp only [hc, Bool.false_eq_true, if_false, Except.map]
    simp [TypeRegistry.contains, OrderedMap.contains, OrderedMap.get?_insert_self]

/-- A type expression has no shape that a parser could not hand over. -/
theorem TypeExpr.resolve_not_malformed (e : TypeExpr) (t : SymbolTable) (m : Malformed) :
    (e.resolve.run t).1.result ≠ .error (.malformed m) := by
  induction e with
  | named name =>
    rw [TypeExpr.resolve, run_look_bind]
    split
    · intro he
      cases he
    · intro he
      cases he
  | array element ih =>
    rw [TypeExpr.resolve]
    show ((Build.bind element.resolve _).run t).1.result ≠ _
    cases h : (element.resolve.run t).1.result with
    | error e =>
      rw [run_bind_of_error h]
      exact fun he => ih (h.trans he)
    | ok inner =>
      rw [run_bind_of_ok h]
      intro he
      cases he

theorem VariableDecl.declare_not_malformed (home : VariableScope) (d : VariableDecl)
    (t : SymbolTable) (m : Malformed) :
    ((d.declare home).run t).1.result ≠ .error (.malformed m) := by
  rw [declare]
  show ((Build.bind d.type.resolve _).run t).1.result ≠ _
  cases h : (d.type.resolve.run t).1.result with
  | error e =>
    rw [run_bind_of_error h]
    intro he
    cases he
    exact d.type.resolve_not_malformed t m h
  | ok type =>
    rw [run_bind_of_ok h]
    simp only [registerUnit, Build.register]
    intro he
    split at he <;> cases he

end SyntaxTree

/-- An attempt comes to an end when there is nothing malformed. -/
theorem Build.attempt_ends {α : Type} {b : Build α} {t : SymbolTable}
    (h : ∀ m, (b.run t).1.result ≠ .error (.malformed m)) :
    ∃ o, b.attempt.Yields t o (b.run t).2 := by
  cases hr : (b.run t).1.result with
  | ok a => exact ⟨some a, yields_attempt_some.mpr ⟨hr, rfl⟩⟩
  | error e =>
    cases e with
    | reported => exact ⟨none, yields_attempt_none.mpr ⟨hr, rfl⟩⟩
    | malformed m => exact (h m hr).elim

namespace SyntaxTree.AutomatonDecl

theorem declareStates_ends (id : AutomatonId) (automaton : String) (seen : List String)
    (states : List StateDecl) (t : SymbolTable) :
    ∃ u, (declareStates id automaton seen states).Yields t () u := by
  induction states generalizing seen t with
  | nil => exact ⟨t, by rw [declareStates]; simp⟩
  | cons state rest ih =>
    rw [declareStates]
    split
    · obtain ⟨u, hu⟩ := ih (state.name.name :: seen) t
      exact ⟨u, yields_bind.mpr ⟨(), t, by simp, hu⟩⟩
    · obtain ⟨u, hu⟩ := ih (state.name.name :: seen) (t.modifyAutomaton id fun a =>
        { a with
          states := a.states.insert state.name.name
            ⟨state.name.name, state.kind, state.name.span⟩ })
      exact ⟨u, yields_bind.mpr ⟨(), _, by simp, hu⟩⟩

theorem declareVariables_ends (home : VariableScope) (ds : List VariableDecl) (t : SymbolTable) :
    ∃ pending u, (declareVariables home ds).Yields t pending u := by
  induction ds generalizing t with
  | nil => exact ⟨[], t, by rw [declareVariables]; simp⟩
  | cons d rest ih =>
    obtain ⟨declared, hdeclared⟩ := attempt_ends (d.declare_not_malformed home t)
    obtain ⟨pending, u, hu⟩ := ih ((d.declare home).run t).2
    rw [declareVariables]
    exact ⟨_, u, yields_bind.mpr ⟨_, _, hdeclared, yields_bind.mpr ⟨_, _, hu, yields_pure.mpr ⟨rfl, rfl⟩⟩⟩⟩

end SyntaxTree.AutomatonDecl

theorem Furnishes.automatonIds {t u : SymbolTable} (h : Furnishes t u) :
    u.automatonIds = t.automatonIds := by
  cases h with
  | interns hu =>
    obtain ⟨_, rfl⟩ := Interns.types_only (.single hu)
    rfl
  | annotationType _ hu =>
    obtain ⟨-, rfl⟩ := SymbolTable.registerAnnotationType_eq_ok.mp hu
    rfl
  | state => rfl
  | @«variable» v _ _ _ _ hu =>
    obtain ⟨-, -, rfl⟩ := SymbolTable.registerVariable_eq_ok.mp hu
    cases v.scope <;> rfl

theorem Furnishes.automatonIds_of {t u : SymbolTable} (h : Relation.ReflTransGen Furnishes t u) :
    u.automatonIds = t.automatonIds := by
  induction h with
  | refl => rfl
  | tail _ h ih => exact h.automatonIds.trans ih

/-- An automaton whose name is taken is refused, and adds nothing but types. -/
theorem SyntaxTree.AutomatonDecl.declare_of_taken {d : AutomatonDecl} {t : SymbolTable}
    (hc : t.automatonIds.contains d.name.name = true) :
    (d.declare.run t).1.result = .error .reported ∧
      (d.declare.run t).2.automatonIds = t.automatonIds := by
  obtain ⟨type, htype⟩ := attempt_ends (d.type.resolve_not_malformed t)
  obtain ⟨types, hu⟩ := Interns.types_only (d.type.resolve_within t)
  generalize (d.type.resolve.run t).2 = u at htype hu
  have hregister : (Build.register (fun t => t.registerAutomaton d.name.name
      (type.getD d.type.canonicalName) d.span) d.name.span).run u =
        (⟨.error .reported, [.error .duplicateDeclaration
          (RegistrationError.duplicate .automaton d.name.name).message d.name.span]⟩, u) := by
    simp only [Build.register, SymbolTable.registerAutomaton, hu, hc, if_true]
    rfl
  have hrefused : (d.declare.run t).1.result = .error .reported ∧ (d.declare.run t).2 = u := by
    rw [declare]
    show ((Build.bind d.type.resolve.attempt _).run t).1.result = _ ∧
      ((Build.bind d.type.resolve.attempt _).run t).2 = u
    rw [run_bind_of_ok htype.1, htype.2]
    show ((Build.bind (Build.register _ _) _).run u).1.result = _ ∧
      ((Build.bind (Build.register _ _) _).run u).2 = u
    rw [run_bind_of_error (e := .reported) (by rw [hregister]), hregister]
    exact ⟨rfl, rfl⟩
  exact ⟨hrefused.1, by rw [hrefused.2, hu]⟩

/-- An automaton whose name is free is registered, whatever is wrong with its parts. -/
theorem SyntaxTree.AutomatonDecl.declare_of_free {d : AutomatonDecl} {t : SymbolTable}
    (hc : t.automatonIds.contains d.name.name = false) :
    ∃ p u, d.declare.Yields t p u ∧ p.declaration = d ∧
      u.automatonIds = t.automatonIds.insert d.name.name p.id := by
  obtain ⟨type, htype⟩ := attempt_ends (d.type.resolve_not_malformed t)
  obtain ⟨types, hu⟩ := Interns.types_only (d.type.resolve_within t)
  generalize (d.type.resolve.run t).2 = u at htype hu
  have hfree : u.automatonIds.contains d.name.name = false := by rw [hu]; exact hc
  obtain ⟨v, hv⟩ : ∃ v, u.registerAutomaton d.name.name (type.getD d.type.canonicalName) d.span =
      .ok (⟨u.automata.length⟩, v) :=
    ⟨_, SymbolTable.registerAutomaton_eq_ok.mpr ⟨hfree, rfl, rfl⟩⟩
  obtain ⟨w, hw⟩ := declareStates_ends ⟨u.automata.length⟩ d.name.name [] d.states v
  obtain ⟨parameters, x, hx⟩ := declareVariables_ends
    (.constructorParameter ⟨u.automata.length⟩) d.constructorVariables w
  obtain ⟨members, y, hy⟩ := declareVariables_ends
    (.automaton ⟨u.automata.length⟩) d.instanceVariables x
  have hfurnish : (furnish ⟨u.automata.length⟩ d).Yields v
      ⟨⟨u.automata.length⟩, d, parameters ++ members⟩ y :=
    yields_bind.mpr ⟨(), w, hw, yields_bind.mpr ⟨parameters, x, hx,
      yields_bind.mpr ⟨members, y, hy, yields_pure.mpr ⟨rfl, rfl⟩⟩⟩⟩
  have hids : y.automatonIds = v.automatonIds :=
    Furnishes.automatonIds_of (hfurnish.reaches (d.furnish_within (hasSeen_registered hv)))
  refine ⟨_, y, yields_bind.mpr ⟨type, u, htype, yields_bind.mpr
    ⟨_, v, yields_register.mpr hv, hfurnish⟩⟩, rfl, ?_⟩
  obtain ⟨-, -, rfl⟩ := SymbolTable.registerAutomaton_eq_ok.mp hv
  rw [hids, hu]

namespace Run

variable {α β : Type} {options : Options} {library : SyntaxTree.Library}

/-- What each piece of work leaves in its table, whatever becomes of it, is there at the end. -/
theorem collect_leaves {S : SymbolTable → SymbolTable → Prop} {step : α → Build β}
    {P : α → SymbolTable → Prop} {items : List α} (hgrow : ∀ a t u, t.GrowsTo u → P a t → P a u)
    (hS : ∀ {t u}, S t u → t.GrowsTo u) (hw : ∀ a ∈ items, ∀ t, (step a).Within S t)
    (hstep : ∀ a ∈ items, ∀ t, P a ((step a).run t).2) (r : Run) :
    ∀ a ∈ items, P a (r.collect step items).2.table := by
  induction items generalizing r with
  | nil => exact List.forall_mem_nil _
  | cons a rest ih =>
    have hw' := fun b (hb : b ∈ rest) => hw b (List.mem_cons_of_mem a hb)
    rw [collect_cons]
    refine List.forall_mem_cons.mpr ⟨?_, ih hw' (fun b hb => hstep b (List.mem_cons_of_mem a hb)) _⟩
    have hfirst : P a (r.settle (step a)).2.table := by
      rw [table_settle]
      exact hstep a List.mem_cons_self _
    exact hgrow a _ _ (.of_reflTransGen (within_collect hw' _) fun _ _ => hS) hfirst

/-- Once the types are declared, the name of every one is known. -/
theorem types_known (library : SyntaxTree.Library) :
    ∀ d ∈ library.types, (withDeclaredTypes library).table.Knows d.name.name := by
  refine collect_leaves (P := fun (d : TypeDecl) t => t.Knows d.name.name)
    (fun d t u hu h => hu.knows h) Declares.growsTo (fun d _ t => ?_) (fun d _ t => ?_) start
  · exact declares_return (d.declare_within t)
  · have hrun : ((d.declare >>= fun _ => (Pure.pure d : Build TypeDecl)).run t).2 =
        (d.declare.run t).2 := by
      show ((Build.bind d.declare _).run t).2 = _
      cases h : (d.declare.run t).1.result with
      | ok a => rw [run_bind_of_ok h]; rfl
      | error e => rw [run_bind_of_error h]
    exact hrun ▸ d.declare_knows t

/-- No automaton is registered before the automata are. -/
theorem withGlobals_automatonIds (library : SyntaxTree.Library) :
    (withGlobals library).2.table.automatonIds = .empty := by
  have hkeep : ∀ {S : SymbolTable → SymbolTable → Prop} {t u : SymbolTable},
      (∀ t u, S t u → u.automatonIds = t.automatonIds) → Relation.ReflTransGen S t u →
        t.automatonIds = .empty → u.automatonIds = .empty :=
    fun hS h => keeps_of_reflTransGen h fun t u hu ht => (hS t u hu).trans ht
  have hdeclared : (withDeclaredTypes library).table.automatonIds = .empty := by
    refine hkeep (S := fun t u => u.automatonIds = t.automatonIds) (fun _ _ h => h)
      (within_collect (fun d _ t => ?_) start) rfl
    refine declares_return (within_bind (within_modify ?_) fun _ u _ => ?_)
    · obtain ⟨-, -, -, -, types, honly⟩ := t.interns_all d.mentioned
      rw [honly]
    · refine within_registerUnit fun v hv => ?_
      obtain ⟨-, rfl⟩ := SymbolTable.registerType_eq_ok.mp hv
      rfl
  have hinterns : ∀ t u, Interns t u → u.automatonIds = t.automatonIds := fun t u h => by
    obtain ⟨_, rfl⟩ := Interns.types_only (.single h)
    rfl
  have htypes : (withTypes library).table.automatonIds = .empty :=
    hkeep hinterns (within_performAll (fun d _ t => TypeDecl.validate_within d t) _) hdeclared
  have hannotations : (withAnnotations library).table.automatonIds = .empty :=
    hkeep (fun _ _ => Furnishes.automatonIds)
      (within_performAll (fun d _ t => AnnotationDecl.declare_within d t) _) htypes
  have hg : VariableScope.global.OutsideOperations := trivial
  exact hkeep (fun _ _ => Furnishes.automatonIds) (within_collect (fun d _ t =>
    declares_return (VariableDecl.declare_within hg d t)) _) hannotations

/-- Of the automata declared so far, the first of each name is registered, and no other one. -/
structure FirstsRegistered (declared : List AutomatonDecl) (registered : List PendingAutomaton)
    (t : SymbolTable) : Prop where
  id : ∀ name, t.automatonId? name =
    (registered.find? fun a => decide (a.declaration.name.name = name)).map PendingAutomaton.id
  declaration : ∀ name, (registered.find? fun a => decide (a.declaration.name.name = name)).map
    PendingAutomaton.declaration = declared.find? fun d => decide (d.name.name = name)
  first : ∀ a ∈ registered, declared.find?
    (fun d => decide (d.name.name = a.declaration.name.name)) = some a.declaration

theorem FirstsRegistered.declare {ds : List AutomatonDecl} {as : List PendingAutomaton}
    {t u : SymbolTable} {d : AutomatonDecl} {p : PendingAutomaton} (h : FirstsRegistered ds as t)
    (hp : d.declare.Yields t p u) : FirstsRegistered (ds ++ [d]) (as ++ [p]) u := by
  have hfree : t.automatonIds.contains d.name.name = false := by
    by_contra hc
    rw [Yields, (AutomatonDecl.declare_of_taken (Bool.not_eq_false _ ▸ hc)).1] at hp
    cases hp.1
  obtain ⟨p', u', hp', rfl, hids⟩ := AutomatonDecl.declare_of_free hfree
  obtain rfl : p' = p := Except.ok.inj (hp'.1.symm.trans hp.1)
  obtain rfl : u' = u := hp'.2.symm.trans hp.2
  have hnone : as.find? (fun a => decide (a.declaration.name.name = p'.declaration.name.name)) =
      none := by
    rw [← Option.map_eq_none_iff, ← h.id, SymbolTable.automatonId?]
    exact Option.not_isSome_iff_eq_none.mp (Bool.not_eq_true _ ▸ hfree)
  refine ⟨fun name => ?_, fun name => ?_, fun a ha => ?_⟩
  · rw [SymbolTable.automatonId?, hids, OrderedMap.get?_insert, List.find?_append]
    by_cases hname : p'.declaration.name.name = name
    · subst hname
      simp [hnone]
    · rw [if_neg (Ne.symm hname), ← SymbolTable.automatonId?, h.id name]
      simp [hname]
  · rw [List.find?_append, List.find?_append, ← h.declaration]
    by_cases hname : p'.declaration.name.name = name
    · subst hname
      simp [hnone]
    · simp [hname]
  · rw [List.find?_append]
    rcases List.mem_append.mp ha with ha | ha
    · rw [h.first a ha]
      rfl
    · rw [List.mem_singleton.mp ha, ← h.declaration, hnone]
      simp

theorem FirstsRegistered.refuse {ds : List AutomatonDecl} {as : List PendingAutomaton}
    {t : SymbolTable} {d : AutomatonDecl} {e : Abort} (h : FirstsRegistered ds as t)
    (he : (d.declare.run t).1.result = .error e) :
    FirstsRegistered (ds ++ [d]) as (d.declare.run t).2 := by
  have htaken : t.automatonIds.contains d.name.name = true := by
    by_contra hc
    obtain ⟨p, u, hp, -⟩ := AutomatonDecl.declare_of_free (Bool.not_eq_true _ ▸ hc)
    rw [hp.1] at he
    cases he
  obtain ⟨-, hids⟩ := AutomatonDecl.declare_of_taken htaken
  refine ⟨fun name => ?_, fun name => ?_, fun a ha => ?_⟩
  · rw [SymbolTable.automatonId?, hids]
    exact h.id name
  · rw [List.find?_append, ← h.declaration]
    by_cases hname : d.name.name = name
    · subst hname
      -- the name was taken by an earlier declaration
      have hid := h.id d.name.name
      cases hfound : as.find? fun a => decide (a.declaration.name.name = d.name.name) with
      | some a => simp
      | none =>
        rw [hfound] at hid
        rw [OrderedMap.contains, ← SymbolTable.automatonId?, hid] at htaken
        cases htaken
    · simp [hname]
  · rw [List.find?_append, h.first a ha]
    rfl

theorem first_registered (library : SyntaxTree.Library) :
    FirstsRegistered library.automata (withAutomata library).1 (withAutomata library).2.table := by
  refine collect_history (I := FirstsRegistered) (r := (withGlobals library).2)
    (fun d _ ds as t p u h hp => h.declare hp) (fun d _ ds as t e h he => h.refuse he) [] []
    ⟨fun name => ?_, fun _ => rfl, List.forall_mem_nil _⟩
  rw [SymbolTable.automatonId?, withGlobals_automatonIds]
  rfl

/-- Once the automata are registered, the name of every one is taken. -/
theorem automata_known (library : SyntaxTree.Library) :
    ∀ d ∈ library.automata, (withAutomata library).2.table.automatonId? d.name.name ≠ none := by
  intro d hd hnone
  obtain ⟨hid, hdeclaration, -⟩ := first_registered library
  have hid := hid d.name.name
  have hdeclaration := hdeclaration d.name.name
  rw [hnone, eq_comm, Option.map_eq_none_iff] at hid
  rw [hid, Option.map_none, eq_comm, List.find?_eq_none] at hdeclaration
  exact hdeclaration d hd (decide_eq_true rfl)

/-! ## Declarations of operations -/

/-- The run in which the first declarations of operations have been tried, and no others yet. -/
def afterSignatures (options : Options) (library : SyntaxTree.Library) (before : List Placed) : Run :=
  (before.foldl (registerSignature options) ([], (withAutomata library).2)).2

theorem collect_append (step : α → Build β) (l m : List α) (r : Run) :
    r.collect step (l ++ m) =
      ((r.collect step l).1 ++ ((r.collect step l).2.collect step m).1,
        ((r.collect step l).2.collect step m).2) := by
  induction l generalizing r with
  | nil => rfl
  | cons a l ih => simp only [List.cons_append, collect_cons, ih, List.append_assoc]

theorem afterSignatures_eq (options : Options) (library : SyntaxTree.Library) (before : List Placed) :
    afterSignatures options library before =
      ((withAutomata library).2.collect (enter options) before).2 :=
  congrArg Prod.snd (foldl_registerSignature options before _)

theorem afterSignatures_concat (options : Options) (library : SyntaxTree.Library)
    (before : List Placed) (item : Placed) : afterSignatures options library (before ++ [item]) =
      ((afterSignatures options library before).settle (item.1.register options item.2)).2 := by
  rw [afterSignatures, List.foldl_append, List.foldl_cons, List.foldl_nil, registerSignature_snd]
  rfl

end Run

/-- Whenever the declaration is tried, it is refused, and an error about it is among the diagnostics
of the analysis. -/
structure Placed.Rejected (options : Options) (library : SyntaxTree.Library) (item : Placed) : Prop where
  tried : item ∈ Run.placed library
  refused : ∀ before after, Run.placed library = before ++ item :: after →
    ((Run.afterSignatures options library before).settle (item.1.register options item.2)).1 = none
  reported : ∀ before after, Run.placed library = before ++ item :: after → ∃ found later,
    (Run.afterSignatures options library (before ++ [item])).diagnostics =
        (Run.afterSignatures options library before).diagnostics ++ found ∧
      (Run.analyze options library).diagnostics =
        (Run.afterSignatures options library (before ++ [item])).diagnostics ++ later ∧
      ∃ d ∈ found, d.level = .error

theorem Placed.OwnedBy.unique {t : SymbolTable} {item : Placed} {owner owner' : String}
    (h : item.OwnedBy t owner) (h' : item.OwnedBy t owner') : owner = owner' := by
  unfold OwnedBy at h h'
  split at h
  · rename_i hid
    simp only [hid] at h'
    obtain ⟨a, ha, rfl⟩ := h
    obtain ⟨b, hb, rfl⟩ := h'
    rw [Option.some.inj (ha.symm.trans hb)]
  · rename_i hid
    simp only [hid] at h'
    obtain ⟨q, hq, rfl⟩ := h
    obtain ⟨q', hq', rfl⟩ := h'
    rw [Option.some.inj (hq.symm.trans hq')]

namespace Run

variable {options : Options} {library : SyntaxTree.Library}

/-- The operation of an accepted declaration can be found under its owner and its name. -/
theorem ledger_indexed {e : LedgerEntry} (he : e ∈ ledger options library) {owner name : String}
    (howner : e.2.OwnedBy (withSignatures options library).2.table owner)
    (hname : e.2.1.name.map Identifier.name = some name) :
    ((withSignatures options library).2.table.operationIds.get? (owner, name)).getD [] ≠ [] := by
  have hexplained := withSignatures_explained options library
  obtain ⟨o, ho⟩ := hexplained.known e he
  have hkey := hexplained.hasKey he ho
  have hown : o.owner = owner := hkey.owner.unique howner
  have hon : o.name = some name := hkey.name.trans hname
  rw [hexplained.wellFormed.indexed, ne_eq, List.map_eq_nil_iff]
  refine List.ne_nil_of_mem (List.mem_filter.mpr ⟨List.mem_of_getElem? ho, ?_⟩)
  exact decide_eq_true ⟨hown, hon⟩

/-- A piece of work without a value has reported an error. -/
theorem settle_none_reports {α : Type} {step : Build α} (hs : step.Candid) {r : Run}
    (h : (r.settle step).1 = none) : ∃ found,
      (r.settle step).2.diagnostics = r.diagnostics ++ found ∧ ∃ d ∈ found, d.level = .error := by
  have hreported := hs r.table
  unfold settle at h ⊢
  rcases hr : step.run r.table with ⟨⟨(_ | m) | a, ds⟩, u⟩
  · rw [hr] at hreported
    obtain ⟨d, hd, herror⟩ := List.any_eq_true.mp (hreported rfl)
    exact ⟨ds, rfl, d, hd, of_decide_eq_true herror⟩
  · refine ⟨ds ++ [m.toDiagnostic], by simp [Malformed.toDiagnostic], m.toDiagnostic, ?_, rfl⟩
    exact List.mem_append_right _ (List.mem_singleton_self _)
  · rw [hr] at h
    cases h

/-- A declaration of an operation is rejected when no operation can be found under its owner and
its name. -/
theorem rejected_of_unindexed {item : Placed} (hitem : item ∈ placed library) {owner name : String}
    (howner : item.OwnedBy (withSignatures options library).2.table owner)
    (hname : item.1.name.map Identifier.name = some name)
    (hnone : ((withSignatures options library).2.table.operationIds.get? (owner, name)).getD [] =
      []) : item.Rejected options library := by
  have hrefused : ∀ before after, placed library = before ++ item :: after →
      ((afterSignatures options library before).settle
        (item.1.register options item.2)).1 = none := by
    intro before after hplaced
    rw [afterSignatures_eq]
    refine Option.eq_none_iff_forall_ne_some.mpr fun r hr => ?_
    have hledger : (r, item) ∈ ledger options library := by
      rw [ledger, hplaced, collect_append, collect_cons, settle_enter, hr]
      exact List.mem_append_right _ List.mem_cons_self
    exact ledger_indexed hledger howner hname hnone
  refine ⟨hitem, hrefused, fun before after hplaced => ?_⟩
  obtain ⟨found, hfound, herror⟩ := settle_none_reports
    (item.1.candid_register options item.2) (hrefused before after hplaced)
  have hlater : (afterSignatures options library (before ++ [item])).Continues
      (Fault fun _ => True) (analyze options library) := by
    refine .trans ?_ (continues_elaboration options library fun _ _ _ _ _ _ _ _ => trivial)
    have hsplit : placed library = (before ++ [item]) ++ after := by simp [hplaced]
    rw [withSignatures_run, hsplit, collect_append, ← afterSignatures_eq]
    exact continues_enter options after _
  obtain ⟨later, -, hd, -⟩ := hlater.adds
  exact ⟨found, later, by rw [afterSignatures_concat, hfound], hd, herror⟩

end Run

/-! ## What diagnostics deny -/

namespace Diagnostic

/-- The diagnostic says that there is no type of this name. -/
def DeniesType (d : Diagnostic) (name : String) : Prop :=
  d.kind = .unresolvedType ∧
    (d.message = s!"unresolved type '{name}'" ∨ d.message = s!"unresolved type reference '{name}'")

/-- The diagnostic says that there is no automaton of this name. -/
def DeniesAutomaton (d : Diagnostic) (name : String) : Prop :=
  d.kind = .unresolvedAutomaton ∧
    (d.message = s!"unresolved automaton '{name}'" ∨ d.message = s!"unknown automaton '{name}'")

end Diagnostic

theorem quoted_inj {before after n m : String} (h : before ++ n ++ after = before ++ m ++ after) :
    n = m := by
  have h := congrArg String.toList h
  simpa only [String.toList_append, List.append_cancel_right_eq, List.append_cancel_left_eq,
    String.toList_inj] using h

theorem quoted_begins {before before' after after' n m : String}
    (h : before ++ n ++ after = before' ++ m ++ after')
    (hl : before.toList.length ≤ before'.toList.length) : before.toList <+: before'.toList := by
  have h := congrArg String.toList h
  simp only [String.toList_append, List.append_assoc] at h
  have hback : before'.toList <+: before.toList ++ (n.toList ++ after.toList) :=
    h ▸ List.prefix_append _ _
  exact List.prefix_of_prefix_length_le (List.prefix_append _ _) hback hl

/-- A message that is written in one of two ways tells one name, when the shorter way does not begin
the longer one. -/
theorem quoted_unique {before before' after message n m : String}
    (hle : before.toList.length ≤ before'.toList.length)
    (hne : ¬before.toList <+: before'.toList)
    (h : message = before ++ n ++ after ∨ message = before' ++ n ++ after)
    (h' : message = before ++ m ++ after ∨ message = before' ++ m ++ after) : n = m := by
  rcases h with rfl | rfl <;> rcases h' with heq | heq
  · exact quoted_inj heq
  · exact absurd (quoted_begins heq hle) hne
  · exact absurd (quoted_begins heq.symm hle) hne
  · exact quoted_inj heq

section Denials

variable {L : Diagnostic → Prop} {t : SymbolTable} {d : Diagnostic} {name : String}

theorem DeclarationFault.kind_ne_automaton (h : DeclarationFault t d) :
    d.kind ≠ .unresolvedAutomaton := by
  rcases h with _ | (h | h)
  · exact DiagnosticKind.noConfusion
  · rw [h]
    decide
  · rw [h]
    decide

/-- Only one name is told of a missing type. -/
theorem Diagnostic.DeniesType.unique {other : String} (h : d.DeniesType name)
    (h' : d.DeniesType other) : name = other :=
  quoted_unique (by decide) (by decide) h.2 h'.2

/-- Only one name is told of a missing automaton. -/
theorem Diagnostic.DeniesAutomaton.unique {other : String} (h : d.DeniesAutomaton name)
    (h' : d.DeniesAutomaton other) : name = other :=
  quoted_unique (by decide) (by decide) h.2.symm h'.2.symm

/-- A missing type is told by its name. -/
theorem Fault.deniesType (h : Fault L t d) (hd : d.kind = .unresolvedType) :
    ∃ name, d.DeniesType name ∧ ¬t.Knows name := by
  rcases h with (hn | (h | h)) | hn | _ | _ | ⟨h, -⟩ | h
  case declaration.type n _ => exact ⟨n, ⟨hd, Or.inl rfl⟩, hn⟩
  case reference n _ => exact ⟨n, ⟨hd, Or.inr rfl⟩, hn⟩
  case other => simp [hd, DiagnosticKind.isPlain] at h
  all_goals first | (rw [hd] at h; cases h) | cases hd

/-- A missing automaton is told by its name. -/
theorem Fault.deniesAutomaton (h : Fault L t d) (hd : d.kind = .unresolvedAutomaton) :
    ∃ name, d.DeniesAutomaton name ∧ t.automatonId? name = none := by
  rcases h with (_ | (h | h)) | _ | hn | hn | ⟨h, -⟩ | h
  case automaton n _ => exact ⟨n, ⟨hd, Or.inl rfl⟩, hn⟩
  case owner n _ => exact ⟨n, ⟨hd, Or.inr rfl⟩, hn⟩
  case other => simp [hd, DiagnosticKind.isPlain] at h
  all_goals first | (rw [hd] at h; cases h) | cases hd

/-- What is said about a type holds of the name that is told. -/
theorem Fault.type_unknown (h : Fault L t d) (hd : d.DeniesType name) : ¬t.Knows name := by
  obtain ⟨told, htold, hunknown⟩ := h.deniesType hd.1
  exact hd.unique htold ▸ hunknown

/-- What is said about an automaton holds of the name that is told. -/
theorem Fault.automaton_unknown (h : Fault L t d) (hd : d.DeniesAutomaton name) :
    t.automatonId? name = none := by
  obtain ⟨told, htold, hunknown⟩ := h.deniesAutomaton hd.1
  exact hd.unique htold ▸ hunknown

/-- Only a lookup says that an operation is missing. -/
theorem Fault.asked (h : Fault L t d) (hd : d.kind = .unresolvedFunction) : L d := by
  rcases h with (_ | (h | h)) | _ | _ | _ | ⟨-, h⟩ | h
  case operation => exact h
  case other => simp [hd, DiagnosticKind.isPlain] at h
  all_goals first | (rw [hd] at h; cases h) | cases hd

end Denials

/-- A name alone leads nowhere only when no operation has it. -/
theorem SymbolTable.resolveOperation_unresolved {t : SymbolTable} {name automaton text : String}
    {kind : EntityKind}
    (h : t.resolveOperation name automaton none = .error (.unresolved kind text)) :
    (t.operationIds.get? (automaton, name)).getD [] = [] := by
  unfold resolveOperation lookupOperation at h
  generalize (t.operationIds.get? (automaton, name)).getD [] = ids at h ⊢
  rcases ids with _ | ⟨first, _ | ⟨second, rest⟩⟩
  · rfl
  · cases h
  · cases h

theorem SyntaxTree.Trigger.resolve_unresolved {automaton : String} {trigger : Trigger}
    (hn : trigger.argumentTypes = none) {t : SymbolTable} {d : Diagnostic}
    (hd : d ∈ ((trigger.resolve automaton).run t).1.diagnostics)
    (hk : d.kind = .unresolvedFunction) :
    (t.operationIds.get? (automaton, trigger.name.name)).getD [] = [] := by
  rw [resolve, hn] at hd
  change d ∈ ((Build.bind (Build.pure none) _).run t).1.diagnostics at hd
  rw [run_bind_of_ok (a := none) rfl] at hd
  have hd : d ∈ ((_ : Build OperationId).run t).1.diagnostics :=
    (List.mem_append.mp hd).resolve_left List.not_mem_nil
  rw [run_look_bind] at hd
  rcases hr : t.resolveOperation trigger.name.name automaton none with (_ | _) | id
  · exact SymbolTable.resolveOperation_unresolved hr
  · rw [hr] at hd
    rw [List.mem_singleton.mp hd] at hk
    cases hk
  · rw [hr] at hd
    cases hd

namespace Run

variable {options : Options} {library : SyntaxTree.Library}

/-- The first automaton `automaton` of the library has a shift that names an operation by `trigger`,
and the table is one that the analysis may have when it looks at shifts. -/
structure Consults (options : Options) (library : SyntaxTree.Library) (automaton : String)
    (trigger : Trigger) (t : SymbolTable) : Prop where
  named : ∃ d, library.automata.find? (fun d => decide (d.name.name = automaton)) = some d ∧
    ∃ shift ∈ d.shifts, trigger ∈ shift.functions
  reached : Relation.ReflTransGen Elaborates (withSignatures options library).2.table t

/-- The diagnostic is what a lookup of the analysis says. -/
def Answers (options : Options) (library : SyntaxTree.Library) (found : Diagnostic) : Prop :=
  ∃ automaton trigger t, Consults options library automaton trigger t ∧
    found ∈ ((trigger.resolve automaton).run t).1.diagnostics

theorem withSignatures_growsTo (options : Options) (library : SyntaxTree.Library) :
    (withAutomata library).2.table.GrowsTo (withSignatures options library).2.table :=
  .of_reflTransGen (registerSignatures_signs _ _ _ _) fun _ _ => Signs.growsTo

/-- The shifts of a registered automaton consult the table about it. -/
theorem answers_of_asks {a : PendingAutomaton} (ha : a ∈ (withAutomata library).1) {d : ShiftDecl}
    (hd : d ∈ a.declaration.shifts) {t : SymbolTable}
    (ht : Relation.ReflTransGen Elaborates (withSignatures options library).2.table t)
    {found : Diagnostic}
    (hfound : d.Asks (((t.automaton? a.id).map Automaton.name).getD "") t found) :
    Answers options library found := by
  obtain ⟨b, hb, hheads⟩ := withAutomata_heads library a ha
  have hgrows : (withAutomata library).2.table.GrowsTo t :=
    (withSignatures_growsTo options library).trans
      (.of_reflTransGen ht fun _ _ => Elaborates.growsTo)
  obtain ⟨c, hc, hbc⟩ := hgrows.automaton? hb
  have hname : ((t.automaton? a.id).map Automaton.name).getD "" = a.declaration.name.name := by
    rw [hc]
    exact hbc.name.trans hheads.name
  obtain ⟨trigger, htrigger, u, hu, hfound⟩ := hfound
  rw [hname] at hfound
  refine ⟨_, trigger, u, ⟨⟨a.declaration, (first_registered library).first a ha, d, hd, htrigger⟩,
    ht.trans (Relation.ReflTransGen.mono (fun _ _ => Interns.elaborates) _ _ hu)⟩, hfound⟩

/-- What the diagnostics of an analysis say about missing names, each at its moment: the types are
declared by then, and the automata are registered when one of them is missing. -/
theorem analyze_finds (options : Options) (library : SyntaxTree.Library) :
    ∀ d ∈ (analyze options library).diagnostics, d.kind ≠ .duplicateDeclaration →
      d.kind ≠ .malformedTree → ∃ u, (withDeclaredTypes library).table.GrowsTo u ∧
        Fault (Answers options library) u d ∧
          (d.kind = .unresolvedAutomaton → (withAutomata library).2.table.GrowsTo u) := by
  have hnames := continues_names library
  have hrest := (continues_signatures (L := Answers options library) options library).trans
    (continues_elaboration options library fun a ha d hd t ht e he => answers_of_asks ha hd ht he)
  obtain ⟨found₁, -, hd₁, -, -, hfound₁⟩ := (continues_types library).adds
  obtain ⟨found₂, -, hd₂, -, -, hfound₂⟩ := hnames.adds
  obtain ⟨found₃, -, hd₃, -, -, hfound₃⟩ := hrest.adds
  have hstart : start.diagnostics = [] := rfl
  intro d hd hduplicate hmalformed
  rw [hd₃, hd₂, hd₁, hstart, List.nil_append, List.append_assoc] at hd
  rcases List.mem_append.mp hd with hd | hd
  · obtain ⟨-, -, h⟩ := (hfound₁ d hd).resolve_left hmalformed
    exact (hduplicate h).elim
  rcases List.mem_append.mp hd with hd | hd
  · obtain ⟨u, hu, h⟩ := (hfound₂ d hd).resolve_left hmalformed
    exact ⟨u, hu, .declaration h, fun hk => (h.kind_ne_automaton hk).elim⟩
  · obtain ⟨u, hu, h⟩ := (hfound₃ d hd).resolve_left hmalformed
    exact ⟨u, hnames.grows.trans hu, h, fun _ => hu⟩

theorem growsTo_of_consults {automaton : String} {trigger : Trigger} {t : SymbolTable}
    (h : Consults options library automaton trigger t) :
    (withSignatures options library).2.table.GrowsTo t :=
  .of_reflTransGen h.reached fun _ _ => Elaborates.growsTo

/-- When a lookup by the name alone says that an operation is missing, every declaration of it has
been rejected. -/
theorem rejected_of_consults {automaton : String} {trigger : Trigger} {t : SymbolTable}
    (h : Consults options library automaton trigger t) (hn : trigger.argumentTypes = none)
    {e : Diagnostic} (he : e ∈ ((trigger.resolve automaton).run t).1.diagnostics)
    (hk : e.kind = .unresolvedFunction) {item : Placed} (hitem : item ∈ placed library)
    (howner : item.OwnedBy (withAutomata library).2.table automaton)
    (hname : item.1.name.map Identifier.name = some trigger.name.name) :
    item.Rejected options library := by
  refine rejected_of_unindexed hitem (howner.mono (withSignatures_growsTo options library)) hname ?_
  have hnone := Trigger.resolve_unresolved hn he hk
  cases hids : (withSignatures options library).2.table.operationIds.get?
      (automaton, trigger.name.name) with
  | none => rfl
  | some ids =>
    obtain ⟨more, hmore, hbegins⟩ := (growsTo_of_consults h).operationIds.get? hids
    rw [hmore] at hnone
    exact List.prefix_nil.mp (hnone ▸ hbegins)

/-- A function of the first automaton of a name is tried inside of it. -/
theorem placed_of_first {name : String} {first : AutomatonDecl}
    (h : library.automata.find? (fun d => decide (d.name.name = name)) = some first)
    {d : FunctionDecl} (hd : d ∈ first.functions) :
    ∃ id, (withAutomata library).2.table.automatonId? name = some id ∧
      (d, some id) ∈ placed library ∧
        Placed.OwnedBy (withAutomata library).2.table (d, some id) name := by
  obtain ⟨hid, hdeclaration, -⟩ := first_registered library
  have hid := hid name
  have hdeclaration := hdeclaration name
  rw [h, Option.map_eq_some_iff] at hdeclaration
  obtain ⟨a, ha, rfl⟩ := hdeclaration
  rw [ha, Option.map_some] at hid
  refine ⟨a.id, hid, ?_, ?_⟩
  · refine List.mem_append_left _ (List.mem_flatMap.mpr ⟨a, List.mem_of_find?_eq_some ha, ?_⟩)
    exact List.mem_map_of_mem hd
  · exact ((withAutomata_wellFormed library).automatonId?_iff _ _).mp hid

/-- No place for a declaration is too late. When an analysis says that a type or an automaton is
missing, the library does not declare it; only a lookup by a trigger says that an operation is
missing; and when it does by the name alone, every declaration of an operation of this name that
the automaton owns has been rejected with an error. -/
theorem forward_references_resolve (options : Options) (library : SyntaxTree.Library) :
    (∀ d ∈ (analyze options library).diagnostics, d.kind = .unresolvedType →
      ∃ name, d.DeniesType name) ∧
    (∀ d ∈ (analyze options library).diagnostics, ∀ name, d.DeniesType name →
      ∀ type ∈ library.types, type.name.name ≠ name) ∧
    (∀ d ∈ (analyze options library).diagnostics, d.kind = .unresolvedAutomaton →
      ∃ name, d.DeniesAutomaton name) ∧
    (∀ d ∈ (analyze options library).diagnostics, ∀ name, d.DeniesAutomaton name →
      ∀ automaton ∈ library.automata, automaton.name.name ≠ name) ∧
    (∀ d ∈ (analyze options library).diagnostics, d.kind = .unresolvedFunction →
      Answers options library d) ∧
    ∀ automaton trigger t, Consults options library automaton trigger t →
      trigger.argumentTypes = none →
      (∃ d ∈ ((trigger.resolve automaton).run t).1.diagnostics, d.kind = .unresolvedFunction) →
      ∀ f : FunctionDecl, f.name.map Identifier.name = some trigger.name.name →
        (∀ first, library.automata.find? (fun d => decide (d.name.name = automaton)) = some first →
          f ∈ first.functions →
          ∃ id, (withAutomata library).2.table.automatonId? automaton = some id ∧
            Placed.Rejected options library (f, some id)) ∧
        (f ∈ library.functions → f.automaton.map Identifier.name = some automaton →
          Placed.Rejected options library (f, none)) := by
  have hfinds := analyze_finds options library
  refine ⟨fun d hd hk => ?_, fun d hd name hdenies type htype hname => ?_, fun d hd hk => ?_,
    fun d hd name hdenies automaton hautomaton hname => ?_, fun d hd hk => ?_, ?_⟩
  · obtain ⟨u, -, h, -⟩ := hfinds d hd (by rw [hk]; decide) (by rw [hk]; decide)
    exact (h.deniesType hk).imp fun _ h => h.1
  · obtain ⟨u, hu, h, -⟩ := hfinds d hd (by rw [hdenies.1]; decide) (by rw [hdenies.1]; decide)
    exact h.type_unknown hdenies (hname ▸ hu.knows (types_known library type htype))
  · obtain ⟨u, -, h, -⟩ := hfinds d hd (by rw [hk]; decide) (by rw [hk]; decide)
    exact (h.deniesAutomaton hk).imp fun _ h => h.1
  · obtain ⟨u, -, h, hu⟩ := hfinds d hd (by rw [hdenies.1]; decide) (by rw [hdenies.1]; decide)
    obtain ⟨id, hid⟩ := Option.ne_none_iff_exists'.mp (automata_known library automaton hautomaton)
    have hnone := h.automaton_unknown hdenies
    rw [← hname, (hu hdenies.1).automatonId? hid] at hnone
    cases hnone
  · obtain ⟨u, -, h, -⟩ := hfinds d hd (by rw [hk]; decide) (by rw [hk]; decide)
    exact h.asked hk
  · rintro automaton trigger t hconsults hn ⟨e, he, hk⟩ f hf
    refine ⟨fun first hfirst hmem => ?_, fun hmem hqualifier => ?_⟩
    · obtain ⟨id, hid, hplaced, howner⟩ := placed_of_first hfirst hmem
      exact ⟨id, hid, rejected_of_consults hconsults hn he hk hplaced howner hf⟩
    · have hplaced : (f, none) ∈ placed library :=
        List.mem_append_right _ (List.mem_map_of_mem hmem)
      obtain ⟨qualifier, hq, rfl⟩ := Option.map_eq_some_iff.mp hqualifier
      exact rejected_of_consults hconsults hn he hk hplaced ⟨qualifier, hq, rfl⟩ hf

end Run

end LibraryContract
