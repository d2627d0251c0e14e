import LibraryContract.Proofs.DeclaredTypes
import LibraryContract.Proofs.Overload
import LibraryContract.Proofs.WrittenType

/-!
# Types that are looked at in turn

A step that needs several types looks at them one after the other. An array that is mentioned is
known from then on, so it can be named later in the same list; the first name that nothing stands
for ends the step.

* `TypeExpr.KnownInTurn`, `TypeExpr.internAll`: when a list of type expressions can be looked at,
  and what becomes of the table;
* `KnownInTurn.again`: to look at the beginning of a list first does not help with the list;
* `Build.InTurn`: a step that needs types, or else reports one error, with one lemma for each way of
  building a step;
* `Trigger.inTurn_resolve`: the triggers of shifts are such steps.
-/

namespace LibraryContract

open SyntaxTree Build

variable {t u : SymbolTable}

/-! ## Lists of type expressions -/

namespace SyntaxTree.TypeExpr

/-- The table in which the arrays of all these expressions are known. -/
def internAll (es : List TypeExpr) (t : SymbolTable) : SymbolTable :=
  es.foldl (fun t e => e.intern t) t

/-- Each expression is known, once the arrays of those before it are. -/
def KnownInTurn (t : SymbolTable) : List TypeExpr → Prop
  | [] => True
  | e :: rest => t.Knows e.innermost.name ∧ KnownInTurn (e.intern t) rest

theorem internAll_append (es rest : List TypeExpr) (t : SymbolTable) :
    internAll (es ++ rest) t = internAll rest (internAll es t) :=
  List.foldl_append

theorem knownInTurn_append {es rest : List TypeExpr} :
    KnownInTurn t (es ++ rest) ↔ KnownInTurn t es ∧ KnownInTurn (internAll es t) rest := by
  induction es generalizing t with
  | nil => exact (iff_of_eq (true_and _)).symm
  | cons e es ih =>
    rw [List.cons_append, KnownInTurn, KnownInTurn, ih, and_assoc]
    rfl

/-- Only the types of the table change. -/
theorem internAll_only (es : List TypeExpr) (t : SymbolTable) :
    ∃ types, internAll es t = { t with types := types } :=
  (SymbolTable.interns_all es t).2.2.2.2

theorem automaton?_internAll (es : List TypeExpr) (t : SymbolTable) (id : AutomatonId) :
    (internAll es t).automaton? id = t.automaton? id := by
  obtain ⟨types, htypes⟩ := internAll_only es t
  rw [htypes]
  rfl

theorem lookupOperation_internAll (es : List TypeExpr) (t : SymbolTable) (name automaton : String)
    (types : Option (List String)) :
    (internAll es t).lookupOperation name automaton types =
      t.lookupOperation name automaton types := by
  obtain ⟨types', htypes⟩ := internAll_only es t
  rw [htypes]
  rfl

theorem knows_intern {e : TypeExpr} {name : String} :
    (e.intern t).Knows name ↔
      t.Knows name ∨ ∃ element ∈ e.elements, name = DataType.arrayName element := by
  induction e with
  | named identifier => simp [intern, elements]
  | array inner ih =>
    rw [intern, SymbolTable.knows_internArray, ih, or_assoc]
    simp only [elements, List.exists_mem_cons_iff, or_comm]

theorem KnownInTurn.mono {es : List TypeExpr} (h : KnownInTurn t es)
    (hu : ∀ name, t.Knows name → u.Knows name) : KnownInTurn u es := by
  induction es generalizing t u with
  | nil => trivial
  | cons e rest ih =>
    obtain ⟨hknown, hrest⟩ := h
    refine ⟨hu _ hknown, ih hrest fun name hname => ?_⟩
    rw [knows_intern] at hname ⊢
    exact hname.imp_left (hu name)

theorem intern_of_interned {e : TypeExpr} (h : e.Interned t) : e.intern t = t := by
  induction e with
  | named identifier => rfl
  | array inner ih =>
    rw [intern, ih fun element hmem => h element (List.mem_cons_of_mem _ hmem)]
    exact internArray_of_knows (h _ List.mem_cons_self)

theorem internAll_growsTo (es : List TypeExpr) (t : SymbolTable) : t.GrowsTo (internAll es t) :=
  (SymbolTable.interns_all es t).1

/-- There is nothing left to add the second time. -/
theorem internAll_internAll (es : List TypeExpr) (t : SymbolTable) :
    internAll es (internAll es t) = internAll es t := by
  have hinterned := (SymbolTable.interns_all es t).2.1
  have hfold : ∀ rest : List TypeExpr, (∀ e ∈ rest, e.Interned (internAll es t)) →
      internAll rest (internAll es t) = internAll es t := by
    intro rest hrest
    induction rest with
    | nil => rfl
    | cons e rest ih =>
      obtain ⟨he, hrest⟩ := List.forall_mem_cons.mp hrest
      show internAll rest (e.intern (internAll es t)) = _
      rw [intern_of_interned he, ih hrest]
  exact hfold es hinterned

/-- Whoever has looked at the beginning of a list before can look at the list no further. -/
theorem KnownInTurn.again {seen es : List TypeExpr} (hbefore : seen <+: es)
    (hseen : KnownInTurn t seen) (h : KnownInTurn (internAll seen t) es) : KnownInTurn t es := by
  obtain ⟨rest, rfl⟩ := hbefore
  rw [knownInTurn_append, internAll_internAll] at h
  exact knownInTurn_append.mpr ⟨hseen, h.2⟩

theorem run_resolve_of_known {e : TypeExpr} (h : t.types.contains e.innermost.name = true) :
    e.resolve.run t = (⟨.ok e.canonicalName, []⟩, e.intern t) := by
  induction e with
  | named name =>
    have h : t.types.contains name.name = true := h
    rw [resolve, run_look_bind, if_pos h]
    rfl
  | array element ih =>
    rw [resolve, run_bind_of_silent (ih h)]
    rfl

theorem run_resolve_of_unknown {e : TypeExpr} (h : t.types.contains e.innermost.name = false) :
    e.resolve.run t = (⟨.error .reported,
      [.error .unresolvedType s!"unresolved type '{e.innermost.name}'" e.innermost.span]⟩, t) := by
  induction e with
  | named name =>
    have h : t.types.contains name.name = false := h
    rw [resolve, run_look_bind, if_neg (by rw [h]; exact Bool.false_ne_true)]
    rfl
  | array element ih =>
    rw [resolve, run_bind_of_abort (ih h)]
    rfl

end SyntaxTree.TypeExpr

/-! ## Steps that need types -/

open TypeExpr (KnownInTurn internAll)

variable {α β : Type}

/-- The step needs the types `es` in turn and gives a value that is `good`. When there is no such
value or a type is not known, it reports one error, and the arrays of the types before are known. -/
structure Build.InTurn (b : Build α) (es : List TypeExpr) (good : α → Prop) (t : SymbolTable) :
    Prop where
  yields : ∀ a u, b.Yields t a u ↔ KnownInTurn t es ∧ good a ∧ internAll es t = u
  silent : ∀ a u, b.Yields t a u → (b.run t).1.diagnostics = []
  fails : (¬∃ a u, b.Yields t a u) → ∃ seen e, seen <+: es ∧ KnownInTurn t seen ∧
    e.isError = true ∧ b.run t = (⟨.error .reported, [e]⟩, internAll seen t)

namespace Build

theorem inTurn_look_bind {f : SymbolTable → α} {g : α → Build β} {es : List TypeExpr}
    {good : β → Prop} (h : (g (f t)).InTurn es good t) :
    ((liftM (Check.look f) : Build α) >>= g).InTurn es good t := by
  have hrun := run_look_bind f g t
  refine ⟨fun c u => ?_, fun c u hc => ?_, fun hno => ?_⟩
  · rw [← h.yields, Yields, Yields, hrun]
  · rw [Yields, hrun] at hc
    rw [hrun]
    exact h.silent c u hc
  · rw [hrun]
    refine h.fails ?_
    rintro ⟨c, u, hc⟩
    refine hno ⟨c, u, ?_⟩
    rw [Yields, hrun]
    exact hc

/-- A step that only looks and finds its value. -/
theorem inTurn_of_ok {c : Check α} {a : α} (h : c.run t = ⟨.ok a, []⟩) :
    (liftM c : Build α).InTurn [] (a = ·) t where
  yields := fun b u => by
    rw [yields_liftM, Check.Yields, h, Except.ok.injEq, KnownInTurn, true_and]
    rfl
  silent := fun _ _ _ => congrArg Outcome.diagnostics h
  fails := fun hno => (hno ⟨a, t, congrArg Outcome.result h, rfl⟩).elim

theorem inTurn_pure (a : α) : (Pure.pure a : Build α).InTurn [] (a = ·) t :=
  inTurn_of_ok (c := Check.pure a) rfl

/-- A step that only looks and reports an error. -/
theorem inTurn_of_fault {c : Check α} {e : Diagnostic} (h : c.run t = ⟨.error .reported, [e]⟩)
    (he : e.isError = true) : (liftM c : Build α).InTurn [] (fun _ => False) t where
  yields := fun a u => by
    rw [yields_liftM, Check.Yields, h]
    simp
  silent := fun a u hyields => by
    rw [yields_liftM, Check.Yields, h] at hyields
    cases hyields.1
  fails := fun _ => ⟨[], e, List.nil_prefix, trivial, he, congrArg (·, t) h⟩

theorem inTurn_fail (kind : DiagnosticKind) (message : String) (span : Span) :
    (liftM (Check.fail kind message span : Check α) : Build α).InTurn [] (fun _ => False) t :=
  inTurn_of_fault rfl rfl

theorem InTurn.congr {b : Build α} {es : List TypeExpr} {good good' : α → Prop}
    (h : b.InTurn es good t) (hgood : ∀ a, good a ↔ good' a) : b.InTurn es good' t where
  yields := fun a u => by rw [h.yields, hgood]
  silent := h.silent
  fails := h.fails

theorem InTurn.run_eq {b : Build α} {es : List TypeExpr} {good : α → Prop} {a : α}
    (h : b.InTurn es good t) (ha : b.Yields t a u) : b.run t = (⟨.ok a, []⟩, u) := by
  rw [← h.silent a u ha, ← ha.1, ← ha.2]

theorem InTurn.bind {b : Build α} {f : α → Build β} {es es' : List TypeExpr} {good : α → Prop}
    {good' : α → β → Prop} (hb : b.InTurn es good t)
    (hf : ∀ a, good a → (f a).InTurn es' (good' a) (internAll es t)) :
    (b >>= f).InTurn (es ++ es') (fun c => ∃ a, good a ∧ good' a c) t where
  yields := fun c u => by
    rw [yields_bind, TypeExpr.knownInTurn_append, TypeExpr.internAll_append]
    constructor
    · rintro ⟨a, s, ha, hc⟩
      obtain ⟨hknown, hgood, rfl⟩ := (hb.yields a s).mp ha
      obtain ⟨hknown', hgood', rfl⟩ := ((hf a hgood).yields c u).mp hc
      exact ⟨⟨hknown, hknown'⟩, ⟨a, hgood, hgood'⟩, rfl⟩
    · rintro ⟨⟨hknown, hknown'⟩, ⟨a, hgood, hgood'⟩, rfl⟩
      exact ⟨a, _, (hb.yields a _).mpr ⟨hknown, hgood, rfl⟩,
        ((hf a hgood).yields c _).mpr ⟨hknown', hgood', rfl⟩⟩
  silent := fun c u h => by
    obtain ⟨a, s, ha, hc⟩ := yields_bind.mp h
    obtain ⟨-, hgood, rfl⟩ := (hb.yields a s).mp ha
    rw [run_bind_of_silent (hb.run_eq ha)]
    exact (hf a hgood).silent c u hc
  fails := fun h => by
    by_cases hyields : ∃ a u, b.Yields t a u
    · obtain ⟨a, s, ha⟩ := hyields
      obtain ⟨hknown, hgood, rfl⟩ := (hb.yields a s).mp ha
      have hrest : ¬∃ c u, (f a).Yields (internAll es t) c u := by
        rintro ⟨c, u, hc⟩
        exact h ⟨c, u, yields_bind.mpr ⟨a, _, ha, hc⟩⟩
      obtain ⟨seen, e, hseen, hknown', he, hrun⟩ := (hf a hgood).fails hrest
      refine ⟨es ++ seen, e, (List.prefix_append_right_inj es).mpr hseen,
        TypeExpr.knownInTurn_append.mpr ⟨hknown, hknown'⟩, he, ?_⟩
      rw [run_bind_of_silent (hb.run_eq ha), hrun, TypeExpr.internAll_append]
    · obtain ⟨seen, e, hseen, hknown, he, hrun⟩ := hb.fails hyields
      exact ⟨seen, e, hseen.trans (List.prefix_append es es'), hknown, he, run_bind_of_abort hrun⟩

/-- Making something else of the value needs no more types. -/
theorem InTurn.map {b : Build α} {es : List TypeExpr} {good : α → Prop} (hb : b.InTurn es good t)
    (f : α → β) :
    (b >>= fun a => (Pure.pure (f a) : Build β)).InTurn es (fun c => ∃ a, good a ∧ f a = c) t := by
  rw [← List.append_nil es]
  exact hb.bind fun a _ => inTurn_pure (f a)

theorem inTurn_mapM {f : α → Build β} {es : α → List TypeExpr} {good : α → β → Prop}
    {items : List α} (hf : ∀ a seen, (f a).InTurn (es a) (good a) (internAll seen t)) :
    (items.mapM f).InTurn (items.flatMap es) (List.Forall₂ good items) t := by
  induction items generalizing t with
  | nil =>
    refine (inTurn_pure []).congr fun bs => ?_
    rw [List.forall₂_nil_left_iff, eq_comm]
  | cons a rest ih =>
    have hrest : ∀ a' seen,
        (f a').InTurn (es a') (good a') (internAll seen (internAll (es a) t)) := by
      intro a' seen
      rw [← TypeExpr.internAll_append]
      exact hf a' _
    rw [List.mapM_cons, List.flatMap_cons]
    refine ((hf a []).bind fun b _ => (ih hrest).map fun bs => b :: bs).congr fun bs => ?_
    rw [List.forall₂_cons_left_iff]
    constructor
    · rintro ⟨b, hb, bs, hbs, rfl⟩
      exact ⟨b, bs, hb, hbs, rfl⟩
    · rintro ⟨b, bs, hb, hbs, rfl⟩
      exact ⟨b, hb, bs, hbs, rfl⟩

end Build

namespace SyntaxTree

theorem TypeExpr.inTurn_resolve (e : TypeExpr) (t : SymbolTable) :
    e.resolve.InTurn [e] (e.canonicalName = ·) t := by
  have hknown : KnownInTurn t [e] ↔ t.types.contains e.innermost.name = true := by
    rw [KnownInTurn, KnownInTurn, and_true, SymbolTable.knows_iff_contains]
  cases h : t.types.contains e.innermost.name with
  | true =>
    have hrun := run_resolve_of_known h
    refine ⟨fun name u => ?_, fun name u _ => by rw [hrun], fun hno => ?_⟩
    · rw [hknown, and_iff_right h, Yields, hrun, Except.ok.injEq]
      rfl
    · refine (hno ⟨e.canonicalName, e.intern t, ?_⟩).elim
      rw [Yields, hrun]
      exact ⟨rfl, rfl⟩
  | false =>
    have hrun := run_resolve_of_unknown h
    have hno : ∀ name u, ¬e.resolve.Yields t name u := by
      intro name u hyields
      rw [Yields, hrun] at hyields
      cases hyields.1
    refine ⟨fun name u => iff_of_false (hno name u) ?_,
      fun name u hyields => (hno name u hyields).elim,
      fun _ => ⟨[], _, List.nil_prefix, trivial, rfl, hrun⟩⟩
    rintro ⟨hes, -⟩
    rw [hknown, h] at hes
    cases hes

theorem TypeExpr.inTurn_mapM_resolve (es : List TypeExpr) (t : SymbolTable) :
    (es.mapM fun e : TypeExpr => e.resolve).InTurn es (es.map TypeExpr.canonicalName = ·) t := by
  have hall : (es.mapM fun e : TypeExpr => e.resolve).InTurn (es.flatMap fun e => [e])
      (List.Forall₂ (fun e name => e.canonicalName = name) es) t :=
    inTurn_mapM fun e seen => e.inTurn_resolve (internAll seen t)
  rw [List.flatMap_singleton'] at hall
  refine hall.congr fun names => ?_
  rw [← List.forall₂_eq_eq_eq, List.forall₂_map_left_iff]

/-- A trigger needs its argument types, and an operation that it names. -/
theorem Trigger.inTurn_resolve (automaton : String) (trigger : Trigger) (t : SymbolTable)
    (seen : List TypeExpr) :
    (trigger.resolve automaton).InTurn trigger.typeExprs (trigger.Names t automaton)
      (internAll seen t) := by
  have htypes : (trigger.argumentTypes.mapM fun types : List TypeExpr =>
      types.mapM fun e : TypeExpr => e.resolve).InTurn trigger.typeExprs
      (trigger.argumentTypes.map (List.map TypeExpr.canonicalName) = ·) (internAll seen t) := by
    rw [Trigger.typeExprs]
    cases trigger.argumentTypes with
    | none => exact inTurn_pure none
    | some types =>
      refine ((TypeExpr.inTurn_mapM_resolve types _).map some).congr fun names => ?_
      simp
  have hnames : ∀ id,
      (∃ types, trigger.argumentTypes.map (List.map TypeExpr.canonicalName) = types ∧
      trigger.Names t automaton id) ↔ trigger.Names t automaton id := by simp
  rw [← List.append_nil trigger.typeExprs]
  refine InTurn.congr (htypes.bind fun types hcanonical => inTurn_look_bind ?_) hnames
  rw [SymbolTable.resolveOperation, TypeExpr.lookupOperation_internAll,
    TypeExpr.lookupOperation_internAll, ← hcanonical]
  unfold Trigger.Names
  cases t.lookupOperation trigger.name.name automaton
      (trigger.argumentTypes.map (List.map TypeExpr.canonicalName)) with
  | found id =>
    refine (inTurn_pure id).congr fun id' => ?_
    rw [OperationLookup.found.injEq]
  | notFound => exact (inTurn_fail _ _ _).congr fun id' => by simp
  | ambiguous ids => exact (inTurn_fail _ _ _).congr fun id' => by simp

end SyntaxTree

end LibraryContract
