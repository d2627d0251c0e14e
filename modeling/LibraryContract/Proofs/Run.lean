import LibraryContract.Proofs.Isolation
import LibraryContract.Proofs.Step

/-!
# Pieces of work in a row

An analysis settles one piece of work after another. What every piece keeps, the analysis keeps
(`within_performAll`, `within_collect`); and since diagnostics are never taken back, an analysis
that ends without an error has done each piece cleanly, one after the other
(`clean_performAll`, `clean_collect`): it has run the list of pieces as one program.

The phases of an analysis get names of their own (`withTypes`, …, `withSignatures`), so that
statements can speak of the table between two phases; `analyze_eq` puts them together again.
-/

namespace LibraryContract

namespace Run

variable {α β : Type} {S : SymbolTable → SymbolTable → Prop}

/-- No error has been reported so far. -/
def Faultless (r : Run) : Prop := r.diagnostics.hasErrors = false

theorem table_settle (step : Build α) (r : Run) :
    (r.settle step).2.table = (step.run r.table).2 := by
  simp only [settle]
  split <;> rfl

theorem settle_eq_some {step : Build α} {r : Run} {a : α} :
    (r.settle step).1 = some a ↔ step.Yields r.table a (r.settle step).2.table := by
  rw [table_settle, Build.Yields, and_iff_left rfl]
  simp only [settle]
  split <;> rename_i h <;> simp [h]

theorem within_settle {step : Build α} {r : Run} (h : step.Within S r.table) :
    Relation.ReflTransGen S r.table (r.settle step).2.table := by
  rw [table_settle]
  exact h

theorem settle_map (g : α → β) (b : Build α) (r : Run) :
    r.settle (g <$> b) = ((r.settle b).1.map g, (r.settle b).2) := by
  have hrun : (g <$> b).run r.table = (Build.bind b fun a => Build.pure (g a)).run r.table :=
    congrArg (fun c : Build β => c.run r.table) (bind_pure_comp g b).symm
  unfold settle
  rw [hrun]
  rcases hb : b.run r.table with ⟨⟨(_ | m) | a, ds⟩, u⟩ <;> simp [Build.bind, Build.pure, hb]

/-- A faultless piece of work has come to its end, after a faultless past. -/
theorem clean_settle {step : Build α} {r : Run} (hs : step.Candid)
    (h : (r.settle step).2.Faultless) :
    r.Faultless ∧ ∃ a, (r.settle step).1 = some a ∧
      step.Clean r.table a (r.settle step).2.table := by
  have hc := hs r.table
  rw [table_settle]
  unfold settle at h ⊢
  rcases hr : step.run r.table with ⟨⟨(_ | m) | a, ds⟩, u⟩
  · rw [hr] at hc
    have hd : ds.hasErrors = true := hc rfl
    simp [hr, Faultless, Diagnostics.hasErrors_append, hd] at h
  · simp [hr, Faultless, Diagnostics.hasErrors, Diagnostic.error, Diagnostic.isError] at h
  · simp only [hr, Faultless, Diagnostics.hasErrors_append, Bool.or_eq_false_iff] at h
    refine ⟨h.1, a, rfl, ⟨?_, ?_⟩, ?_⟩
    · rw [hr]
    · rw [hr]
    · rw [hr]
      exact h.2

theorem within_performAll {step : α → Build β} {items : List α}
    (h : ∀ a ∈ items, ∀ t, (step a).Within S t) (r : Run) :
    Relation.ReflTransGen S r.table (r.performAll step items).table := by
  induction items generalizing r with
  | nil => exact .refl
  | cons a rest ih =>
    have ha : Relation.ReflTransGen S r.table (r.perform (step a)).table :=
      within_settle (h a List.mem_cons_self r.table)
    exact ha.trans (ih (fun b hb => h b (List.mem_cons_of_mem a hb)) _)

theorem clean_performAll {step : α → Build β} (hs : ∀ a, (step a).Candid) {items : List α} {r : Run}
    (h : (r.performAll step items).Faultless) :
    r.Faultless ∧ ∃ bs, (items.mapM step).Clean r.table bs (r.performAll step items).table := by
  induction items generalizing r with
  | nil => exact ⟨h, [], by simp [performAll]⟩
  | cons a rest ih =>
    obtain ⟨hp, bs, hbs⟩ := ih (r := r.perform (step a)) h
    obtain ⟨hr, b, -, hb⟩ := clean_settle (hs a) hp
    exact ⟨hr, b :: bs, Build.clean_mapM_cons.mpr ⟨b, _, bs, hb, hbs, rfl⟩⟩

theorem mem_diagnostics_settle {r : Run} {x : Diagnostic} (hx : x.kind ≠ .malformedTree)
    {step : Build α} : x ∈ (r.settle step).2.diagnostics ↔
      x ∈ r.diagnostics ∨ x ∈ (step.run r.table).1.diagnostics := by
  unfold settle
  rcases hrun : step.run r.table with ⟨⟨(_ | m) | a, ds⟩, u⟩
  · exact List.mem_append
  · have hplace : x ≠ .error .malformedTree m.message m.span := by
      rintro rfl
      exact hx rfl
    simp [hplace]
  · exact List.mem_append

theorem table_performAll_of_stays {r : Run} {step : α → Build β} {items : List α}
    (h : ∀ a ∈ items, ((step a).run r.table).2 = r.table) :
    (r.performAll step items).table = r.table := by
  induction items generalizing r with
  | nil => rfl
  | cons a rest ih =>
    obtain ⟨ha, hrest⟩ := List.forall_mem_cons.mp h
    have htable : (r.perform (step a)).table = r.table := (table_settle _ _).trans ha
    exact (ih (r := r.perform (step a)) (by rw [htable]; exact hrest)).trans htable

/-- When no piece of work changes the table, each does what it does in the first one. -/
theorem mem_diagnostics_performAll {r : Run} {x : Diagnostic} (hx : x.kind ≠ .malformedTree)
    {step : α → Build β} {items : List α} (h : ∀ a ∈ items, ((step a).run r.table).2 = r.table) :
    x ∈ (r.performAll step items).diagnostics ↔
      x ∈ r.diagnostics ∨ ∃ a ∈ items, x ∈ ((step a).run r.table).1.diagnostics := by
  induction items generalizing r with
  | nil => simp [performAll]
  | cons a rest ih =>
    obtain ⟨ha, hrest⟩ := List.forall_mem_cons.mp h
    have htable : (r.perform (step a)).table = r.table := (table_settle _ _).trans ha
    have hfirst : x ∈ (r.perform (step a)).diagnostics ↔ _ := mem_diagnostics_settle hx
    have hothers := ih (r := r.perform (step a)) (by rw [htable]; exact hrest)
    rw [htable, hfirst, or_assoc] at hothers
    rw [List.exists_mem_cons_iff]
    exact hothers

theorem collect_cons (step : α → Build β) (a : α) (rest : List α) (r : Run) :
    r.collect step (a :: rest) =
      ((r.settle (step a)).1.toList ++ ((r.settle (step a)).2.collect step rest).1,
        ((r.settle (step a)).2.collect step rest).2) := rfl

/-- Work that gives other values is done in the same way. -/
theorem collect_map {γ δ : Type} {step : α → Build β} {step' : γ → Build δ} {f : α → γ} {g : β → δ}
    (h : ∀ a, step' (f a) = g <$> step a) (items : List α) (r : Run) :
    r.collect step' (items.map f) = ((r.collect step items).1.map g, (r.collect step items).2) := by
  induction items generalizing r with
  | nil => rfl
  | cons a rest ih =>
    rw [List.map_cons, collect_cons, collect_cons, h, settle_map, ih, List.map_append]
    cases (r.settle (step a)).1 <;> rfl

theorem within_collect {step : α → Build β} {items : List α}
    (h : ∀ a ∈ items, ∀ t, (step a).Within S t) (r : Run) :
    Relation.ReflTransGen S r.table (r.collect step items).2.table := by
  induction items generalizing r with
  | nil => exact .refl
  | cons a rest ih =>
    rw [collect_cons]
    have ha : Relation.ReflTransGen S r.table (r.settle (step a)).2.table :=
      within_settle (h a List.mem_cons_self r.table)
    exact ha.trans (ih (fun b hb => h b (List.mem_cons_of_mem a hb)) _)

theorem clean_collect {step : α → Build β} (hs : ∀ a, (step a).Candid) {items : List α} {r : Run}
    (h : (r.collect step items).2.Faultless) :
    r.Faultless ∧
      (items.mapM step).Clean r.table (r.collect step items).1 (r.collect step items).2.table := by
  induction items generalizing r with
  | nil => exact ⟨h, by simp [collect]⟩
  | cons a rest ih =>
    rw [collect_cons] at h ⊢
    obtain ⟨hp, hbs⟩ := ih h
    obtain ⟨hr, b, hb, hc⟩ := clean_settle (hs a) hp
    refine ⟨hr, Build.clean_mapM_cons.mpr ⟨b, _, _, hc, hbs, ?_⟩⟩
    simp [hb]

theorem collect_forall {step : α → Build β} {items : List α} {r : Run} {P : β → Prop}
    (h : ∀ a ∈ items, ∀ t b u, (step a).Yields t b u → P b) :
    ∀ b ∈ (r.collect step items).1, P b := by
  induction items generalizing r with
  | nil => simp [collect]
  | cons a rest ih =>
    rw [collect_cons]
    intro b hb
    rcases List.mem_append.mp hb with hb | hb
    · rw [Option.mem_toList] at hb
      exact h a List.mem_cons_self _ b _ (settle_eq_some.mp hb)
    · exact ih (fun a' ha' => h a' (List.mem_cons_of_mem a ha')) b hb

/-- What holds of the items so far, of a list and of a table stays true when each piece of work that
succeeds adds to the list, and each that fails leaves the list alone. -/
theorem collect_history {step : α → Build β} {I : List α → List β → SymbolTable → Prop}
    {items : List α}
    (hyield : ∀ a ∈ items, ∀ done bs t b u, I done bs t → (step a).Yields t b u →
      I (done ++ [a]) (bs ++ [b]) u)
    (hfail : ∀ a ∈ items, ∀ done bs t e, I done bs t → ((step a).run t).1.result = .error e →
      I (done ++ [a]) bs ((step a).run t).2) {r : Run} (done : List α) (bs : List β)
    (h : I done bs r.table) :
    I (done ++ items) (bs ++ (r.collect step items).1) (r.collect step items).2.table := by
  induction items generalizing r done bs with
  | nil => simpa [collect] using h
  | cons a rest ih =>
    rw [collect_cons]
    have hyield' := fun b (hb : b ∈ rest) => hyield b (List.mem_cons_of_mem a hb)
    have hfail' := fun b (hb : b ∈ rest) => hfail b (List.mem_cons_of_mem a hb)
    cases hs : (r.settle (step a)).1 with
    | some b =>
      have hb := hyield a List.mem_cons_self done bs _ b _ h (settle_eq_some.mp hs)
      simpa using ih hyield' hfail' _ _ hb
    | none =>
      have he : ∃ e, ((step a).run r.table).1.result = .error e := by
        cases hr : ((step a).run r.table).1.result with
        | error e => exact ⟨e, rfl⟩
        | ok b =>
          have hsome : (r.settle (step a)).1 = some b :=
            settle_eq_some.mpr ⟨hr, (table_settle _ _).symm⟩
          rw [hs] at hsome
          cases hsome
      obtain ⟨e, he⟩ := he
      have hb := hfail a List.mem_cons_self done bs _ e h he
      rw [← table_settle] at hb
      simpa using ih hyield' hfail' _ _ hb

/-- The same for what does not depend on the items. -/
theorem collect_invariant {step : α → Build β} {I : List β → SymbolTable → Prop} {items : List α}
    (hyield : ∀ a ∈ items, ∀ bs t b u, I bs t → (step a).Yields t b u → I (bs ++ [b]) u)
    (hfail : ∀ a ∈ items, ∀ bs t e, I bs t → ((step a).run t).1.result = .error e →
      I bs ((step a).run t).2) {r : Run} {bs : List β} (h : I bs r.table) :
    I (bs ++ (r.collect step items).1) (r.collect step items).2.table :=
  collect_history (I := fun _ => I) (fun a ha _ => hyield a ha) (fun a ha _ => hfail a ha) [] bs h

/-! ## Phases -/

/-- The types are registered. -/
def withTypes (library : SyntaxTree.Library) : Run := start.registerTypes library.types

/-- The annotations are registered too. -/
def withAnnotations (library : SyntaxTree.Library) : Run :=
  (withTypes library).registerAnnotations library.annotations

/-- The global variables are registered too; their values are still pending. -/
def withGlobals (library : SyntaxTree.Library) : List PendingInitializer × Run :=
  (withAnnotations library).registerGlobals library.globals

/-- The automata are registered too. -/
def withAutomata (library : SyntaxTree.Library) : List PendingAutomaton × Run :=
  (withGlobals library).2.registerAutomata library.automata

/-- The operations are registered too. -/
def withSignatures (options : Options) (library : SyntaxTree.Library) :
    List PendingOperation × Run :=
  (withAutomata library).2.registerSignatures options (withAutomata library).1 library.functions

/-- The values of the global variables have been looked at. -/
def withInitials (options : Options) (library : SyntaxTree.Library) : Run :=
  (withSignatures options library).2.performAll (PendingInitializer.elaborate .global)
    (withGlobals library).1

/-- The automata have their values and shifts. -/
def withShifts (options : Options) (library : SyntaxTree.Library) : Run :=
  (withAutomata library).1.foldl elaborateAutomaton (withInitials options library)

theorem analyze_eq (options : Options) (library : SyntaxTree.Library) :
    analyze options library =
      (withShifts options library).performAll (fun o => o.declaration.elaborate o.id)
        (withSignatures options library).1 := rfl

end Run

namespace Session

/-- A library comes out of an analysis unless its tree is malformed. -/
theorem analyze_eq_ok {s : Session} {library : SyntaxTree.Library} {l : Library} :
    (s.analyze library).1 = .ok l ↔
      (Run.analyze s.options library).malformed = none ∧
        l = .ofTree library (Run.analyze s.options library).table := by
  rw [analyze_fst]
  cases (Run.analyze s.options library).malformed <;> simp [eq_comm]

/-- A library comes out of a compilation when no error has been reported. -/
theorem compile_eq_ok {options : Options} {library : SyntaxTree.Library} {l : Library}
    (h : ((start options).compile library).1 = .ok l) :
    (Run.analyze options library).Faultless ∧
      l = .ofTree library (Run.analyze options library).table := by
  obtain ⟨hl, hfaultless⟩ := compile_eq_ok_iff.mp h
  rw [diagnostics_analyze_start] at hfaultless
  exact ⟨hfaultless, (analyze_eq_ok.mp hl).2⟩

end Session

/-! ## Small libraries -/

/-- A place on a line. -/
def Span.onLine (line : UInt64) : Span := ⟨line, 1, line, 9⟩

namespace SyntaxTree

/-- A name on a line. -/
def Identifier.onLine (name : String) (line : UInt64) : Identifier := ⟨name, .onLine line⟩

/-- A type that is named on a line. -/
def TypeExpr.onLine (name : String) (line : UInt64) : TypeExpr := .named (.onLine name line)

/-- A library that says nothing about itself but its name. -/
def Library.ofDeclarations (name : String) (declarations : List Declaration) : Library where
  name := .onLine name 1
  lslVersion := none
  libraryVersion := none
  language := none
  url := none
  imports := []
  includes := []
  declarations := declarations

end SyntaxTree

end LibraryContract
