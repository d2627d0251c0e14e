import LibraryContract.Analysis.Step
import Mathlib.Data.List.Forall2
import Mathlib.Logic.Relation

/-!
# How steps end

The steps of an analysis are programs in two small monads, and every statement about an analysis is
put together from statements about its steps. Four of them are enough:

* `Check.Yields`, `Build.Yields`: the step ends with this value, and leaves this table;
* `Build.Within`: whatever the step does, it changes the table only in the ways that a relation
  allows, one change after the other;
* `Check.Candid`, `Build.Candid`: a step that gives up on a semantic error has reported an error;
* `Build.Clean`: the step ends with a value and has found no error on the way.

Each comes with one lemma for each way of building a step. A candid step that is attempted inside
a clean one did not fail (`Build.clean_attempt`), so a clean step has done all its work.
-/

namespace LibraryContract

variable {α β : Type}

namespace Check

variable {t : SymbolTable}

/-- The step ends with the value `a`. -/
def Yields (c : Check α) (t : SymbolTable) (a : α) : Prop := (c.run t).result = .ok a

theorem Yields.unique {c : Check α} {a b : α} (h : c.Yields t a) (h' : c.Yields t b) : a = b :=
  Except.ok.inj (h.symm.trans h')

@[simp] theorem yields_pure {a b : α} : (Pure.pure a : Check α).Yields t b ↔ a = b := by
  show (Except.ok a : Except Abort α) = .ok b ↔ a = b
  simp

@[simp] theorem yields_bind {c : Check α} {f : α → Check β} {b : β} :
    (c >>= f).Yields t b ↔ ∃ a, c.Yields t a ∧ (f a).Yields t b := by
  show ((bind c f).run t).result = .ok b ↔ _
  cases h : (c.run t).result with
  | error e => simp [run_bind_of_error h, Yields, h]
  | ok a => simp [run_bind_of_ok h, Yields, h]

theorem run_look_bind (f : SymbolTable → α) (g : α → Check β) (t : SymbolTable) :
    (look f >>= g).run t = (g (f t)).run t :=
  run_bind_of_ok (a := f t) rfl

theorem run_map (c : Check α) (f : α → β) (t : SymbolTable) :
    (c >>= fun a => (Pure.pure (f a) : Check β)).run t =
      ⟨(c.run t).result.map f, (c.run t).diagnostics⟩ := by
  show (bind c fun a => pure (f a)).run t = _
  cases h : (c.run t).result with
  | error e => exact run_bind_of_error h
  | ok a => simp [run_bind_of_ok h, pure, Except.map]

@[simp] theorem yields_look {f : SymbolTable → α} {a : α} : (look f).Yields t a ↔ f t = a := by
  simp [look, Yields]

@[simp] theorem yields_fail {kind : DiagnosticKind} {message : String} {span : Span} {a : α} :
    (fail kind message span : Check α).Yields t a ↔ False := by
  simp [fail, Yields]

@[simp] theorem yields_reject {message : String} {span : Span} {a : α} :
    (reject message span : Check α).Yields t a ↔ False := by
  simp [reject, Yields]

@[simp] theorem yields_warn {kind : DiagnosticKind} {message : String} {span : Span} {a : Unit} :
    (warn kind message span).Yields t a ↔ True := by
  simp [warn, Yields]

@[simp] theorem yields_both {c : Check α} {d : Check β} {p : α × β} :
    (both c d).Yields t p ↔ c.Yields t p.1 ∧ d.Yields t p.2 := by
  obtain ⟨a, b⟩ := p
  simp only [both, Yields]
  generalize (c.run t).result = x
  generalize (d.run t).result = y
  rcases x with (_ | m) | x <;> rcases y with (_ | n) | y <;> simp [pair]

@[simp] theorem yields_ite {p : Prop} [Decidable p] {c d : Check α} {a : α} :
    (if p then c else d).Yields t a ↔ if p then c.Yields t a else d.Yields t a := by
  split <;> rfl

/-- A list of steps ends with the values of its members. -/
theorem yields_mapM {f : α → Check β} {items : List α} {values : List β} :
    (items.mapM f).Yields t values ↔ List.Forall₂ (fun a b => (f a).Yields t b) items values := by
  induction items generalizing values with
  | nil => simp [eq_comm]
  | cons a rest ih =>
    simp only [List.mapM_cons, yields_bind, yields_pure, List.forall₂_cons_left_iff, ih]
    constructor
    · rintro ⟨b, hb, bs, hbs, rfl⟩
      exact ⟨b, bs, hb, hbs, rfl⟩
    · rintro ⟨b, bs, hb, hbs, rfl⟩
      exact ⟨b, hb, bs, hbs, rfl⟩

/-- A step that gives up on a semantic error has reported an error. -/
def Candid (c : Check α) : Prop :=
  ∀ t, (c.run t).result = .error .reported → (c.run t).diagnostics.hasErrors = true

theorem candid_pure (a : α) : (Pure.pure a : Check α).Candid := by
  intro t h
  cases h

theorem candid_bind {c : Check α} {f : α → Check β} (hc : c.Candid) (hf : ∀ a, (f a).Candid) :
    (c >>= f).Candid := by
  intro t
  show ((bind c f).run t).result = _ → ((bind c f).run t).diagnostics.hasErrors = true
  cases h : (c.run t).result with
  | error e =>
    rw [run_bind_of_error h]
    intro he
    cases he
    exact hc t h
  | ok a =>
    rw [run_bind_of_ok h]
    intro he
    rw [Diagnostics.hasErrors_append, hf a t he, Bool.or_true]

theorem candid_look (f : SymbolTable → α) : (look f).Candid := by
  intro t h
  cases h

theorem candid_fail (kind : DiagnosticKind) (message : String) (span : Span) :
    (fail kind message span : Check α).Candid := by
  intro t _
  rfl

theorem candid_reject (message : String) (span : Span) :
    (reject message span : Check α).Candid := by
  intro t h
  cases h

theorem candid_warn (kind : DiagnosticKind) (message : String) (span : Span) :
    (warn kind message span).Candid := by
  intro t h
  cases h

theorem candid_both {c : Check α} {d : Check β} (hc : c.Candid) (hd : d.Candid) :
    (both c d).Candid := by
  intro t h
  simp only [both, Diagnostics.hasErrors_append, Bool.or_eq_true] at h ⊢
  have hc := hc t
  have hd := hd t
  generalize (c.run t).result = x at h hc
  generalize (d.run t).result = y at h hd
  rcases x with (_ | m) | x
  · exact Or.inl (hc rfl)
  · cases h
  · rcases y with (_ | n) | y
    · exact Or.inr (hd rfl)
    · cases h
    · cases h

theorem candid_ite {p : Prop} [Decidable p] {c d : Check α} (hc : c.Candid) (hd : d.Candid) :
    (if p then c else d).Candid := by
  split
  · exact hc
  · exact hd

end Check

namespace Build

variable {t u : SymbolTable}

/-! ## Values and tables -/

/-- The step ends with the value `a` and leaves the table `u`. -/
def Yields (b : Build α) (t : SymbolTable) (a : α) (u : SymbolTable) : Prop :=
  (b.run t).1.result = .ok a ∧ (b.run t).2 = u

theorem Yields.unique {b : Build α} {a c : α} {v : SymbolTable} (h : b.Yields t a u)
    (h' : b.Yields t c v) : a = c ∧ u = v :=
  ⟨Except.ok.inj (h.1.symm.trans h'.1), h.2.symm.trans h'.2⟩

@[simp] theorem yields_pure {a b : α} :
    (Pure.pure a : Build α).Yields t b u ↔ a = b ∧ t = u := by
  show (Except.ok a : Except Abort α) = .ok b ∧ t = u ↔ _
  simp

@[simp] theorem yields_bind {b : Build α} {f : α → Build β} {c : β} :
    (b >>= f).Yields t c u ↔ ∃ a s, b.Yields t a s ∧ (f a).Yields s c u := by
  show ((bind b f).run t).1.result = .ok c ∧ ((bind b f).run t).2 = u ↔ _
  cases h : (b.run t).1.result with
  | error e => simp [run_bind_of_error h, Yields, h]
  | ok a => simp [run_bind_of_ok h, Yields, h]

@[simp] theorem yields_ofCheck {c : Check α} {a : α} :
    (ofCheck c).Yields t a u ↔ c.Yields t a ∧ t = u := Iff.rfl

@[simp] theorem yields_liftM {c : Check α} {a : α} :
    (liftM c : Build α).Yields t a u ↔ c.Yields t a ∧ t = u := Iff.rfl

theorem run_look_bind (f : SymbolTable → α) (g : α → Build β) (t : SymbolTable) :
    ((liftM (Check.look f) : Build α) >>= g).run t = (g (f t)).run t := by
  refine (run_bind_of_ok (b := liftM (Check.look f)) (a := f t) rfl).trans ?_
  rfl

theorem run_modify_bind (f : SymbolTable → SymbolTable) (b : Build α) (t : SymbolTable) :
    (modify f >>= fun _ => b).run t = b.run (f t) := rfl

/-- After a step that finds nothing, the next one runs as if it were the first. -/
theorem run_bind_of_silent {b : Build α} {f : α → Build β} {a : α}
    (h : b.run t = (⟨.ok a, []⟩, u)) : (b >>= f).run t = (f a).run u := by
  refine (run_bind_of_ok (b := b) (a := a) (by rw [h])).trans ?_
  rw [h]
  rfl

/-- After a step that gives up, nothing more is done. -/
theorem run_bind_of_abort {b : Build α} {f : α → Build β} {e : Abort} {ds : Diagnostics}
    (h : b.run t = (⟨.error e, ds⟩, u)) : (b >>= f).run t = (⟨.error e, ds⟩, u) := by
  refine (run_bind_of_error (b := b) (e := e) (by rw [h])).trans ?_
  rw [h]

@[simp] theorem yields_modify {f : SymbolTable → SymbolTable} {a : Unit} :
    (modify f).Yields t a u ↔ f t = u := by
  simp [modify, Yields]

@[simp] theorem yields_note {kind : DiagnosticKind} {message : String} {span : Span} {a : Unit} :
    (note kind message span).Yields t a u ↔ t = u := by
  simp [note, Yields]

@[simp] theorem yields_register {f : SymbolTable → Except RegistrationError (α × SymbolTable)}
    {span : Span} {a : α} : (register f span).Yields t a u ↔ f t = .ok (a, u) := by
  simp only [register, Yields]
  rcases f t with e | ⟨b, v⟩ <;> simp

@[simp] theorem yields_registerUnit {f : SymbolTable → Except RegistrationError SymbolTable}
    {span : Span} {a : Unit} : (registerUnit f span).Yields t a u ↔ f t = .ok u := by
  rw [registerUnit, yields_register]
  cases f t <;> simp [Except.map]

@[simp] theorem yields_ite {p : Prop} [Decidable p] {b c : Build α} {a : α} :
    (if p then b else c).Yields t a u ↔ if p then b.Yields t a u else c.Yields t a u := by
  split <;> rfl

theorem yields_attempt_some {b : Build α} {a : α} :
    b.attempt.Yields t (some a) u ↔ b.Yields t a u := by
  simp only [attempt, Yields]
  rcases b.run t with ⟨⟨(_ | m) | x, ds⟩, v⟩ <;> simp

theorem yields_attempt_none {b : Build α} :
    b.attempt.Yields t none u ↔ (b.run t).1.result = .error .reported ∧ (b.run t).2 = u := by
  simp only [attempt, Yields]
  rcases b.run t with ⟨⟨(_ | m) | x, ds⟩, v⟩ <;> simp

@[simp] theorem yields_mapM_nil {f : α → Build β} {values : List β} :
    (([] : List α).mapM f).Yields t values u ↔ values = [] ∧ t = u := by
  rw [List.mapM_nil, yields_pure, eq_comm]

@[simp] theorem yields_mapM_cons {f : α → Build β} {a : α} {rest : List α} {values : List β} :
    ((a :: rest).mapM f).Yields t values u ↔
      ∃ b s bs, (f a).Yields t b s ∧ (rest.mapM f).Yields s bs u ∧ values = b :: bs := by
  simp only [List.mapM_cons, yields_bind, yields_pure]
  constructor
  · rintro ⟨b, s, hb, bs, v, hbs, rfl, rfl⟩
    exact ⟨b, s, bs, hb, hbs, rfl⟩
  · rintro ⟨b, s, bs, hb, hbs, rfl⟩
    exact ⟨b, s, hb, bs, u, hbs, rfl, rfl⟩

theorem yields_mapM_liftM {f : α → Check β} {items : List α} {values : List β} :
    (items.mapM fun a => (liftM (f a) : Build β)).Yields t values u ↔
      List.Forall₂ (fun a b => (f a).Yields t b) items values ∧ t = u := by
  induction items generalizing values with
  | nil => simp [List.forall₂_nil_left_iff]
  | cons a rest ih =>
    simp only [yields_mapM_cons, yields_liftM, List.forall₂_cons_left_iff]
    constructor
    · rintro ⟨b, _, bs, ⟨hb, rfl⟩, hbs, rfl⟩
      obtain ⟨hrest, rfl⟩ := ih.mp hbs
      exact ⟨⟨b, bs, hb, hrest, rfl⟩, rfl⟩
    · rintro ⟨⟨b, bs, hb, hbs, rfl⟩, rfl⟩
      exact ⟨b, t, bs, ⟨hb, rfl⟩, ih.mpr ⟨hbs, rfl⟩, rfl⟩

@[simp] theorem yields_optionMapM {f : α → Build β} {item : Option α} {value : Option β} :
    (item.mapM f).Yields t value u ↔
      (item = none ∧ value = none ∧ t = u) ∨
        ∃ a b, item = some a ∧ value = some b ∧ (f a).Yields t b u := by
  cases item with
  | none =>
    show (Pure.pure none : Build (Option β)).Yields t value u ↔ _
    simp [eq_comm]
  | some a =>
    show ((f a) >>= fun b => Pure.pure (some b)).Yields t value u ↔ _
    simp only [yields_bind, yields_pure]
    constructor
    · rintro ⟨b, s, hb, rfl, rfl⟩
      exact Or.inr ⟨a, b, rfl, rfl, hb⟩
    · rintro (⟨h, -⟩ | ⟨a', b, h, rfl, hb⟩)
      · cases h
      · cases h
        exact ⟨b, u, hb, rfl, rfl⟩

/-! ## Changes -/

/-- The step changes the table only by changes of the kind `S`, if at all. This holds also of what
a step did before it gave up. -/
def Within (S : SymbolTable → SymbolTable → Prop) (b : Build α) (t : SymbolTable) : Prop :=
  Relation.ReflTransGen S t (b.run t).2

variable {S : SymbolTable → SymbolTable → Prop}

theorem Yields.reaches {b : Build α} {a : α} (h : b.Yields t a u) (hb : b.Within S t) :
    Relation.ReflTransGen S t u := h.2 ▸ hb

theorem within_pure (a : α) : (Pure.pure a : Build α).Within S t := .refl

theorem within_bind {b : Build α} {f : α → Build β} (hb : b.Within S t)
    (hf : ∀ a u, b.Yields t a u → (f a).Within S u) : (b >>= f).Within S t := by
  show Relation.ReflTransGen S t ((bind b f).run t).2
  cases h : (b.run t).1.result with
  | error e =>
    rw [run_bind_of_error h]
    exact hb
  | ok a =>
    rw [run_bind_of_ok h]
    exact hb.trans (hf a _ ⟨h, rfl⟩)

theorem within_liftM (c : Check α) : (liftM c : Build α).Within S t := .refl

theorem within_ofCheck (c : Check α) : (ofCheck c).Within S t := .refl

theorem within_modify {f : SymbolTable → SymbolTable} (h : S t (f t)) : (modify f).Within S t :=
  .single h

theorem within_note (kind : DiagnosticKind) (message : String) (span : Span) :
    (note kind message span).Within S t := .refl

theorem within_register {f : SymbolTable → Except RegistrationError (α × SymbolTable)} {span : Span}
    (h : ∀ a u, f t = .ok (a, u) → S t u) : (register f span).Within S t := by
  simp only [Within, register]
  rcases hf : f t with e | ⟨a, u⟩
  · exact .refl
  · exact .single (h a u hf)

theorem within_register_bind {f : SymbolTable → Except RegistrationError (α × SymbolTable)}
    {span : Span} {g : α → Build β}
    (h : ∀ a u, f t = .ok (a, u) → Relation.ReflTransGen S t ((g a).run u).2) :
    (register f span >>= g).Within S t := by
  show Relation.ReflTransGen S t ((bind (register f span) g).run t).2
  rcases hf : f t with e | ⟨a, u⟩
  · simp only [bind, register, hf]
    exact .refl
  · simp only [bind, register, hf]
    exact h a u hf

theorem within_registerUnit {f : SymbolTable → Except RegistrationError SymbolTable} {span : Span}
    (h : ∀ u, f t = .ok u → S t u) : (registerUnit f span).Within S t := by
  refine within_register fun a u hu => h u ?_
  cases hf : f t with
  | error e =>
    rw [hf] at hu
    cases hu
  | ok v =>
    rw [hf] at hu
    cases hu
    rfl

theorem within_attempt {b : Build α} (hb : b.Within S t) : b.attempt.Within S t := by
  unfold Within attempt at *
  rcases h : b.run t with ⟨⟨(_ | m) | x, ds⟩, v⟩ <;> simpa [h] using hb

theorem within_ite {p : Prop} [Decidable p] {b c : Build α} (hb : p → b.Within S t)
    (hc : ¬p → c.Within S t) : (if p then b else c).Within S t := by
  split
  · rename_i h
    exact hb h
  · rename_i h
    exact hc h

/-- An error may be reported first, and then nothing follows. -/
theorem within_guard {p : Prop} [Decidable p] {kind : DiagnosticKind} {message : String}
    {span : Span} {b : Build β} (hb : ¬p → b.Within S t) :
    (if p then (liftM (Check.fail kind message span : Check PUnit) : Build PUnit) >>= fun _ => b
      else b).Within S t := by
  refine within_ite (fun _ => within_bind (within_liftM _) fun _ u hu => ?_) hb
  exact (Check.yields_fail.mp (yields_liftM.mp hu).1).elim

theorem within_mapM {f : α → Build β} {items : List α} (hf : ∀ a ∈ items, ∀ t, (f a).Within S t)
    (t : SymbolTable) : (items.mapM f).Within S t := by
  induction items generalizing t with
  | nil => exact within_pure _
  | cons a rest ih =>
    rw [List.mapM_cons]
    refine within_bind (hf a List.mem_cons_self t) fun b u _ => ?_
    exact within_bind (ih (fun c hc => hf c (List.mem_cons_of_mem a hc)) u) fun bs v _ =>
      within_pure _

theorem within_optionMapM {f : α → Build β} (hf : ∀ a t, (f a).Within S t) (item : Option α) :
    (item.mapM f).Within S t := by
  cases item with
  | none => exact within_pure _
  | some a => exact within_bind (hf a t) fun b u _ => within_pure _

theorem Within.mono {S' : SymbolTable → SymbolTable → Prop} {b : Build α}
    (hS : ∀ t u, S t u → S' t u) (hb : b.Within S t) : b.Within S' t :=
  Relation.ReflTransGen.mono hS _ _ hb

/-- A step that gives up has changed the table only by changes of the kind `S`. -/
def GivesUpWithin (S : SymbolTable → SymbolTable → Prop) (b : Build α) (t : SymbolTable) : Prop :=
  ∀ e, (b.run t).1.result = .error e → Relation.ReflTransGen S t (b.run t).2

theorem givesUpWithin_bind {b : Build α} {f : α → Build β} (hb : b.Within S t)
    (hf : ∀ a u, b.Yields t a u → (f a).GivesUpWithin S u) : (b >>= f).GivesUpWithin S t := by
  show ∀ e, ((bind b f).run t).1.result = .error e → Relation.ReflTransGen S t ((bind b f).run t).2
  intro e he
  cases h : (b.run t).1.result with
  | error e' =>
    rw [run_bind_of_error h]
    exact hb
  | ok a =>
    rw [run_bind_of_ok h] at he ⊢
    exact hb.trans (hf a _ ⟨h, rfl⟩ e he)

theorem givesUpWithin_guard {p : Prop} [Decidable p] {kind : DiagnosticKind} {message : String}
    {span : Span} {b : Build β} (hb : b.GivesUpWithin S t) :
    (if p then (liftM (Check.fail kind message span : Check PUnit) : Build PUnit) >>= fun _ => b
      else b).GivesUpWithin S t := by
  split
  · refine givesUpWithin_bind (within_liftM _) fun _ u hu => ?_
    exact (Check.yields_fail.mp (yields_liftM.mp hu).1).elim
  · exact hb

/-- What comes after the only step that can give up may change more. -/
theorem givesUpWithin_bind_of_total {b : Build α} {f : α → Build β} (hb : b.GivesUpWithin S t)
    (hf : ∀ a u e, ((f a).run u).1.result ≠ .error e) : (b >>= f).GivesUpWithin S t := by
  show ∀ e, ((bind b f).run t).1.result = .error e → Relation.ReflTransGen S t ((bind b f).run t).2
  intro e he
  cases h : (b.run t).1.result with
  | error e' =>
    rw [run_bind_of_error h]
    exact hb e' h
  | ok a =>
    rw [run_bind_of_ok h] at he
    exact (hf a _ e he).elim

theorem givesUpWithin_register (f : SymbolTable → Except RegistrationError (α × SymbolTable))
    (span : Span) : (register f span).GivesUpWithin S t := by
  intro e
  simp only [register]
  rcases f t with e' | ⟨a, u⟩
  · exact fun _ => .refl
  · intro he
    cases he

/-- What an attempt that succeeds does may be part of a larger change. -/
theorem within_attempt_bind {b : Build α} {f : Option α → Build β} (hb : b.GivesUpWithin S t)
    (hsome : ∀ a u, b.Yields t a u → Relation.ReflTransGen S t ((f (some a)).run u).2)
    (hnone : ∀ u, b.attempt.Yields t none u → (f none).Within S u) :
    (b.attempt >>= f).Within S t := by
  show Relation.ReflTransGen S t ((bind b.attempt f).run t).2
  have hgivesUp := fun e => hb e
  rcases hr : b.run t with ⟨⟨(_ | m) | a, ds⟩, u⟩
  · have hattempt : b.attempt.run t = (⟨.ok none, ds⟩, u) := by simp only [attempt, hr]
    rw [hr] at hgivesUp
    have hyields : b.attempt.Yields t none u := by
      rw [Yields, hattempt]
      exact ⟨rfl, rfl⟩
    rw [run_bind_of_ok (a := none) (by rw [hattempt]), hattempt]
    exact (hgivesUp _ rfl).trans (hnone u hyields)
  · have hattempt : b.attempt.run t = (⟨.error (.malformed m), ds⟩, u) := by simp only [attempt, hr]
    rw [hr] at hgivesUp
    rw [run_bind_of_error (e := .malformed m) (by rw [hattempt]), hattempt]
    exact hgivesUp _ rfl
  · have hattempt : b.attempt.run t = (⟨.ok (some a), ds⟩, u) := by simp only [attempt, hr]
    have hyields : b.Yields t a u := by
      rw [Yields, hr]
      exact ⟨rfl, rfl⟩
    rw [run_bind_of_ok (a := some a) (by rw [hattempt]), hattempt]
    exact hsome a u hyields

/-! ## Errors -/

/-- A step that gives up on a semantic error has reported an error. -/
def Candid (b : Build α) : Prop :=
  ∀ t, (b.run t).1.result = .error .reported → (b.run t).1.diagnostics.hasErrors = true

theorem candid_pure (a : α) : (Pure.pure a : Build α).Candid := by
  intro t h
  cases h

theorem candid_bind {b : Build α} {f : α → Build β} (hb : b.Candid) (hf : ∀ a, (f a).Candid) :
    (b >>= f).Candid := by
  intro t
  show ((bind b f).run t).1.result = _ → ((bind b f).run t).1.diagnostics.hasErrors = true
  cases h : (b.run t).1.result with
  | error e =>
    rw [run_bind_of_error h]
    intro he
    cases he
    exact hb t h
  | ok a =>
    rw [run_bind_of_ok h]
    intro he
    rw [Diagnostics.hasErrors_append, hf a _ he, Bool.or_true]

theorem candid_liftM {c : Check α} (hc : c.Candid) : (liftM c : Build α).Candid := hc

theorem candid_ofCheck {c : Check α} (hc : c.Candid) : (ofCheck c).Candid := hc

theorem candid_modify (f : SymbolTable → SymbolTable) : (modify f).Candid := by
  intro t h
  cases h

theorem candid_note (kind : DiagnosticKind) (message : String) (span : Span) :
    (note kind message span).Candid := by
  intro t h
  cases h

theorem candid_register (f : SymbolTable → Except RegistrationError (α × SymbolTable))
    (span : Span) : (register f span).Candid := by
  intro t
  simp only [register]
  rcases f t with e | ⟨a, u⟩
  · intro _
    rfl
  · intro h
    cases h

theorem candid_attempt (b : Build α) : b.attempt.Candid := by
  intro t
  simp only [attempt]
  rcases b.run t with ⟨⟨(_ | m) | x, ds⟩, v⟩ <;> simp

/-! ## Clean ends -/

/-- The step ends with the value `a`, leaves the table `u` and has found no error. -/
def Clean (b : Build α) (t : SymbolTable) (a : α) (u : SymbolTable) : Prop :=
  b.Yields t a u ∧ (b.run t).1.diagnostics.hasErrors = false

theorem Clean.yields {b : Build α} {a : α} (h : b.Clean t a u) : b.Yields t a u := h.1

@[simp] theorem clean_pure {a b : α} : (Pure.pure a : Build α).Clean t b u ↔ a = b ∧ t = u := by
  rw [Clean, yields_pure, and_iff_left_iff_imp]
  intro _
  rfl

@[simp] theorem clean_bind {b : Build α} {f : α → Build β} {c : β} :
    (b >>= f).Clean t c u ↔ ∃ a s, b.Clean t a s ∧ (f a).Clean s c u := by
  show (((bind b f).run t).1.result = .ok c ∧ ((bind b f).run t).2 = u) ∧
    ((bind b f).run t).1.diagnostics.hasErrors = false ↔ _
  cases h : (b.run t).1.result with
  | error e => simp [run_bind_of_error h, Clean, Yields, h]
  | ok a =>
    simp only [run_bind_of_ok h, Clean, Yields, h, Diagnostics.hasErrors_append, Bool.or_eq_false_iff,
      Except.ok.injEq]
    constructor
    · rintro ⟨⟨hc, hu⟩, hd, he⟩
      exact ⟨a, _, ⟨⟨rfl, rfl⟩, hd⟩, ⟨hc, hu⟩, he⟩
    · rintro ⟨_, _, ⟨⟨rfl, rfl⟩, hd⟩, ⟨hc, hu⟩, he⟩
      exact ⟨⟨hc, hu⟩, hd, he⟩

theorem clean_liftM {c : Check α} {a : α} (h : (liftM c : Build α).Clean t a u) :
    c.Yields t a ∧ t = u := h.1

theorem clean_ofCheck {c : Check α} {a : α} (h : (ofCheck c).Clean t a u) :
    c.Yields t a ∧ t = u := h.1

@[simp] theorem clean_modify {f : SymbolTable → SymbolTable} {a : Unit} :
    (modify f).Clean t a u ↔ f t = u := by
  rw [Clean, yields_modify, and_iff_left_iff_imp]
  intro _
  rfl

@[simp] theorem clean_note {kind : DiagnosticKind} {message : String} {span : Span} {a : Unit} :
    (note kind message span).Clean t a u ↔ False := by
  simp [Clean, note, Diagnostics.hasErrors, Diagnostic.error, Diagnostic.isError]

@[simp] theorem clean_register {f : SymbolTable → Except RegistrationError (α × SymbolTable)}
    {span : Span} {a : α} : (register f span).Clean t a u ↔ f t = .ok (a, u) := by
  rw [Clean, yields_register, and_iff_left_iff_imp]
  intro h
  simp only [register, h]
  rfl

@[simp] theorem clean_registerUnit {f : SymbolTable → Except RegistrationError SymbolTable}
    {span : Span} {a : Unit} : (registerUnit f span).Clean t a u ↔ f t = .ok u := by
  rw [registerUnit, clean_register]
  cases f t <;> simp [Except.map]

@[simp] theorem clean_ite {p : Prop} [Decidable p] {b c : Build α} {a : α} :
    (if p then b else c).Clean t a u ↔ if p then b.Clean t a u else c.Clean t a u := by
  split <;> rfl

theorem diagnostics_attempt (b : Build α) (t : SymbolTable) :
    (b.attempt.run t).1.diagnostics = (b.run t).1.diagnostics := by
  simp only [attempt]
  rcases b.run t with ⟨⟨(_ | m) | x, ds⟩, v⟩ <;> rfl

theorem clean_attempt_some {b : Build α} {a : α} :
    b.attempt.Clean t (some a) u ↔ b.Clean t a u := by
  rw [Clean, yields_attempt_some, diagnostics_attempt, Clean]

/-- An attempt that found no error has not failed. -/
theorem clean_attempt {b : Build α} (hb : b.Candid) {o : Option α} (h : b.attempt.Clean t o u) :
    ∃ a, o = some a ∧ b.Clean t a u := by
  obtain ⟨hy, hd⟩ := h
  rw [diagnostics_attempt] at hd
  cases o with
  | none =>
    have he := hb t (yields_attempt_none.mp hy).1
    rw [hd] at he
    cases he
  | some a => exact ⟨a, rfl, yields_attempt_some.mp hy, hd⟩

@[simp] theorem clean_mapM_nil {f : α → Build β} {values : List β} :
    (([] : List α).mapM f).Clean t values u ↔ values = [] ∧ t = u := by
  rw [List.mapM_nil, clean_pure, eq_comm]

@[simp] theorem clean_mapM_cons {f : α → Build β} {a : α} {rest : List α} {values : List β} :
    ((a :: rest).mapM f).Clean t values u ↔
      ∃ b s bs, (f a).Clean t b s ∧ (rest.mapM f).Clean s bs u ∧ values = b :: bs := by
  simp only [List.mapM_cons, clean_bind, clean_pure]
  constructor
  · rintro ⟨b, s, hb, bs, v, hbs, rfl, rfl⟩
    exact ⟨b, s, bs, hb, hbs, rfl⟩
  · rintro ⟨b, s, bs, hb, hbs, rfl⟩
    exact ⟨b, s, hb, bs, u, hbs, rfl, rfl⟩

/-- What holds of the items done so far, of their values and of the table. -/
theorem clean_mapM_invariant {f : α → Build β} {I : List α → List β → SymbolTable → Prop}
    {items : List α} {values : List β}
    (hf : ∀ a ∈ items, ∀ done results t b u, I done results t → (f a).Clean t b u →
      I (done ++ [a]) (results ++ [b]) u)
    (h : (items.mapM f).Clean t values u) (ht : I [] [] t) : I items values u := by
  have hrun : ∀ rest done results values t, (∀ a ∈ rest, a ∈ items) → I done results t →
      (rest.mapM f).Clean t values u → I (done ++ rest) (results ++ values) u := by
    intro rest
    induction rest with
    | nil =>
      intro done results values t _ hI hclean
      obtain ⟨rfl, rfl⟩ := clean_mapM_nil.mp hclean
      simpa using hI
    | cons a rest ih =>
      intro done results values t hmem hI hclean
      obtain ⟨b, s, bs, hb, hbs, rfl⟩ := clean_mapM_cons.mp hclean
      have hI := hf a (hmem a List.mem_cons_self) done results t b s hI hb
      have hrest := ih _ _ _ _ (fun c hc => hmem c (List.mem_cons_of_mem a hc)) hI hbs
      simpa using hrest
  simpa using hrun items [] [] values t (fun a ha => ha) ht h

/-- What every step keeps, a list of steps keeps. -/
theorem clean_mapM_keeps {f : α → Build β} {P : SymbolTable → Prop} {items : List α}
    {values : List β} (hf : ∀ a ∈ items, ∀ t b u, P t → (f a).Clean t b u → P u)
    (h : (items.mapM f).Clean t values u) (ht : P t) : P u :=
  clean_mapM_invariant (I := fun _ _ => P) (fun a ha _ _ t b u => hf a ha t b u) h ht

/-- Steps that are run for their items give the items back. -/
theorem clean_mapM_return {f : α → Build β} {items values : List α}
    (h : (items.mapM fun a => f a >>= fun _ => Pure.pure a).Clean t values u) :
    values = items ∧ ∃ results, (items.mapM f).Clean t results u := by
  induction items generalizing t values with
  | nil =>
    obtain ⟨rfl, rfl⟩ := clean_mapM_nil.mp h
    exact ⟨rfl, [], by simp⟩
  | cons a rest ih =>
    obtain ⟨b, s, bs, hb, hbs, rfl⟩ := clean_mapM_cons.mp h
    obtain ⟨result, v, hresult, hpure⟩ := clean_bind.mp hb
    obtain ⟨rfl, rfl⟩ := clean_pure.mp hpure
    obtain ⟨rfl, results, hresults⟩ := ih hbs
    exact ⟨rfl, result :: results, clean_mapM_cons.mpr ⟨result, v, results, hresult, hresults, rfl⟩⟩

end Build

end LibraryContract
