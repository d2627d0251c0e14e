import LibraryContract.Proofs.Step

/-!
# One step in two tables

Two analyses of the same declarations in different orders take the same steps in different tables:
automata and operations have other numbers there, and arrays have been met in another order. What
makes such a step succeed must therefore be the same in both tables.

* `Check.Passes`: the step ends with this value and has found no error;
* `Check.Carries`, `Build.Carries`: whenever the one step passes in the one table, the other step
  passes in the other table, and what they leave is related.

As in `LibraryContract.Proofs.Step` there is one lemma for each way of building a step. A step that
fails carries over to every step, so only the ways to succeed have to be followed.
-/

namespace LibraryContract

variable {α β γ δ : Type} {t t' : SymbolTable}

namespace Check

/-- The step ends with the value `a` and has found no error. -/
def Passes (c : Check α) (t : SymbolTable) (a : α) : Prop :=
  c.Yields t a ∧ (c.run t).diagnostics.hasErrors = false

theorem Passes.yields {c : Check α} {a : α} (h : c.Passes t a) : c.Yields t a := h.1

@[simp] theorem passes_pure {a b : α} : (Pure.pure a : Check α).Passes t b ↔ a = b := by
  rw [Passes, yields_pure, and_iff_left_iff_imp]
  intro _
  rfl

@[simp] theorem passes_bind {c : Check α} {f : α → Check β} {b : β} :
    (c >>= f).Passes t b ↔ ∃ a, c.Passes t a ∧ (f a).Passes t b := by
  show ((bind c f).run t).result = .ok b ∧ ((bind c f).run t).diagnostics.hasErrors = false ↔ _
  cases h : (c.run t).result with
  | error e => simp [run_bind_of_error h, Passes, Yields, h]
  | ok a =>
    simp only [run_bind_of_ok h, Passes, Yields, h, Diagnostics.hasErrors_append,
      Bool.or_eq_false_iff, Except.ok.injEq]
    constructor
    · rintro ⟨hb, hc, hf⟩
      exact ⟨a, ⟨rfl, hc⟩, hb, hf⟩
    · rintro ⟨_, ⟨rfl, hc⟩, hb, hf⟩
      exact ⟨hb, hc, hf⟩

@[simp] theorem passes_look {f : SymbolTable → α} {a : α} : (look f).Passes t a ↔ f t = a := by
  rw [Passes, yields_look, and_iff_left_iff_imp]
  intro _
  rfl

@[simp] theorem passes_fail {kind : DiagnosticKind} {message : String} {span : Span} {a : α} :
    (fail kind message span : Check α).Passes t a ↔ False := by
  simp [Passes]

@[simp] theorem passes_reject {message : String} {span : Span} {a : α} :
    (reject message span : Check α).Passes t a ↔ False := by
  simp [Passes]

@[simp] theorem passes_warn {kind : DiagnosticKind} {message : String} {span : Span} {a : Unit} :
    (warn kind message span).Passes t a ↔ True := by
  rw [Passes, yields_warn, and_iff_left_iff_imp]
  intro _
  rfl

@[simp] theorem passes_both {c : Check α} {d : Check β} {p : α × β} :
    (both c d).Passes t p ↔ c.Passes t p.1 ∧ d.Passes t p.2 := by
  have hds : ((both c d).run t).diagnostics = (c.run t).diagnostics ++ (d.run t).diagnostics := rfl
  rw [Passes, yields_both, hds, Diagnostics.hasErrors_append, Bool.or_eq_false_iff]
  exact and_and_and_comm

/-- Whenever `c` passes in the table `t`, so does `d` in `t'`, and the values are related. -/
def Carries (t t' : SymbolTable) (R : α → β → Prop) (c : Check α) (d : Check β) : Prop :=
  ∀ a, c.Passes t a → ∃ b, d.Passes t' b ∧ R a b

variable {R : α → β → Prop} {S : γ → δ → Prop}

theorem Carries.mono {R' : α → β → Prop} {c : Check α} {d : Check β} (hR : ∀ a b, R a b → R' a b)
    (h : Carries t t' R c d) : Carries t t' R' c d := by
  intro a ha
  obtain ⟨b, hb, hab⟩ := h a ha
  exact ⟨b, hb, hR a b hab⟩

/-- What is known of every value of the second step may be added. -/
theorem Carries.and_right {Q : β → Prop} {c : Check α} {d : Check β} (h : Carries t t' R c d)
    (hd : ∀ b, d.Yields t' b → Q b) : Carries t t' (fun a b => R a b ∧ Q b) c d := by
  intro a ha
  obtain ⟨b, hb, hab⟩ := h a ha
  exact ⟨b, hb, hab, hd b hb.yields⟩

theorem carries_pure {a : α} {b : β} (h : R a b) :
    Carries t t' R (Pure.pure a) (Pure.pure b) := by
  intro x hx
  obtain rfl := passes_pure.mp hx
  exact ⟨b, passes_pure.mpr rfl, h⟩

theorem carries_bind {c : Check α} {d : Check β} {f : α → Check γ} {g : β → Check δ}
    (hc : Carries t t' R c d) (hf : ∀ a b, R a b → Carries t t' S (f a) (g b)) :
    Carries t t' S (c >>= f) (d >>= g) := by
  intro x hx
  obtain ⟨a, ha, hx⟩ := passes_bind.mp hx
  obtain ⟨b, hb, hab⟩ := hc a ha
  obtain ⟨y, hy, hxy⟩ := hf a b hab x hx
  exact ⟨y, passes_bind.mpr ⟨b, hb, hy⟩, hxy⟩

theorem carries_look_bind {f : SymbolTable → α} {g : SymbolTable → β} {k : α → Check γ}
    {l : β → Check δ} (h : Carries t t' S (k (f t)) (l (g t'))) :
    Carries t t' S (look f >>= k) (look g >>= l) := by
  refine carries_bind (R := fun a b => a = f t ∧ b = g t') ?_ ?_
  · intro a ha
    exact ⟨g t', passes_look.mpr rfl, (passes_look.mp ha).symm, rfl⟩
  · rintro a b ⟨rfl, rfl⟩
    exact h

theorem carries_fail (kind : DiagnosticKind) (message : String) (span : Span) (d : Check β) :
    Carries t t' R (fail kind message span) d :=
  fun _ h => (passes_fail.mp h).elim

theorem carries_reject (message : String) (span : Span) (d : Check β) :
    Carries t t' R (reject message span) d :=
  fun _ h => (passes_reject.mp h).elim

theorem carries_ite {p q : Prop} [Decidable p] [Decidable q] {c c' : Check α} {d d' : Check β}
    (hpq : p ↔ q) (hc : p → Carries t t' R c d) (hc' : ¬p → Carries t t' R c' d') :
    Carries t t' R (if p then c else c') (if q then d else d') := by
  by_cases hp : p
  · rw [if_pos hp, if_pos (hpq.mp hp)]
    exact hc hp
  · rw [if_neg hp, if_neg fun hq => hp (hpq.mpr hq)]
    exact hc' hp

/-- A test that may fail first. -/
theorem carries_guard {p q : Prop} [Decidable p] [Decidable q] {kind : DiagnosticKind}
    {message message' : String} {span : Span} {c : Check α} {d : Check β} (hpq : p ↔ q)
    (hc : ¬p → Carries t t' R c d) :
    Carries t t' R (if p then fail kind message span >>= fun _ : PUnit => c else c)
      (if q then fail kind message' span >>= fun _ : PUnit => d else d) := by
  refine carries_ite hpq (fun _ a ha => ?_) hc
  obtain ⟨_, hfail, -⟩ := passes_bind.mp ha
  exact (passes_fail.mp hfail).elim

theorem carries_both {c : Check α} {d : Check β} {c' : Check γ} {d' : Check δ}
    (hc : Carries t t' R c d) (hc' : Carries t t' S c' d') :
    Carries t t' (fun p q => R p.1 q.1 ∧ S p.2 q.2) (both c c') (both d d') := by
  rintro ⟨a, x⟩ h
  obtain ⟨ha, hx⟩ := passes_both.mp h
  obtain ⟨b, hb, hab⟩ := hc a ha
  obtain ⟨y, hy, hxy⟩ := hc' x hx
  exact ⟨(b, y), passes_both.mpr ⟨hb, hy⟩, hab, hxy⟩

theorem carries_mapM {f : γ → Check α} {g : γ → Check β} {items : List γ}
    (h : ∀ x ∈ items, Carries t t' R (f x) (g x)) :
    Carries t t' (List.Forall₂ R) (items.mapM f) (items.mapM g) := by
  induction items with
  | nil => exact carries_pure .nil
  | cons x rest ih =>
    rw [List.mapM_cons, List.mapM_cons]
    refine carries_bind (h x List.mem_cons_self) fun a b hab => ?_
    refine carries_bind (ih fun y hy => h y (List.mem_cons_of_mem x hy)) fun as bs habs => ?_
    exact carries_pure (.cons hab habs)

theorem carries_mapM_map {f : γ → Check α} {g : γ → Check β} {k : α → β} {items : List γ}
    (h : ∀ x ∈ items, Carries t t' (fun a b => b = k a) (f x) (g x)) :
    Carries t t' (fun as bs => bs = as.map k) (items.mapM f) (items.mapM g) := by
  refine (carries_mapM h).mono fun as bs hall => ?_
  rw [← List.forall₂_eq_eq_eq, List.forall₂_map_right_iff]
  exact hall.flip

end Check

namespace Build

/-- A step that only looks ends cleanly as it passes. -/
theorem clean_liftM_iff {c : Check α} {a : α} {u : SymbolTable} :
    (liftM c : Build α).Clean t a u ↔ c.Passes t a ∧ t = u := and_right_comm

/-- Whenever `b` ends cleanly in the table `t`, so does `c` in `t'`, and the values and tables that
they leave are related. -/
def Carries (t t' : SymbolTable) (P : α → SymbolTable → β → SymbolTable → Prop) (b : Build α)
    (c : Build β) : Prop :=
  ∀ a u, b.Clean t a u → ∃ a' u', c.Clean t' a' u' ∧ P a u a' u'

variable {P : α → SymbolTable → β → SymbolTable → Prop} {Q : γ → SymbolTable → δ → SymbolTable → Prop}

theorem carries_pure {a : α} {b : β} (h : P a t b t') :
    Carries t t' P (Pure.pure a) (Pure.pure b) := by
  intro x u hx
  obtain ⟨rfl, rfl⟩ := clean_pure.mp hx
  exact ⟨b, t', clean_pure.mpr ⟨rfl, rfl⟩, h⟩

theorem carries_bind {b : Build α} {c : Build β} {f : α → Build γ} {g : β → Build δ}
    (hb : Carries t t' P b c) (hf : ∀ a u a' u', P a u a' u' → Carries u u' Q (f a) (g a')) :
    Carries t t' Q (b >>= f) (c >>= g) := by
  intro x v hx
  obtain ⟨a, u, ha, hx⟩ := clean_bind.mp hx
  obtain ⟨a', u', ha', hP⟩ := hb a u ha
  obtain ⟨x', v', hx', hQ⟩ := hf a u a' u' hP x v hx
  exact ⟨x', v', clean_bind.mpr ⟨a', u', ha', hx'⟩, hQ⟩

theorem Carries.mono {P' : α → SymbolTable → β → SymbolTable → Prop} {b : Build α} {c : Build β}
    (hP : ∀ a u a' u', P a u a' u' → P' a u a' u') (h : Carries t t' P b c) :
    Carries t t' P' b c := by
  intro a u ha
  obtain ⟨a', u', ha', hu⟩ := h a u ha
  exact ⟨a', u', ha', hP a u a' u' hu⟩

/-- What is known of both steps alone may be added. -/
theorem Carries.cleans {b : Build α} {c : Build β} (h : Carries t t' P b c) :
    Carries t t' (fun a u a' u' => P a u a' u' ∧ b.Clean t a u ∧ c.Clean t' a' u') b c := by
  intro a u ha
  obtain ⟨a', u', ha', hP⟩ := h a u ha
  exact ⟨a', u', ha', hP, ha, ha'⟩

theorem Carries.yields {b : Build α} {c : Build β} (h : Carries t t' P b c) :
    Carries t t' (fun a u a' u' => P a u a' u' ∧ b.Yields t a u ∧ c.Yields t' a' u') b c :=
  h.cleans.mono fun _ _ _ _ hu => ⟨hu.1, hu.2.1.yields, hu.2.2.yields⟩

theorem carries_ofCheck {R : α → β → Prop} {c : Check α} {d : Check β} (h : c.Carries t t' R d) :
    Carries t t' (fun a u b u' => R a b ∧ t = u ∧ t' = u') (ofCheck c) (ofCheck d) := by
  intro a u ha
  obtain ⟨hpass, rfl⟩ := clean_liftM_iff.mp ha
  obtain ⟨b, hb, hab⟩ := h a hpass
  exact ⟨b, t', clean_liftM_iff.mpr ⟨hb, rfl⟩, hab, rfl, rfl⟩

/-- A step that only looks, and the next one. -/
theorem carries_liftM_bind {R : α → β → Prop} {c : Check α} {d : Check β} {f : α → Build γ}
    {g : β → Build δ} (hc : c.Carries t t' R d)
    (hf : ∀ a b, R a b → Carries t t' Q (f a) (g b)) :
    Carries t t' Q ((liftM c : Build α) >>= f) ((liftM d : Build β) >>= g) := by
  refine carries_bind (carries_ofCheck hc) ?_
  rintro a u b u' ⟨hab, rfl, rfl⟩
  exact hf a b hab

theorem carries_look_bind {f : SymbolTable → α} {g : SymbolTable → β} {k : α → Build γ}
    {l : β → Build δ} (h : Carries t t' Q (k (f t)) (l (g t'))) :
    Carries t t' Q ((liftM (Check.look f) : Build α) >>= k)
      ((liftM (Check.look g) : Build β) >>= l) := by
  refine carries_liftM_bind (R := fun a b => a = f t ∧ b = g t') ?_ ?_
  · intro a ha
    exact ⟨g t', Check.passes_look.mpr rfl, (Check.passes_look.mp ha).symm, rfl⟩
  · rintro a b ⟨rfl, rfl⟩
    exact h

theorem carries_modify {f g : SymbolTable → SymbolTable}
    {P : Unit → SymbolTable → Unit → SymbolTable → Prop} (h : P () (f t) () (g t')) :
    Carries t t' P (modify f) (modify g) := by
  intro _ u hu
  obtain rfl := clean_modify.mp hu
  exact ⟨(), g t', clean_modify.mpr rfl, h⟩

theorem carries_fail (kind : DiagnosticKind) (message : String) (span : Span) (c : Build β) :
    Carries t t' P (liftM (Check.fail kind message span : Check α)) c :=
  fun _ _ h => (Check.passes_fail.mp (clean_liftM_iff.mp h).1).elim

theorem carries_reject (message : String) (span : Span) (c : Build β) :
    Carries t t' P (liftM (Check.reject message span : Check α)) c :=
  fun _ _ h => (Check.passes_reject.mp (clean_liftM_iff.mp h).1).elim

theorem carries_ite {p q : Prop} [Decidable p] [Decidable q] {b b' : Build α} {c c' : Build β}
    (hpq : p ↔ q) (hb : p → Carries t t' P b c) (hb' : ¬p → Carries t t' P b' c') :
    Carries t t' P (if p then b else b') (if q then c else c') := by
  by_cases hp : p
  · rw [if_pos hp, if_pos (hpq.mp hp)]
    exact hb hp
  · rw [if_neg hp, if_neg fun hq => hp (hpq.mpr hq)]
    exact hb' hp

/-- A test that may fail first. -/
theorem carries_guard {p q : Prop} [Decidable p] [Decidable q] {kind : DiagnosticKind}
    {message message' : String} {span : Span} {b : Build α} {c : Build β} (hpq : p ↔ q)
    (hb : ¬p → Carries t t' P b c) :
    Carries t t' P
      (if p then (liftM (Check.fail kind message span : Check PUnit) : Build PUnit) >>= fun _ => b
        else b)
      (if q then (liftM (Check.fail kind message' span : Check PUnit) : Build PUnit) >>= fun _ => c
        else c) := by
  refine carries_ite hpq (fun _ a u ha => ?_) hb
  obtain ⟨_, _, hfail, -⟩ := clean_bind.mp ha
  exact (Check.passes_fail.mp (clean_liftM_iff.mp hfail).1).elim

/-- A test that may report something first. -/
theorem carries_noteGuard {p q : Prop} [Decidable p] [Decidable q] {kind : DiagnosticKind}
    {message message' : String} {span : Span} {b : Build α} {c : Build β} (hpq : p ↔ q)
    (hb : ¬p → Carries t t' P b c) :
    Carries t t' P (if p then note kind message span >>= fun _ => b else b)
      (if q then note kind message' span >>= fun _ => c else c) := by
  refine carries_ite hpq (fun _ a u ha => ?_) hb
  obtain ⟨_, _, hnote, -⟩ := clean_bind.mp ha
  exact (clean_note.mp hnote).elim

/-- An attempt that found no error has not failed, and so neither has its counterpart. -/
theorem carries_attempt_bind {b : Build α} {c : Build β} {f : Option α → Build γ}
    {g : Option β → Build δ} (hb : b.Candid) (h : Carries t t' P b c)
    (hf : ∀ a u a' u', P a u a' u' → Carries u u' Q (f (some a)) (g (some a'))) :
    Carries t t' Q (b.attempt >>= f) (c.attempt >>= g) := by
  refine carries_bind (P := fun o u o' u' => ∃ a a', o = some a ∧ o' = some a' ∧ P a u a' u') ?_ ?_
  · intro o u ho
    obtain ⟨a, rfl, ha⟩ := clean_attempt hb ho
    obtain ⟨a', u', ha', hP⟩ := h a u ha
    exact ⟨some a', u', clean_attempt_some.mpr ha', a, a', rfl, rfl, hP⟩
  · rintro _ u _ u' ⟨a, a', rfl, rfl, hP⟩
    exact hf a u a' u' hP

/-- What relates the two tables before each pair of items relates them after all. -/
theorem carries_mapM₂ {I : SymbolTable → SymbolTable → Prop} {R : α → β → Prop} {T : γ → δ → Prop}
    {f : γ → Build α} {g : δ → Build β} {items : List γ} {items' : List δ}
    (hitems : List.Forall₂ T items items')
    (h : ∀ x y, T x y → ∀ t t', I t t' →
      Carries t t' (fun a u a' u' => R a a' ∧ I u u') (f x) (g y)) (ht : I t t') :
    Carries t t' (fun as u as' u' => List.Forall₂ R as as' ∧ I u u') (items.mapM f)
      (items'.mapM g) := by
  induction hitems generalizing t t' with
  | nil => exact carries_pure ⟨.nil, ht⟩
  | @cons x y _ _ hxy _ ih =>
    rw [List.mapM_cons, List.mapM_cons]
    refine carries_bind (h x y hxy t t' ht) fun a u a' u' hu => ?_
    refine carries_bind (ih hu.2) fun as v as' v' hv => ?_
    exact carries_pure ⟨.cons hu.1 hv.1, hv.2⟩

/-- What relates the two tables before each item relates them after all. -/
theorem carries_mapM {I : SymbolTable → SymbolTable → Prop} {R : α → β → Prop} {f : γ → Build α}
    {g : γ → Build β} {items : List γ}
    (h : ∀ x ∈ items, ∀ t t', I t t' →
      Carries t t' (fun a u a' u' => R a a' ∧ I u u') (f x) (g x)) (ht : I t t') :
    Carries t t' (fun as u as' u' => List.Forall₂ R as as' ∧ I u u') (items.mapM f)
      (items.mapM g) := by
  refine carries_mapM₂ (T := fun x y => x = y ∧ x ∈ items) ?_ ?_ ht
  · exact List.forall₂_same.mpr fun x hx => ⟨rfl, hx⟩
  · rintro x _ ⟨rfl, hx⟩
    exact h x hx

end Build

end LibraryContract
