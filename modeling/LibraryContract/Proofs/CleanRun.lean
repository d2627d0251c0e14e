import LibraryContract.Proofs.Faultless
import LibraryContract.Proofs.Transfer

/-!
# Runs of clean steps

When every piece of work of an analysis ends cleanly, the analysis reports no error, and its table is
the one that the last piece leaves. This is the way back from `LibraryContract.Proofs.Faultless`: to
show that a library compiles, it is enough to show for each phase that its steps end cleanly, one
after the other.

* `Build.exists_clean_mapM`: a list of steps ends cleanly if each step does as long as an invariant
  holds;
* `Build.clean_mapM_split`: each step of a list that ended cleanly has ended cleanly, in a table where
  the invariant holds;
* `Build.exists_clean_mapM_of_counterparts`: so other steps end cleanly that do so when these do;
* `Build.clean_mapM_apart`: steps that belong to different places;
* `Run.analyze_of_clean`: the last phase; each phase before it has a lemma of its own.
-/

namespace LibraryContract

open SyntaxTree Build

variable {α β : Type} {t u : SymbolTable}

namespace Build

theorem exists_clean_mapM {f : α → Build β} {I : List α → List β → SymbolTable → Prop}
    {items : List α}
    (hf : ∀ done a rest results t, items = done ++ a :: rest → I done results t →
      ∃ b u, (f a).Clean t b u ∧ I (done ++ [a]) (results ++ [b]) u) (ht : I [] [] t) :
    ∃ results u, (items.mapM f).Clean t results u ∧ I items results u := by
  have hrun : ∀ rest done results t, items = done ++ rest → I done results t →
      ∃ more u, (rest.mapM f).Clean t more u ∧ I items (results ++ more) u := by
    intro rest
    induction rest with
    | nil =>
      intro done results t hitems hI
      rw [List.append_nil] at hitems
      refine ⟨[], t, clean_mapM_nil.mpr ⟨rfl, rfl⟩, ?_⟩
      rw [hitems, List.append_nil]
      exact hI
    | cons a rest ih =>
      intro done results t hitems hI
      obtain ⟨b, s, hb, hs⟩ := hf done a rest results t hitems hI
      obtain ⟨more, u, hmore, hu⟩ := ih _ _ s (hitems.trans (List.append_cons _ _ _)) hs
      refine ⟨b :: more, u, clean_mapM_cons.mpr ⟨b, s, more, hb, hmore, rfl⟩, ?_⟩
      rw [List.append_cons]
      exact hu
  obtain ⟨results, u, hclean, hu⟩ := hrun items [] [] t rfl ht
  exact ⟨results, u, hclean, hu⟩

theorem clean_mapM_split {f : α → Build β} {I : List α → SymbolTable → Prop} {items : List α}
    {results : List β}
    (hf : ∀ done a rest t b u, items = done ++ a :: rest → I done t → (f a).Clean t b u →
      I (done ++ [a]) u) (h : (items.mapM f).Clean t results u) (ht : I [] t) :
    ∀ done a rest, items = done ++ a :: rest → ∃ s b v, I done s ∧ (f a).Clean s b v := by
  have hrun : ∀ rest done results t, items = done ++ rest → I done t →
      (rest.mapM f).Clean t results u → ∀ before a after, rest = before ++ a :: after →
        ∃ s b v, I (done ++ before) s ∧ (f a).Clean s b v := by
    intro rest
    induction rest with
    | nil =>
      intro done results t _ _ _ before a after heq
      cases before <;> cases heq
    | cons c rest ih =>
      intro done results t hitems hI hclean before a after heq
      obtain ⟨b, s, bs, hb, hbs, -⟩ := clean_mapM_cons.mp hclean
      rcases List.cons_eq_append_iff.mp heq with ⟨rfl, hcons⟩ | ⟨before, rfl, hrest⟩
      · cases hcons
        refine ⟨t, b, s, ?_, hb⟩
        rw [List.append_nil]
        exact hI
      · have hs := hf done c rest t b s hitems hI hb
        rw [List.append_cons]
        exact ih _ bs s (hitems.trans (List.append_cons _ _ _)) hs hbs before a after hrest
  exact fun done a rest hitems => hrun items [] results t rfl ht h done a rest hitems

/-- Steps end cleanly, in whatever order, if each of them has a counterpart in a list of steps that has
ended cleanly, and does so whenever its counterpart does. -/
theorem exists_clean_mapM_of_counterparts {γ δ : Type} {f : α → Build β} {g : γ → Build δ}
    {P : List α → SymbolTable → Prop} {I : List γ → List δ → SymbolTable → Prop} {items : List α}
    {items' : List γ} {results : List β} {t' : SymbolTable}
    (h : (items.mapM f).Clean t results u) (ht : P [] t)
    (hP : ∀ done a rest t b u, items = done ++ a :: rest → P done t → (f a).Clean t b u →
      P (done ++ [a]) u)
    (ht' : I [] [] t')
    (hI : ∀ done c rest results t, items' = done ++ c :: rest → I done results t →
      ∃ a ∈ items, ∀ before after s b v, items = before ++ a :: after → P before s →
        (f a).Clean s b v → ∃ d u, (g c).Clean t d u ∧ I (done ++ [c]) (results ++ [d]) u) :
    ∃ results' u', (items'.mapM g).Clean t' results' u' ∧ I items' results' u' := by
  refine exists_clean_mapM (fun done c rest results t hitems hdone => ?_) ht'
  obtain ⟨a, ha, hstep⟩ := hI done c rest results t hitems hdone
  obtain ⟨before, after, hsplit⟩ := List.append_of_mem ha
  obtain ⟨s, b, v, hs, hv⟩ := clean_mapM_split hP h ht before a after hsplit
  exact hstep before after s b v hsplit hs hv

/-- Steps that need nothing of the steps before them but what these do to the table. -/
theorem exists_clean_mapM_within {γ δ : Type} {f : α → Build β} {g : γ → Build δ}
    {S : SymbolTable → SymbolTable → Prop} {items : List α} {items' : List γ} {results : List β}
    {t' : SymbolTable} (h : (items.mapM f).Clean t results u)
    (hf : ∀ a ∈ items, ∀ t, (f a).Within S t) (hg : ∀ c ∈ items', ∀ t, (g c).Within S t)
    (hcarries : ∀ c ∈ items', ∃ a ∈ items, ∀ s s', Relation.ReflTransGen S t s →
      Relation.ReflTransGen S t' s' → Carries s s' (fun _ _ _ _ => True) (f a) (g c)) :
    ∃ results' u', (items'.mapM g).Clean t' results' u' := by
  have hmem : ∀ {α : Type} {items done rest : List α} {a : α}, items = done ++ a :: rest →
      a ∈ items := fun hitems => hitems ▸ List.mem_append_right _ List.mem_cons_self
  have hclean : ∃ results' u', (items'.mapM g).Clean t' results' u' ∧
      Relation.ReflTransGen S t' u' := by
    refine exists_clean_mapM_of_counterparts (P := fun _ s => Relation.ReflTransGen S t s)
      (I := fun _ _ s' => Relation.ReflTransGen S t' s') h .refl ?_ .refl ?_
    · exact fun done a rest s b v hitems hs hv => hs.trans (hv.yields.reaches (hf a (hmem hitems) s))
    · intro done c rest results s' hitems hs'
      obtain ⟨a, ha, hstep⟩ := hcarries c (hmem hitems)
      refine ⟨a, ha, fun before after s b v _ hs hv => ?_⟩
      obtain ⟨d, v', hv', -⟩ := hstep s s' hs hs' b v hv
      exact ⟨d, v', hv', hs'.trans (hv'.yields.reaches (hg c (hmem hitems) s'))⟩
  obtain ⟨results', u', hclean, -⟩ := hclean
  exact ⟨results', u', hclean⟩

/-- When the steps of a list belong to different places and each changes its own place only, then what
stands at a place in the end is what the step of this place has left there, and the step found there
what was there in the beginning. -/
theorem clean_mapM_apart {κ γ : Type} {f : α → Build β} {S : SymbolTable → SymbolTable → Prop}
    {items : List α} {results : List β} (place : α → κ) (look : SymbolTable → κ → γ)
    (h : (items.mapM f).Clean t results u) (hnodup : (items.map place).Nodup)
    (hwithin : ∀ a ∈ items, ∀ t, (f a).Within S t)
    (hother : ∀ a ∈ items, ∀ t b u k, (f a).Clean t b u → k ≠ place a → look u k = look t k) :
    ∀ a ∈ items, ∃ s b v, Relation.ReflTransGen S t s ∧ (f a).Clean s b v ∧
      look s (place a) = look t (place a) ∧ look u (place a) = look v (place a) := by
  induction items generalizing t results with
  | nil => exact List.forall_mem_nil _
  | cons a rest ih =>
    obtain ⟨b, s, bs, hb, hbs, -⟩ := clean_mapM_cons.mp h
    obtain ⟨hnew, hrest⟩ := List.nodup_cons.mp hnodup
    have hother' := fun c (hc : c ∈ rest) => hother c (List.mem_cons_of_mem a hc)
    have hne : ∀ c ∈ rest, place c ≠ place a :=
      fun c hc heq => hnew (heq ▸ List.mem_map_of_mem hc)
    refine List.forall_mem_cons.mpr ⟨⟨t, b, s, .refl, hb, rfl, ?_⟩, fun c hc => ?_⟩
    · -- the later steps belong to other places
      refine clean_mapM_keeps (P := fun v => look v (place a) = look s (place a)) ?_ hbs rfl
      exact fun c hc v d w hv hd => (hother' c hc v d w _ hd (hne c hc).symm).trans hv
    · obtain ⟨v, d, w, hv, hd, hbefore, hafter⟩ :=
        ih hbs hrest (fun c hc => hwithin c (List.mem_cons_of_mem a hc)) hother' c hc
      exact ⟨v, d, w, (hb.yields.reaches (hwithin a List.mem_cons_self t)).trans hv, hd,
        hbefore.trans (hother a List.mem_cons_self t b s _ hb (hne c hc)), hafter⟩

/-- Items are given back by the steps that are run for them. -/
theorem clean_mapM_keepItems {f : α → Build β} {items : List α} {results : List β}
    (h : (items.mapM f).Clean t results u) :
    (items.mapM fun a => f a >>= fun _ => Pure.pure a).Clean t items u := by
  induction items generalizing t results with
  | nil => exact clean_mapM_nil.mpr ⟨rfl, (clean_mapM_nil.mp h).2⟩
  | cons a rest ih =>
    obtain ⟨b, s, bs, hb, hbs, -⟩ := clean_mapM_cons.mp h
    refine clean_mapM_cons.mpr ⟨a, s, rest, clean_bind.mpr ⟨b, s, hb, ?_⟩, ih hbs, rfl⟩
    exact clean_pure.mpr ⟨rfl, rfl⟩

end Build

namespace Run

/-! ## Pieces of work -/

theorem settle_of_clean {step : Build α} {r : Run} {a : α} (hr : r.Faultless)
    (h : step.Clean r.table a u) :
    (r.settle step).1 = some a ∧ (r.settle step).2.Faultless ∧ (r.settle step).2.table = u := by
  obtain ⟨⟨hresult, htable⟩, hfound⟩ := h
  unfold settle
  rcases hrun : step.run r.table with ⟨⟨result, ds⟩, v⟩
  rw [hrun] at hresult htable hfound
  cases hresult
  cases htable
  refine ⟨rfl, ?_, rfl⟩
  rw [Faultless, Diagnostics.hasErrors_append, Bool.or_eq_false_iff]
  exact ⟨hr, hfound⟩

theorem performAll_of_clean {step : α → Build β} {items : List α} {results : List β} {r : Run}
    (hr : r.Faultless) (h : (items.mapM step).Clean r.table results u) :
    (r.performAll step items).Faultless ∧ (r.performAll step items).table = u := by
  induction items generalizing r results with
  | nil => exact ⟨hr, (clean_mapM_nil.mp h).2⟩
  | cons a rest ih =>
    obtain ⟨b, s, bs, hb, hbs, -⟩ := clean_mapM_cons.mp h
    obtain ⟨-, hr, rfl⟩ := settle_of_clean hr hb
    exact ih hr hbs

theorem collect_of_clean {step : α → Build β} {items : List α} {results : List β} {r : Run}
    (hr : r.Faultless) (h : (items.mapM step).Clean r.table results u) :
    (r.collect step items).1 = results ∧ (r.collect step items).2.Faultless ∧
      (r.collect step items).2.table = u := by
  induction items generalizing r results with
  | nil =>
    obtain ⟨rfl, rfl⟩ := clean_mapM_nil.mp h
    exact ⟨rfl, hr, rfl⟩
  | cons a rest ih =>
    obtain ⟨b, s, bs, hb, hbs, rfl⟩ := clean_mapM_cons.mp h
    obtain ⟨hsome, hr, rfl⟩ := settle_of_clean hr hb
    obtain ⟨rfl, hfaultless, rfl⟩ := ih hr hbs
    rw [collect_cons, hsome]
    exact ⟨rfl, hfaultless, rfl⟩

theorem elaborateAutomaton_of_clean {a : PendingAutomaton} {r : Run} (hr : r.Faultless)
    (h : (completeAutomaton a).Clean r.table () u) :
    (elaborateAutomaton r a).Faultless ∧ (elaborateAutomaton r a).table = u := by
  obtain ⟨values, s, hvalues, hrest⟩ := clean_bind.mp h
  obtain ⟨shifts, v, hshifts, hpure⟩ := clean_bind.mp hrest
  obtain ⟨-, rfl⟩ := clean_pure.mp hpure
  obtain ⟨hr, rfl⟩ := performAll_of_clean hr hvalues
  exact performAll_of_clean hr hshifts

theorem elaborateAutomata_of_clean {automata : List PendingAutomaton} {results : List Unit} {r : Run}
    (hr : r.Faultless) (h : (automata.mapM completeAutomaton).Clean r.table results u) :
    (automata.foldl elaborateAutomaton r).Faultless ∧
      (automata.foldl elaborateAutomaton r).table = u := by
  induction automata generalizing r results with
  | nil => exact ⟨hr, (clean_mapM_nil.mp h).2⟩
  | cons a rest ih =>
    obtain ⟨_, s, bs, hb, hbs, -⟩ := clean_mapM_cons.mp h
    obtain ⟨hr, rfl⟩ := elaborateAutomaton_of_clean hr hb
    exact ih hr hbs

/-! ## Phases -/

variable {options : Options} {library : SyntaxTree.Library} {results : List Unit}

theorem withTypes_of_clean {checked : List Unit}
    (hd : (library.types.mapM TypeDecl.declare).Clean .empty results t)
    (hv : (library.types.mapM TypeDecl.validate).Clean t checked u) :
    (withTypes library).Faultless ∧ (withTypes library).table = u := by
  obtain ⟨haccepted, hr, rfl⟩ := collect_of_clean (r := start) rfl (clean_mapM_keepItems hd)
  have hsame : withTypes library = performAll TypeDecl.validate library.types _ :=
    congrArg (performAll TypeDecl.validate · _) haccepted
  rw [hsame]
  exact performAll_of_clean hr hv

theorem withAnnotations_of_clean (h : (withTypes library).Faultless)
    (hd : (library.annotations.mapM AnnotationDecl.declare).Clean (withTypes library).table results
      u) : (withAnnotations library).Faultless ∧ (withAnnotations library).table = u :=
  performAll_of_clean h hd

theorem withGlobals_of_clean (h : (withAnnotations library).Faultless)
    (hd : (library.globals.mapM (VariableDecl.declare .global)).Clean (withAnnotations library).table
      results u) : (withGlobals library).2.Faultless ∧ (withGlobals library).2.table = u :=
  (collect_of_clean h (clean_mapM_keepItems hd)).2

theorem withAutomata_of_clean {pending : List PendingAutomaton}
    (h : (withGlobals library).2.Faultless)
    (hd : (library.automata.mapM AutomatonDecl.declare).Clean (withGlobals library).2.table pending
      u) : (withAutomata library).2.Faultless ∧ (withAutomata library).2.table = u :=
  (collect_of_clean h hd).2

theorem DeclaresCleanly.faultless (h : DeclaresCleanly library) :
    (withAutomata library).2.Faultless := by
  obtain ⟨_, _, _, hdeclared, hvalidated⟩ := h.types
  obtain ⟨_, hannotations⟩ := h.annotations
  obtain ⟨_, hglobals⟩ := h.globals
  have htypes := (withTypes_of_clean hdeclared hvalidated).1
  have hannotations := (withAnnotations_of_clean htypes hannotations).1
  exact (withAutomata_of_clean (withGlobals_of_clean hannotations hglobals).1 h.automata).1

theorem withSignatures_of_clean {entries : List LedgerEntry} (h : (withAutomata library).2.Faultless)
    (hd : ((placed library).mapM (enter options)).Clean (withAutomata library).2.table entries u) :
    ledger options library = entries ∧ (withSignatures options library).2.Faultless ∧
      (withSignatures options library).2.table = u := by
  rw [withSignatures_run]
  exact collect_of_clean h hd

theorem withInitials_of_clean (h : (withSignatures options library).2.Faultless)
    (hd : ((withGlobals library).1.mapM (PendingInitializer.elaborate .global)).Clean
      (withSignatures options library).2.table results u) :
    (withInitials options library).Faultless ∧ (withInitials options library).table = u :=
  performAll_of_clean h hd

theorem withShifts_of_clean (h : (withInitials options library).Faultless)
    (hd : ((withAutomata library).1.mapM completeAutomaton).Clean (withInitials options library).table
      results u) :
    (withShifts options library).Faultless ∧ (withShifts options library).table = u :=
  elaborateAutomata_of_clean h hd

theorem analyze_of_clean (h : (withShifts options library).Faultless)
    (hd : ((withSignatures options library).1.mapM fun o : PendingOperation =>
      o.declaration.elaborate o.id).Clean (withShifts options library).table results u) :
    (analyze options library).Faultless :=
  (performAll_of_clean h hd).1

end Run

end LibraryContract
