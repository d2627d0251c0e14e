import LibraryContract.Proofs.Warnless

/-!
# What operands have to say

An operator looks at all of its operands, whatever the others have come to. So an expression says
nothing of its own: what is found in it is what is found in its leaves, which are its literals and
the locations that it reads. Index expressions belong to the locations in whose chains they stand.

* `Check.Gathers`: a step that has nothing to add to its parts, with one lemma for each way in which
  operators put steps together;
* `SyntaxTree.Expr.gathers_elaborate`: an expression gathers its leaves;
* `SyntaxTree.Expr.elaborate_speaksForLeaves`: how an expression ends, from how its leaves end.
-/

namespace LibraryContract

/-! ## Steps with nothing to add -/

namespace Check

variable {α β γ : Type} {t : SymbolTable}

/-- The malformed place on which the step gives up. -/
def malformed? (c : Check α) (t : SymbolTable) : Option Malformed :=
  match (c.run t).result with
  | .error (.malformed m) => some m
  | .error .reported | .ok _ => none

theorem malformed?_eq_some {c : Check α} {m : Malformed} :
    c.malformed? t = some m ↔ (c.run t).result = .error (.malformed m) := by
  unfold malformed?
  rcases (c.run t).result with (_ | n) | a <;> simp

theorem malformed?_isSome {c : Check α} :
    (c.malformed? t).isSome ↔ ∃ m, (c.run t).result = .error (.malformed m) := by
  simp only [Option.isSome_iff_exists, malformed?_eq_some]

/-- The step finds what its parts find on their own, one after the other. It ends with a value where
all of them do, and gives up on the first malformed place among theirs. -/
structure Gathers (c : Check α) (parts : List (Check β)) (t : SymbolTable) : Prop where
  diagnostics : (c.run t).diagnostics = parts.flatMap fun d => (d.run t).diagnostics
  yields : (∃ a, c.Yields t a) ↔ ∀ d ∈ parts, ∃ b, d.Yields t b
  malformed : c.malformed? t = parts.findSome? fun d => d.malformed? t

theorem gathers_single (c : Check α) : c.Gathers [c] t where
  diagnostics := by simp
  yields := by simp
  malformed := by simp

/-- Making something else of the value changes nothing. -/
theorem Gathers.map {c : Check α} {parts : List (Check β)} (h : c.Gathers parts t) (f : α → γ) :
    (c >>= fun a => (Pure.pure (f a) : Check γ)).Gathers parts t where
  diagnostics := by rw [run_map, h.diagnostics]
  yields := by
    rw [← h.yields]
    simp only [yields_bind, yields_pure]
    constructor
    · rintro ⟨_, a, ha, -⟩
      exact ⟨a, ha⟩
    · rintro ⟨a, ha⟩
      exact ⟨f a, a, ha, rfl⟩
  malformed := by
    rw [← h.malformed, malformed?, malformed?, run_map]
    rcases (c.run t).result with (_ | m) | a <;> rfl

theorem malformed?_both (c : Check α) (d : Check γ) (t : SymbolTable) :
    (both c d).malformed? t = (c.malformed? t).or (d.malformed? t) := by
  simp only [malformed?, both]
  rcases (c.run t).result with (_ | m) | a <;> rcases (d.run t).result with (_ | n) | b <;> rfl

/-- The parts of the left step come before those of the right one. -/
theorem Gathers.both {c : Check α} {d : Check γ} {parts rest : List (Check β)}
    (hc : c.Gathers parts t) (hd : d.Gathers rest t) :
    (both c d).Gathers (parts ++ rest) t where
  diagnostics := by
    rw [List.flatMap_append, ← hc.diagnostics, ← hd.diagnostics]
    rfl
  yields := by
    simp only [yields_both, List.forall_mem_append, ← hc.yields, ← hd.yields, Prod.exists]
    exact exists_and_exists_comm.symm
  malformed := by
    rw [malformed?_both, hc.malformed, hd.malformed, List.findSome?_append]

/-- A step that gives up, but not on a malformed place, has reported an error. -/
theorem Candid.reports {c : Check α} (hc : c.Candid) (hyields : ¬∃ a, c.Yields t a)
    (hmalformed : c.malformed? t = none) :
    (c.run t).result = .error .reported ∧ (c.run t).diagnostics.hasErrors = true := by
  have hresult : (c.run t).result = .error .reported := by
    rcases h : (c.run t).result with (_ | m) | a
    · rfl
    · rw [malformed?_eq_some.mpr h] at hmalformed
      cases hmalformed
    · exact (hyields ⟨a, h⟩).elim
  exact ⟨hresult, hc t hresult⟩

end Check

/-! ## Leaves -/

namespace SyntaxTree.Expr

/-- Every operator outside of index expressions is one that exists. -/
def tokensKnown : Expr → Bool
  | .literal _ _ | .access _ _ | .old _ _ => true
  | .unary token operand _ => (UnaryOperator.ofToken? token).isSome && operand.tokensKnown
  | .binary token left right _ =>
    (BinaryOperator.ofToken? token).isSome && (left.tokensKnown && right.tokensKnown)
  | .group inner _ => inner.tokensKnown
termination_by structural e => e

/-- The literals and the locations of an expression, from left to right, without those that stand in
an index. -/
def leaves : Expr → List Expr
  | .unary _ operand _ => operand.leaves
  | .binary _ left right _ => left.leaves ++ right.leaves
  | .group inner _ => inner.leaves
  | leaf => [leaf]
termination_by structural e => e

/-- An expression finds what its leaves find. -/
theorem gathers_elaborate (scope : Scope) (t : SymbolTable) (e : Expr)
    (h : e.tokensKnown = true) :
    (e.elaborate scope).Gathers (e.leaves.map fun leaf => leaf.elaborate scope) t := by
  cases e with
  | literal value span => exact Check.gathers_single _
  | access chain span => exact Check.gathers_single _
  | old chain span => exact Check.gathers_single _
  | unary token operand span =>
    rw [tokensKnown, Bool.and_eq_true] at h
    obtain ⟨htoken, hoperand⟩ := h
    obtain ⟨operator, hoperator⟩ := Option.isSome_iff_exists.mp htoken
    rw [Expr.elaborate, hoperator]
    exact (operand.gathers_elaborate scope t hoperand).map _
  | binary token left right span =>
    rw [tokensKnown, Bool.and_eq_true, Bool.and_eq_true] at h
    obtain ⟨htoken, hleft, hright⟩ := h
    obtain ⟨operator, hoperator⟩ := Option.isSome_iff_exists.mp htoken
    rw [Expr.elaborate, hoperator, leaves, List.map_append]
    exact ((left.gathers_elaborate scope t hleft).both
      (right.gathers_elaborate scope t hright)).map
      fun p => Value.binary operator p.1 p.2
  | group inner span => exact inner.gathers_elaborate scope t h
termination_by structural e

/-- How an expression ends, and what is found in it, from its leaves when each is looked at alone in
the same scope. -/
structure SpeaksForLeaves (scope : Scope) (t : SymbolTable) (e : Expr) : Prop where
  table : ((liftM (e.elaborate scope) : Build Value).run t).2 = t
  diagnostics : ((e.elaborate scope).run t).diagnostics =
    e.leaves.flatMap fun leaf => ((leaf.elaborate scope).run t).diagnostics
  succeeds : (∃ v, (e.elaborate scope).Yields t v) ↔
    ∀ leaf ∈ e.leaves, ∃ v, (leaf.elaborate scope).Yields t v
  silent : (∃ v, (e.elaborate scope).Yields t v) → ((e.elaborate scope).run t).diagnostics = []
  aborts : (∃ m, ((e.elaborate scope).run t).result = .error (.malformed m)) ↔
    ∃ leaf ∈ e.leaves, ∃ m, ((leaf.elaborate scope).run t).result = .error (.malformed m)
  /-- The malformed place is that of the leftmost leaf that has one. -/
  leftmost : ∀ m, ((e.elaborate scope).run t).result = .error (.malformed m) ↔
    ∃ before leaf after, e.leaves = before ++ leaf :: after ∧
      ((leaf.elaborate scope).run t).result = .error (.malformed m) ∧
      ∀ other ∈ before, ∀ n, ((other.elaborate scope).run t).result ≠ .error (.malformed n)
  reports : (¬∀ leaf ∈ e.leaves, ∃ v, (leaf.elaborate scope).Yields t v) →
    (¬∃ leaf ∈ e.leaves, ∃ m, ((leaf.elaborate scope).run t).result = .error (.malformed m)) →
    ((e.elaborate scope).run t).result = .error .reported ∧
      ((e.elaborate scope).run t).diagnostics.hasErrors = true

/-- No operand hides what is wrong with another one. -/
theorem elaborate_speaksForLeaves (scope : Scope) (t : SymbolTable) (e : Expr)
    (h : e.tokensKnown = true) : e.SpeaksForLeaves scope t := by
  have hgathers := e.gathers_elaborate scope t h
  have hmalformed : (e.elaborate scope).malformed? t =
      e.leaves.findSome? fun leaf => (leaf.elaborate scope).malformed? t :=
    hgathers.malformed.trans List.findSome?_map
  have hsucceeds : (∃ v, (e.elaborate scope).Yields t v) ↔
      ∀ leaf ∈ e.leaves, ∃ v, (leaf.elaborate scope).Yields t v := by
    rw [hgathers.yields, List.forall_mem_map]
  have haborts : (∃ m, ((e.elaborate scope).run t).result = .error (.malformed m)) ↔
      ∃ leaf ∈ e.leaves, ∃ m, ((leaf.elaborate scope).run t).result = .error (.malformed m) := by
    simp only [← Check.malformed?_isSome, hmalformed, List.findSome?_isSome_iff]
  refine ⟨rfl, ?_, hsucceeds, ?_, haborts, fun m => ?_, fun hfails hwell => ?_⟩
  · rw [hgathers.diagnostics, List.flatMap_map]
  · rintro ⟨v, hv⟩
    exact (e.warnless_elaborate scope).silent hv
  · simp only [← Check.malformed?_eq_some, hmalformed, List.findSome?_eq_some_iff,
      Option.eq_none_iff_forall_ne_some, ne_eq]
  · refine (e.warnless_elaborate scope).candid.reports (hsucceeds.not.mpr hfails) ?_
    rw [← haborts, ← Check.malformed?_isSome] at hwell
    exact Option.not_isSome_iff_eq_none.mp hwell

/-- The expression `(a && -[0]) || old(b)`. The chain in the middle of it starts with an index. -/
def threeFaults : Expr :=
  let span : Span := default
  .binary "||"
    (.group
      (.binary "&&" (.access ⟨[.name ⟨"a", span⟩], span⟩ span)
        (.unary "-" (.access ⟨[.index (.literal (.integer 0) span)], span⟩ span) span) span) span)
    (.old ⟨[.name ⟨"b", span⟩], span⟩ span) span

/-- The malformed place in the middle stops the expression, and yet what is wrong on both sides of
it is reported. -/
theorem threeFaults_speaksForLeaves :
    threeFaults.tokensKnown = true ∧ threeFaults.SpeaksForLeaves .global .empty ∧
      ((threeFaults.elaborate .global).run .empty).diagnostics.map Diagnostic.kind =
        [.unresolvedVariable, .invalidOldValue] ∧
      ((threeFaults.elaborate .global).malformed? .empty).map Malformed.message =
        some "an access chain cannot start with an index" :=
  ⟨rfl, elaborate_speaksForLeaves _ _ _ rfl, by decide +kernel, by decide +kernel⟩

end SyntaxTree.Expr

end LibraryContract
