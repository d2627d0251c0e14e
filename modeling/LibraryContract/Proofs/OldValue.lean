import LibraryContract.Proofs.Source

/-!
# When the values on entry can be read

What a location held when an operation was entered makes sense in what holds afterwards, and nowhere
else. The permission to read it is a part of the scope, and expressions hand their scope on
unchanged, to operands and to index expressions alike.

* `SyntaxTree.Expr.elaborate_readsOld`: a value that reads an old value was allowed to;
* `old_values_in_ensures`: in an analysed library, only `ensures` contracts read old values.
-/

namespace LibraryContract

open SyntaxTree

def Value.isOld : Value → Bool
  | .old _ => true
  | .literal _ | .access _ | .unary _ _ | .binary _ _ _ => false

/-- Some part of the value, at any depth, is what a location held on entry. -/
def Value.ReadsOld (v : Value) : Prop := ∃ n ∈ v.nodes, n.isOld = true

instance (v : Value) : Decidable v.ReadsOld :=
  inferInstanceAs (Decidable (∃ n ∈ v.nodes, n.isOld = true))

/-- The values of the operation that read old values are those of `ensures` contracts. -/
structure Operation.OldInEnsures (o : Operation) : Prop where
  contracts : ∀ c ∈ o.contracts, c.expression.ReadsOld → c.kind = .ensures
  statements : ∀ s ∈ o.statements, ∀ v ∈ s.values, ¬v.ReadsOld
  annotations : ∀ use ∈ o.annotations, ∀ v ∈ use.arguments, ¬v.ReadsOld
  arguments : ∀ a ∈ o.arguments, ∀ use ∈ a.annotations, ∀ v ∈ use.arguments, ¬v.ReadsOld

/-- The values in the table that read old values are those of `ensures` contracts. -/
structure SymbolTable.OldInEnsures (t : SymbolTable) : Prop where
  initials : ∀ home, ∀ v ∈ (t.variablesIn home).values, ∀ x ∈ v.initial, ¬x.ReadsOld
  operations : ∀ o ∈ t.operations, o.OldInEnsures

variable {t : SymbolTable}

/-! ## Expressions -/

/-- An old value is allowed where its expression stands, also in parentheses. -/
theorem SyntaxTree.Expr.elaborate_old {scope : Scope} (e : Expr) {v : Value}
    (h : (e.elaborate scope).Yields t v) (hv : v.isOld = true) : scope.allowsOldValues = true := by
  cases e with
  | literal value span =>
    obtain rfl := Check.yields_pure.mp h
    cases hv
  | access chain span =>
    obtain ⟨location, -, rfl⟩ := Expr.yields_access.mp h
    cases hv
  | old chain span => exact (Expr.yields_old.mp h).1
  | unary token operand span =>
    obtain ⟨operator, -, w, -, rfl⟩ := Expr.yields_unary.mp h
    cases hv
  | binary token left right span =>
    obtain ⟨operator, -, w, x, -, -, rfl⟩ := Expr.yields_binary.mp h
    cases hv
  | group inner span => exact inner.elaborate_old h hv
termination_by structural e

/-- Every part of a value was looked at in the scope of the whole. -/
theorem SyntaxTree.Expr.elaborate_readsOld {scope : Scope} {e : Expr} {v : Value}
    (h : (e.elaborate scope).Yields t v) (hv : v.ReadsOld) : scope.allowsOldValues = true := by
  obtain ⟨n, hn, hold⟩ := hv
  obtain ⟨part, hpart⟩ := e.nodes_elaborate h n hn
  exact part.elaborate_old hpart hold

theorem Place.allowsOldValues_scope (place : Place) (t : SymbolTable) :
    (place.scope t).allowsOldValues = decide (place.contract? = some .ensures) := by
  cases place <;> rfl

/-- Where a value that reads old values stands, it is an `ensures` contract. -/
theorem SymbolTable.Origin.readsOld {place : Place} {e : Expr} {v : Value} (h : t.Origin place e v)
    (hv : v.ReadsOld) : place.contract? = some .ensures := by
  obtain ⟨t₀, -, hyields⟩ := h
  have hallowed := e.elaborate_readsOld hyields hv
  rw [place.allowsOldValues_scope] at hallowed
  exact of_decide_eq_true hallowed

/-! ## Libraries -/

/-- A value that stands in no `ensures` contract reads no old value. -/
theorem SymbolTable.Origin.not_readsOld {place : Place} (hplace : place.contract? ≠ some .ensures)
    {e : Expr} {v : Value} (h : t.Origin place e v) : ¬v.ReadsOld :=
  fun hv => hplace (h.readsOld hv)

theorem SyntaxTree.AnnotationUse.Sourced.not_readsOld {owner : AutomatonId} {use : AnnotationUse}
    {r : LibraryContract.AnnotationUse} (h : use.Sourced (t.Origin (.automaton owner)) r) :
    ∀ v ∈ r.arguments, ¬v.ReadsOld := by
  intro v hv
  obtain ⟨e, -, horigin⟩ := forall₂_exists_left h.arguments hv
  exact horigin.not_readsOld (by simp [Place.contract?])

theorem Operation.Sourced.oldInEnsures {owner : AutomatonId} {items : List Placed}
    {last : FunctionDecl} {o : Operation} (h : o.Sourced t.Origin owner items last) :
    o.OldInEnsures where
  contracts c hc hv := by
    obtain ⟨d, -, -, horigin⟩ := h.contracts c hc
    exact Option.some.inj (horigin.readsOld hv)
  statements s hs v hv := by
    obtain ⟨n, hn⟩ := List.getElem?_of_mem hs
    obtain ⟨d, -, -, hvalues⟩ := h.statements n s hn
    obtain ⟨e, -, horigin⟩ := forall₂_exists_left hvalues hv
    exact horigin.not_readsOld (by simp [Place.contract?])
  annotations use huse := by
    obtain ⟨d, -, hsourced⟩ := forall₂_exists_left h.annotations huse
    exact hsourced.not_readsOld
  arguments a ha use huse := by
    obtain ⟨p, -, hp⟩ := forall₂_exists_left h.arguments ha
    obtain ⟨d, -, hsourced⟩ := forall₂_exists_left hp.annotations huse
    exact hsourced.not_readsOld

/-- A variable that starts from a value is declared outside of operations or by a statement, so it
starts from no old value. -/
theorem SymbolTable.Sourced.not_readsOld {library : SyntaxTree.Library} {entries : List LedgerEntry}
    (h : t.Sourced t.Origin library entries) (home : VariableScope) :
    ∀ v ∈ (t.variablesIn home).values, ∀ x ∈ v.initial, ¬x.ReadsOld := by
  have houtside : home.OutsideOperations →
      ∀ v ∈ (t.variablesIn home).values, ∀ x ∈ v.initial, ¬x.ReadsOld := by
    intro hh v hv x hx
    obtain ⟨d, e, -, -, -, horigin⟩ := h.initials home hh v hv x hx
    have hplace : home.place.contract? ≠ some .ensures := by
      cases home <;> exact nofun
    exact horigin.not_readsOld hplace
  have hinside : ∀ id, t.variablesIn home = ((t.operation? id).map Operation.locals).getD .empty →
      ∀ v ∈ (t.variablesIn home).values, ∀ x ∈ v.initial, ¬x.ReadsOld := by
    intro id heq v hv x hx
    rw [heq] at hv
    cases ho : t.operation? id with
    | none =>
      rw [ho] at hv
      cases hv
    | some o =>
      rw [ho, Option.map_some, Option.getD_some] at hv
      obtain ⟨owner, last, -, -, hsourced⟩ := h.operations o (List.mem_of_getElem? ho)
      have hdeclared := hsourced.locals v hv (Option.isSome_iff_exists.mpr ⟨x, hx⟩)
      exact hsourced.oldInEnsures.statements _ hdeclared x (Option.mem_toList.mpr hx)
  cases home with
  | argument id => exact List.forall_mem_nil _
  | body id => exact hinside id rfl
  | result id => exact hinside id rfl
  | _ => exact houtside trivial

/-- In an analysed library, what locations held on entry is read in `ensures` contracts only. -/
theorem old_values_in_ensures {s : Session} {library : SyntaxTree.Library} {l : Library}
    (h : (s.analyze library).1 = .ok l) : l.table.OldInEnsures := by
  obtain ⟨-, rfl⟩ := Session.analyze_eq_ok.mp h
  have hsourced := Run.analyze_sourced s.options library
  refine ⟨hsourced.not_readsOld, fun o ho => ?_⟩
  obtain ⟨owner, last, -, -, ho⟩ := hsourced.operations o ho
  exact ho.oldInEnsures

/-- There is a library with a contract that reads an old value. -/
theorem old_values_in_ensures_sample :
    ∃ l, ((Session.start .standard).analyze Sample.library).1 = .ok l ∧ l.table.OldInEnsures ∧
      ∃ o ∈ l.table.operations, ∃ c ∈ o.contracts, c.expression.ReadsOld := by
  refine ⟨_, Sample.library_analyzes, old_values_in_ensures Sample.library_analyzes, ?_⟩
  decide +kernel

end LibraryContract
