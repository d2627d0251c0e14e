import LibraryContract.Proofs.Traversal

/-!
# Parentheses

Parentheses in an expression decide how it is read, and nothing else: without them the same
operators stand over the same operands. What the analysis says about an expression may be placed
elsewhere, since an index in parentheses has the place of these, but it says the same things in the
same order and comes to the same value.

* `Expr.ungrouped`: an expression without its parentheses;
* `Check.Alike`: steps that say the same, with one lemma for each way of putting steps together;
* `Expr.alike_elaborate`: an expression says the same without its parentheses;
* `Expr.becomes_elaborate`: its value has the operators, literals and chains that are left;
* `Expr.parentheses_transparent`: both together.
-/

namespace LibraryContract

variable {α β : Type}

/-! ## What is said, wherever it is -/

/-- The diagnostic without its place. -/
def Diagnostic.unplaced (d : Diagnostic) : Diagnostic := { d with span := none }

def Abort.unplaced : Abort → Abort
  | .reported => .reported
  | .malformed m => .malformed { m with span := .unknown }

/-- How a step ended and what it found, without the places. -/
def Outcome.unplaced (o : Outcome α) : Outcome α :=
  ⟨o.result.mapError Abort.unplaced, o.diagnostics.map Diagnostic.unplaced⟩

namespace Check

/-- The steps come to the same value or give up for the same reason, and find the same; only the
places may differ. -/
def Alike (c d : Check α) : Prop := ∀ t, (c.run t).unplaced = (d.run t).unplaced

variable {c d : Check α}

theorem Alike.refl (c : Check α) : c.Alike c := fun _ => rfl

theorem Alike.diagnostics (h : c.Alike d) (t : SymbolTable) :
    (c.run t).diagnostics.map Diagnostic.unplaced = (d.run t).diagnostics.map Diagnostic.unplaced :=
  congrArg Outcome.diagnostics (h t)

theorem Alike.result (h : c.Alike d) (t : SymbolTable) :
    (c.run t).result.mapError Abort.unplaced = (d.run t).result.mapError Abort.unplaced :=
  congrArg Outcome.result (h t)

/-- Both steps come to the same value, or both give up for the same reason. -/
theorem Alike.cases (h : c.Alike d) (t : SymbolTable) :
    (∃ a, (c.run t).result = .ok a ∧ (d.run t).result = .ok a) ∨
      ∃ e e', (c.run t).result = .error e ∧ (d.run t).result = .error e' ∧
        e.unplaced = e'.unplaced := by
  have hresult := h.result t
  cases hc : (c.run t).result with
  | ok a =>
    cases hd : (d.run t).result with
    | ok b =>
      rw [hc, hd] at hresult
      obtain rfl := Except.ok.inj hresult
      exact .inl ⟨a, rfl, rfl⟩
    | error e' =>
      rw [hc, hd] at hresult
      cases hresult
  | error e =>
    cases hd : (d.run t).result with
    | ok b =>
      rw [hc, hd] at hresult
      cases hresult
    | error e' =>
      rw [hc, hd] at hresult
      exact .inr ⟨e, e', rfl, rfl, Except.error.inj hresult⟩

theorem alike_bind {f g : α → Check β} (h : c.Alike d) (hf : ∀ a, (f a).Alike (g a)) :
    (c >>= f).Alike (d >>= g) := by
  intro t
  have hfound := h.diagnostics t
  rcases h.cases t with ⟨a, hc, hd⟩ | ⟨e, e', hc, hd, he⟩
  · have hnext := hf a t
    rw [show (c >>= f).run t = _ from run_bind_of_ok hc,
      show (d >>= g).run t = _ from run_bind_of_ok hd]
    simp only [Outcome.unplaced, Outcome.mk.injEq, List.map_append] at hnext ⊢
    rw [hfound, hnext.1, hnext.2]
    exact ⟨rfl, rfl⟩
  · rw [show (c >>= f).run t = _ from run_bind_of_error hc,
      show (d >>= g).run t = _ from run_bind_of_error hd]
    simp only [Outcome.unplaced, hfound, Except.mapError, he]

/-- Which of two reasons to give up wins does not depend on their places. -/
theorem unplaced_pair (r : Except Abort α) (s : Except Abort β) :
    (pair r s).mapError Abort.unplaced =
      pair (r.mapError Abort.unplaced) (s.mapError Abort.unplaced) := by
  rcases r with (_ | m) | a <;> rcases s with (_ | n) | b <;> rfl

theorem alike_both {c' d' : Check β} (h : c.Alike d) (h' : c'.Alike d') :
    (both c c').Alike (both d d') := by
  intro t
  simp only [both, Outcome.unplaced, List.map_append, Outcome.mk.injEq, unplaced_pair]
  rw [h.result, h'.result, h.diagnostics, h'.diagnostics]
  exact ⟨rfl, rfl⟩

theorem alike_fail (kind : DiagnosticKind) (message : String) (span span' : Span) :
    (fail kind message span : Check α).Alike (fail kind message span') := fun _ => rfl

theorem alike_reject (message : String) (span span' : Span) :
    (reject message span : Check α).Alike (reject message span') := fun _ => rfl

end Check

open Check

/-! ## Elements -/

theorem alike_reachedType (name : String) (span span' : Span) :
    (reachedType name span).Alike (reachedType name span') := by
  refine alike_bind (.refl _) fun found => ?_
  cases found with
  | ok type => exact .refl _
  | error e => exact alike_fail _ _ _ _

theorem alike_elementOf (surface : String) (span span' : Span) (depth : Nat) (type : DataType) :
    (elementOf surface span depth type).Alike (elementOf surface span' depth type) := by
  induction depth generalizing type with
  | zero =>
    cases type with
    | array | real => exact .refl _
    | _ => exact alike_fail _ _ _ _
  | succ depth ih =>
    cases type with
    | «alias» name target => exact alike_bind (alike_reachedType _ _ _) fun next => ih next
    | array | real => exact .refl _
    | _ => exact alike_fail _ _ _ _

theorem alike_elementType (current : String) (span span' : Span) :
    (elementType current span).Alike (elementType current span') :=
  alike_bind (alike_reachedType _ _ _) fun type => alike_elementOf _ _ _ _ type

namespace SyntaxTree

/-! ## Taking parentheses away -/

mutual

/-- The expression without the parentheses anywhere in it. -/
def Expr.ungrouped : Expr → Expr
  | .literal value span => .literal value span
  | .access chain span => .access chain.ungrouped span
  | .old chain span => .old chain.ungrouped span
  | .unary operator operand span => .unary operator operand.ungrouped span
  | .binary operator left right span => .binary operator left.ungrouped right.ungrouped span
  | .group inner _ => inner.ungrouped
termination_by structural e => e

def Chain.ungrouped : Chain → Chain
  | ⟨segments, span⟩ => ⟨Segment.ungroupedAll segments, span⟩
termination_by structural c => c

def Segment.ungroupedAll : List Segment → List Segment
  | [] => []
  | .name name :: rest => .name name :: Segment.ungroupedAll rest
  | .index index :: rest => .index index.ungrouped :: Segment.ungroupedAll rest
  | .getter automaton argument :: rest =>
    .getter automaton argument :: Segment.ungroupedAll rest
termination_by structural segments => segments

end

mutual

/-- The number of pairs of parentheses in an expression. -/
def Expr.groups : Expr → Nat
  | .literal _ _ => 0
  | .access chain _ | .old chain _ => chain.groups
  | .unary _ operand _ => operand.groups
  | .binary _ left right _ => left.groups + right.groups
  | .group inner _ => inner.groups + 1
termination_by structural e => e

def Chain.groups : Chain → Nat
  | ⟨segments, _⟩ => Segment.groupsOf segments
termination_by structural c => c

def Segment.groupsOf : List Segment → Nat
  | [] => 0
  | .name _ :: rest | .getter _ _ :: rest => Segment.groupsOf rest
  | .index index :: rest => index.groups + Segment.groupsOf rest
termination_by structural segments => segments

end

mutual

/-- No parentheses are left. -/
theorem Expr.groups_ungrouped (e : Expr) : e.ungrouped.groups = 0 := by
  cases e with
  | literal value span => rfl
  | access chain span => exact chain.groups_ungrouped
  | old chain span => exact chain.groups_ungrouped
  | unary operator operand span => exact operand.groups_ungrouped
  | binary operator left right span =>
    rw [Expr.ungrouped, Expr.groups, left.groups_ungrouped, right.groups_ungrouped]
  | group inner span => exact inner.groups_ungrouped
termination_by structural e

theorem Chain.groups_ungrouped (c : Chain) : c.ungrouped.groups = 0 := by
  obtain ⟨segments, span⟩ := c
  exact Segment.groupsOf_ungroupedAll segments
termination_by structural c

theorem Segment.groupsOf_ungroupedAll (segments : List Segment) :
    Segment.groupsOf (Segment.ungroupedAll segments) = 0 := by
  rcases segments with _ | ⟨name | index | ⟨automaton, argument⟩, rest⟩
  · rfl
  · exact Segment.groupsOf_ungroupedAll rest
  · rw [Segment.ungroupedAll, Segment.groupsOf, index.groups_ungrouped,
      Segment.groupsOf_ungroupedAll rest]
  · exact Segment.groupsOf_ungroupedAll rest
termination_by structural segments

end

/-! ## The same is said -/

variable (scope : Scope)

mutual

/-- An expression says the same without its parentheses. -/
theorem Expr.alike_elaborate (e : Expr) :
    (e.elaborate scope).Alike (e.ungrouped.elaborate scope) := by
  cases e with
  | literal value span => exact .refl _
  | access chain span => exact alike_bind chain.alike_resolve fun location => .refl _
  | old chain span =>
    rw [Expr.ungrouped, Expr.elaborate, Expr.elaborate]
    split
    · exact .refl _
    · exact alike_bind chain.alike_resolve fun location => .refl _
  | unary token operand span =>
    rw [Expr.ungrouped, Expr.elaborate, Expr.elaborate]
    cases UnaryOperator.ofToken? token with
    | none => exact .refl _
    | some operator => exact alike_bind operand.alike_elaborate fun value => .refl _
  | binary token left right span =>
    rw [Expr.ungrouped, Expr.elaborate, Expr.elaborate]
    cases BinaryOperator.ofToken? token with
    | none => exact .refl _
    | some operator =>
      refine alike_bind (alike_both left.alike_elaborate right.alike_elaborate) fun operands => ?_
      exact .refl _
  | group inner span => exact inner.alike_elaborate
termination_by structural e

theorem Chain.alike_resolve (c : Chain) :
    (c.resolve scope).Alike (c.ungrouped.resolve scope) := by
  rcases c with ⟨_ | ⟨name | index | ⟨automaton, argument⟩, rest⟩, span⟩
  · exact .refl _
  · refine alike_bind (.refl _) fun found => ?_
    exact alike_bind (alike_resolveRest rest _) fun links => .refl _
  · exact alike_reject _ _ _
  · rcases rest with _ | ⟨name | index | ⟨_, _⟩, rest⟩
    · exact .refl _
    · refine alike_bind (.refl _) fun found => ?_
      refine alike_bind (.refl _) fun reached => ?_
      exact alike_bind (alike_resolveRest rest _) fun links => .refl _
    · refine alike_bind (.refl _) fun found => ?_
      exact alike_bind (alike_resolveRest (.index index :: rest) _) fun links => .refl _
    · exact .refl _
termination_by structural c

theorem alike_resolveRest (segments : List Segment) (current : String) :
    (resolveRest scope current segments).Alike
      (resolveRest scope current (Segment.ungroupedAll segments)) := by
  rcases segments with _ | ⟨name | index | ⟨automaton, argument⟩, rest⟩
  · exact .refl _
  · refine alike_bind (.refl _) fun type => ?_
    exact alike_bind (alike_resolveRest rest type) fun links => .refl _
  · refine alike_bind (alike_elementType _ _ _) fun type => ?_
    refine alike_bind index.alike_elaborate fun value => ?_
    exact alike_bind (alike_resolveRest rest type) fun links => .refl _
  · exact .refl _
termination_by structural segments

end

/-! ## The same is meant -/

mutual

/-- The value has the shape of the expression, with its operators, literals and chains. There is no
case for parentheses. -/
inductive Expr.Becomes (t : SymbolTable) : Expr → Value → Prop
  | literal {value : Literal} {span : Span} : Expr.Becomes t (.literal value span) (.literal value)
  | access {chain : Chain} {span : Span} {location : Access} (h : Chain.Becomes t chain location) :
      Expr.Becomes t (.access chain span) (.access location)
  | old {chain : Chain} {span : Span} {location : Access} (h : Chain.Becomes t chain location) :
      Expr.Becomes t (.old chain span) (.old location)
  | unary {token : String} {operator : UnaryOperator} {operand : Expr} {span : Span} {v : Value}
      (htoken : UnaryOperator.ofToken? token = some operator) (h : Expr.Becomes t operand v) :
      Expr.Becomes t (.unary token operand span) (.unary operator v)
  | binary {token : String} {operator : BinaryOperator} {left right : Expr} {span : Span}
      {v w : Value} (htoken : BinaryOperator.ofToken? token = some operator)
      (hleft : Expr.Becomes t left v) (hright : Expr.Becomes t right w) :
      Expr.Becomes t (.binary token left right span) (.binary operator v w)

/-- The location has one link for each segment of the chain. -/
inductive Chain.Becomes (t : SymbolTable) : Chain → Access → Prop
  | links {segments : List Segment} {span : Span} {location : Access}
      (h : Segment.BecomeAll t segments location.links) :
      Chain.Becomes t ⟨segments, span⟩ location

inductive Segment.BecomeAll (t : SymbolTable) : List Segment → List Link → Prop
  | nil : Segment.BecomeAll t [] []
  | name {name : Identifier} {type : String} {home : Option VariableScope} {rest : List Segment}
      {links : List Link} (h : Segment.BecomeAll t rest links) :
      Segment.BecomeAll t (.name name :: rest) (.name name.name type home :: links)
  | index {index : Expr} {v : Value} {element : String} {rest : List Segment} {links : List Link}
      (hindex : Expr.Becomes t index v) (h : Segment.BecomeAll t rest links) :
      Segment.BecomeAll t (.index index :: rest) (.index v element :: links)
  | getter {automaton argument : Identifier} {id : AutomatonId} {type : String}
      {rest : List Segment} {links : List Link} (hid : t.automatonId? automaton.name = some id)
      (h : Segment.BecomeAll t rest links) :
      Segment.BecomeAll t (.getter automaton argument :: rest)
        (.getter id argument.name type :: links)

end

variable {scope} {t : SymbolTable}

mutual

/-- An expression becomes a value of its own shape, parentheses apart. -/
theorem Expr.becomes_elaborate (e : Expr) {v : Value} (h : (e.elaborate scope).Yields t v) :
    e.ungrouped.Becomes t v := by
  cases e with
  | literal value span =>
    obtain rfl := Check.yields_pure.mp h
    exact .literal
  | access chain span =>
    obtain ⟨location, hlocation, rfl⟩ := Expr.yields_access.mp h
    exact .access (chain.becomes_resolve hlocation)
  | old chain span =>
    obtain ⟨-, location, hlocation, rfl⟩ := Expr.yields_old.mp h
    exact .old (chain.becomes_resolve hlocation)
  | unary token operand span =>
    obtain ⟨operator, htoken, w, hw, rfl⟩ := Expr.yields_unary.mp h
    exact .unary htoken (operand.becomes_elaborate hw)
  | binary token left right span =>
    obtain ⟨operator, htoken, w, x, hw, hx, rfl⟩ := Expr.yields_binary.mp h
    exact .binary htoken (left.becomes_elaborate hw) (right.becomes_elaborate hx)
  | group inner span => exact inner.becomes_elaborate h
termination_by structural e

theorem Chain.becomes_resolve (c : Chain) {a : Access} (h : (c.resolve scope).Yields t a) :
    c.ungrouped.Becomes t a := by
  have hresolves := Chain.resolves_of_resolve h
  rcases c with ⟨_ | ⟨first, _ | ⟨second, others⟩⟩, span⟩
  · cases h
  · cases hresolves with
    | named _ hrest => exact .links (.name (becomeAll_resolveRest [] hrest))
    | getter hgetter _ hrest =>
      have hid := (yields_resolveGetter.mp hgetter).1
      exact .links (.getter hid (becomeAll_resolveRest [] hrest))
  · cases hresolves with
    | named _ hrest => exact .links (.name (becomeAll_resolveRest (second :: others) hrest))
    | getter hgetter _ hrest =>
      have hid := (yields_resolveGetter.mp hgetter).1
      exact .links (.getter hid (becomeAll_resolveRest (second :: others) hrest))
    | automatonVariable hgetter _ hrest =>
      have hid := (yields_resolveGetter.mp hgetter).1
      exact .links (.getter hid (.name (becomeAll_resolveRest others hrest)))
termination_by structural c

theorem becomeAll_resolveRest (segments : List Segment) {current : String} {links : List Link}
    (h : (resolveRest scope current segments).Yields t links) :
    Segment.BecomeAll t (Segment.ungroupedAll segments) links := by
  rcases segments with _ | ⟨name | index | ⟨automaton, argument⟩, rest⟩
  · obtain rfl := Check.yields_pure.mp h
    exact .nil
  · obtain ⟨type, -, links, hlinks, rfl⟩ := yields_resolveRest_name.mp h
    exact .name (becomeAll_resolveRest rest hlinks)
  · obtain ⟨type, -, value, hvalue, links, hlinks, rfl⟩ := yields_resolveRest_index.mp h
    exact .index (index.becomes_elaborate hvalue) (becomeAll_resolveRest rest hlinks)
  · cases h
termination_by structural segments

end

/-- Parentheses are transparent. Without them, an expression comes to the same value or is given up
for the same reason, and the same diagnostics are found in the same order, wherever they are placed.
The value has exactly the operators, literals and chains that are left, in the same shape. -/
theorem Expr.parentheses_transparent (scope : Scope) (t : SymbolTable) (e : Expr) :
    e.ungrouped.groups = 0 ∧
      ((e.elaborate scope).run t).unplaced = ((e.ungrouped.elaborate scope).run t).unplaced ∧
      ∀ v, ((e.elaborate scope).run t).result = .ok v → e.ungrouped.Becomes t v :=
  ⟨e.groups_ungrouped, e.alike_elaborate scope t, fun _ h => e.becomes_elaborate h⟩

end SyntaxTree

end LibraryContract
