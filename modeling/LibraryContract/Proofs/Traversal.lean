import LibraryContract.Analysis.Body
import LibraryContract.Proofs.Step

/-!
# All parts of a value

A value contains others: operands, and index expressions inside of locations. `Value.nodes` lists
them all, at any depth, and `Value.accesses` lists the locations among them. In the same order,
`Expr.chains` lists the chains in an expression.

* `Expr.nodes_elaborate`: every part of an elaborated value is itself elaborated in the same scope;
* `Expr.chains_elaborate`: its locations are the chains of the expression, one by one.

What holds of each resolved chain therefore holds of every location in an elaborated value.
-/

namespace LibraryContract

mutual

/-- The value and all values inside of it. -/
def Value.nodes : Value → List Value
  | .literal value => [.literal value]
  | .access location => .access location :: location.nodes
  | .old location => .old location :: location.nodes
  | .unary operator operand => .unary operator operand :: operand.nodes
  | .binary operator left right => .binary operator left right :: (left.nodes ++ right.nodes)
termination_by structural v => v

/-- All values inside of the index expressions of a location. -/
def Access.nodes : Access → List Value
  | ⟨head, rest⟩ => head.nodes ++ Link.nodesOf rest
termination_by structural a => a

/-- All values inside of a link. -/
def Link.nodes : Link → List Value
  | .name _ _ _ => []
  | .index index _ => index.nodes
  | .getter _ _ _ => []
termination_by structural l => l

/-- All values inside of several links. -/
def Link.nodesOf : List Link → List Value
  | [] => []
  | link :: rest => link.nodes ++ Link.nodesOf rest
termination_by structural links => links

end

/-- The location that a value consists of, now or on entry to the operation. -/
def Value.location? : Value → Option Access
  | .access location | .old location => some location
  | .literal _ | .unary _ _ | .binary _ _ _ => none

/-- All locations in a value. -/
def Value.accesses (v : Value) : List Access := v.nodes.filterMap Value.location?

/-- All locations in the index expressions of a location. -/
def Access.inner (a : Access) : List Access := a.nodes.filterMap Value.location?

theorem Value.accesses_unary (operator : UnaryOperator) (operand : Value) :
    (Value.unary operator operand).accesses = operand.accesses :=
  List.filterMap_cons_none rfl

theorem Value.accesses_binary (operator : BinaryOperator) (left right : Value) :
    (Value.binary operator left right).accesses = left.accesses ++ right.accesses :=
  (List.filterMap_cons_none rfl).trans List.filterMap_append

theorem forall₂_exists_left {α β : Type} {R : α → β → Prop} {l : List α} {m : List β}
    (h : List.Forall₂ R l m) {b : β} (hb : b ∈ m) : ∃ a ∈ l, R a b := by
  induction h with
  | nil => cases hb
  | cons hab _ ih =>
    rcases List.mem_cons.mp hb with rfl | hb
    · exact ⟨_, List.mem_cons_self, hab⟩
    · obtain ⟨a, ha, hR⟩ := ih hb
      exact ⟨a, List.mem_cons_of_mem _ ha, hR⟩

namespace SyntaxTree

mutual

/-- All chains in an expression. -/
def Expr.chains : Expr → List Chain
  | .literal _ _ => []
  | .access chain _ => chain :: chain.inner
  | .old chain _ => chain :: chain.inner
  | .unary _ operand _ => operand.chains
  | .binary _ left right _ => left.chains ++ right.chains
  | .group inner _ => inner.chains
termination_by structural e => e

/-- All chains in the index expressions of a chain. -/
def Chain.inner : Chain → List Chain
  | ⟨segments, _⟩ => Segment.chainsOf segments
termination_by structural c => c

def Segment.chains : Segment → List Chain
  | .name _ => []
  | .index index => index.chains
  | .getter _ _ => []
termination_by structural s => s

def Segment.chainsOf : List Segment → List Chain
  | [] => []
  | segment :: rest => segment.chains ++ Segment.chainsOf rest
termination_by structural segments => segments

end

variable {scope : Scope} {t : SymbolTable}

/-! ## Chains -/

theorem Identifier.yields_resolveVariable {name : Identifier} {home : VariableScope}
    {type : String} :
    (name.resolveVariable scope).Yields t (home, type) ↔
      scope.lookup? t name.name = some (home, type) ∧
        (home.isResult = true → scope.allowsResult = true) := by
  rw [Identifier.resolveVariable]
  simp only [Check.yields_bind, Check.yields_look]
  constructor
  · rintro ⟨found, rfl, h⟩
    split at h
    · simp at h
    · rename_i home' type' hfound
      rw [Check.yields_ite, Check.yields_fail, Check.yields_pure] at h
      split at h
      · exact h.elim
      · rename_i hallowed
        cases h
        exact ⟨hfound, by simpa using hallowed⟩
  · rintro ⟨hfound, hallowed⟩
    refine ⟨_, rfl, ?_⟩
    rw [hfound]
    simpa using hallowed

theorem Identifier.yields_resolveAutomaton {name : Identifier} {id : AutomatonId} :
    name.resolveAutomaton.Yields t id ↔ t.automatonId? name.name = some id := by
  rw [Identifier.resolveAutomaton]
  simp only [Check.yields_bind, Check.yields_look]
  constructor
  · rintro ⟨found, rfl, h⟩
    split at h
    · rename_i hfound
      rw [hfound, Check.yields_pure.mp h]
    · simp at h
  · intro h
    refine ⟨_, rfl, ?_⟩
    simp [h]

theorem yields_resolveGetter {automaton argument : Identifier} {id : AutomatonId} {type : String} :
    (resolveGetter automaton argument scope).Yields t (id, type) ↔
      t.automatonId? automaton.name = some id ∧ (scope.lookup? t argument.name).isSome = true ∧
        ((t.automaton? id).map Automaton.type).getD "" = type := by
  rw [resolveGetter]
  simp only [Check.yields_bind, Check.yields_look, Identifier.yields_resolveAutomaton]
  constructor
  · rintro ⟨id', hid, missing, rfl, h⟩
    rw [Check.yields_ite] at h
    split at h
    · simp at h
    · rename_i hfound
      simp only [Check.yields_bind, Check.yields_look, Check.yields_pure] at h
      obtain ⟨type', rfl, hpair⟩ := h
      cases hpair
      refine ⟨hid, ?_, rfl⟩
      cases hl : scope.lookup? t argument.name with
      | none => simp [hl] at hfound
      | some found => rfl
  · rintro ⟨hid, hfound, rfl⟩
    refine ⟨id, hid, false, ?_, ?_⟩
    · simpa using hfound
    · rw [Check.yields_ite, if_neg Bool.false_ne_true]
      simp only [Check.yields_bind, Check.yields_look, Check.yields_pure]
      exact ⟨_, rfl, rfl⟩

theorem Identifier.yields_resolveAutomatonVariable {name : Identifier} {id : AutomatonId}
    {home : VariableScope} {type : String} :
    (name.resolveAutomatonVariable id).Yields t (home, type) ↔
      ∃ a v, t.automaton? id = some a ∧ a.variableNamed? name.name = some v ∧ v.scope = home ∧
        v.type = type := by
  rw [Identifier.resolveAutomatonVariable]
  simp only [Check.yields_bind, Check.yields_look]
  constructor
  · rintro ⟨found, rfl, h⟩
    split at h
    · rename_i v hfound
      cases Check.yields_pure.mp h
      obtain ⟨a, ha, hv⟩ := Option.bind_eq_some_iff.mp hfound
      exact ⟨a, v, ha, hv, rfl, rfl⟩
    · simp at h
  · rintro ⟨a, v, ha, hv, rfl, rfl⟩
    refine ⟨_, rfl, ?_⟩
    simp [ha, hv]

/-- A resolved chain starts with a variable, with a getter, or with a getter and a variable of its
automaton. -/
inductive Chain.Resolves (scope : Scope) (t : SymbolTable) : List Segment → Access → Prop
  | named {name : Identifier} {home : VariableScope} {type : String} {rest : List Segment}
      {links : List Link} (hname : (name.resolveVariable scope).Yields t (home, type))
      (hrest : (resolveRest scope type rest).Yields t links) :
      Resolves scope t (.name name :: rest) ⟨.name name.name type (some home), links⟩
  | getter {automaton argument : Identifier} {id : AutomatonId} {type : String}
      {rest : List Segment} {links : List Link}
      (hgetter : (resolveGetter automaton argument scope).Yields t (id, type))
      (hnext : ∀ name others, rest ≠ .name name :: others)
      (hrest : (resolveRest scope type rest).Yields t links) :
      Resolves scope t (.getter automaton argument :: rest) ⟨.getter id argument.name type, links⟩
  | automatonVariable {automaton argument name : Identifier} {id : AutomatonId}
      {owner type : String} {home : VariableScope} {rest : List Segment} {links : List Link}
      (hgetter : (resolveGetter automaton argument scope).Yields t (id, owner))
      (hname : (name.resolveAutomatonVariable id).Yields t (home, type))
      (hrest : (resolveRest scope type rest).Yields t links) :
      Resolves scope t (.getter automaton argument :: .name name :: rest)
        ⟨.getter id argument.name owner, .name name.name type (some home) :: links⟩

theorem Chain.resolves_of_resolve {c : Chain} {a : Access} (h : (c.resolve scope).Yields t a) :
    Chain.Resolves scope t c.segments a := by
  rcases c with ⟨_ | ⟨name | index | ⟨automaton, argument⟩, rest⟩, span⟩
  · cases h
  · rw [Chain.resolve] at h
    simp only [Check.yields_bind, Check.yields_pure] at h
    obtain ⟨⟨home, type⟩, hname, links, hrest, rfl⟩ := h
    exact .named hname hrest
  · cases h
  -- a name after a getter belongs to the automaton, anything else to the type of the automaton
  by_cases hn : ∃ name others, rest = .name name :: others
  · obtain ⟨name, others, rfl⟩ := hn
    rw [Chain.resolve] at h
    simp only [Check.yields_bind, Check.yields_pure] at h
    obtain ⟨⟨id, owner⟩, hgetter, ⟨home, type⟩, hname, links, hrest, rfl⟩ := h
    exact .automatonVariable hgetter hname hrest
  · have hnext : ∀ name others, rest ≠ .name name :: others :=
      fun name others heq => hn ⟨name, others, heq⟩
    rw [Chain.resolve] at h
    · simp only [Check.yields_bind, Check.yields_pure] at h
      obtain ⟨⟨id, type⟩, hgetter, links, hrest, rfl⟩ := h
      exact .getter hgetter hnext hrest
    · exact hnext

/-! ## Expressions -/

theorem Expr.yields_access {chain : Chain} {span : Span} {v : Value} :
    ((Expr.access chain span).elaborate scope).Yields t v ↔
      ∃ location, (chain.resolve scope).Yields t location ∧ .access location = v := by
  rw [Expr.elaborate]
  simp only [Check.yields_bind, Check.yields_pure]

theorem Expr.yields_old {chain : Chain} {span : Span} {v : Value} :
    ((Expr.old chain span).elaborate scope).Yields t v ↔
      scope.allowsOldValues = true ∧
        ∃ location, (chain.resolve scope).Yields t location ∧ .old location = v := by
  rw [Expr.elaborate]
  simp only [Check.yields_ite, Check.yields_bind, Check.yields_fail, Check.yields_pure]
  cases scope.allowsOldValues with
  | false => simp
  | true => simp

theorem Expr.yields_unary {token : String} {operand : Expr} {span : Span} {v : Value} :
    ((Expr.unary token operand span).elaborate scope).Yields t v ↔
      ∃ operator, UnaryOperator.ofToken? token = some operator ∧
        ∃ w, (operand.elaborate scope).Yields t w ∧ .unary operator w = v := by
  rw [Expr.elaborate]
  cases UnaryOperator.ofToken? token with
  | none => simp
  | some operator => simp only [Check.yields_bind, Check.yields_pure, Option.some.injEq,
      exists_eq_left']

theorem Expr.yields_binary {token : String} {left right : Expr} {span : Span} {v : Value} :
    ((Expr.binary token left right span).elaborate scope).Yields t v ↔
      ∃ operator, BinaryOperator.ofToken? token = some operator ∧
        ∃ w x, (left.elaborate scope).Yields t w ∧ (right.elaborate scope).Yields t x ∧
          .binary operator w x = v := by
  rw [Expr.elaborate]
  cases BinaryOperator.ofToken? token with
  | none => simp
  | some operator =>
    simp only [Check.yields_bind, Check.yields_both, Check.yields_pure, Option.some.injEq,
      exists_eq_left', Prod.exists, and_assoc]

theorem yields_resolveRest_name {field : Identifier} {current : String} {rest : List Segment}
    {links : List Link} :
    (resolveRest scope current (.name field :: rest)).Yields t links ↔
      ∃ type, (fieldType current field).Yields t type ∧
        ∃ others, (resolveRest scope type rest).Yields t others ∧
          .name field.name type none :: others = links := by
  rw [resolveRest]
  simp only [Check.yields_bind, Check.yields_pure]

theorem yields_resolveRest_index {index : Expr} {current : String} {rest : List Segment}
    {links : List Link} :
    (resolveRest scope current (.index index :: rest)).Yields t links ↔
      ∃ type, (elementType current index.span).Yields t type ∧
        ∃ value, (index.elaborate scope).Yields t value ∧
          ∃ others, (resolveRest scope type rest).Yields t others ∧
            .index value type :: others = links := by
  rw [resolveRest]
  simp only [Check.yields_bind, Check.yields_pure]

/-! ## Parts -/

theorem Chain.Resolves.nodes {segments : List Segment} {a : Access}
    (h : Chain.Resolves scope t segments a) :
    ∃ type rest links, (resolveRest scope type rest).Yields t links ∧
      a.nodes = Link.nodesOf links ∧ Segment.chainsOf segments = Segment.chainsOf rest ∧
        (segments.tail = rest ∨ segments.tail.tail = rest) := by
  cases h with
  | named _ hrest => exact ⟨_, _, _, hrest, rfl, rfl, Or.inl rfl⟩
  | getter _ _ hrest => exact ⟨_, _, _, hrest, rfl, rfl, Or.inl rfl⟩
  | automatonVariable _ _ hrest => exact ⟨_, _, _, hrest, rfl, rfl, Or.inr rfl⟩

mutual

/-- Every part of an elaborated value is elaborated in the same scope. -/
theorem Expr.nodes_elaborate (e : Expr) {v : Value} (h : (e.elaborate scope).Yields t v) :
    ∀ n ∈ v.nodes, ∃ e' : Expr, (e'.elaborate scope).Yields t n := by
  have hself : ∃ e' : Expr, (e'.elaborate scope).Yields t v := ⟨e, h⟩
  cases e with
  | literal value span =>
    obtain rfl := Check.yields_pure.mp h
    intro n hn
    rw [Value.nodes, List.mem_singleton] at hn
    exact hn ▸ hself
  | access chain span =>
    obtain ⟨location, hlocation, rfl⟩ := Expr.yields_access.mp h
    rw [Value.nodes]
    exact List.forall_mem_cons.mpr ⟨hself, chain.nodes_resolve hlocation⟩
  | old chain span =>
    obtain ⟨-, location, hlocation, rfl⟩ := Expr.yields_old.mp h
    rw [Value.nodes]
    exact List.forall_mem_cons.mpr ⟨hself, chain.nodes_resolve hlocation⟩
  | unary token operand span =>
    obtain ⟨operator, -, w, hw, rfl⟩ := Expr.yields_unary.mp h
    rw [Value.nodes]
    exact List.forall_mem_cons.mpr ⟨hself, operand.nodes_elaborate hw⟩
  | binary token left right span =>
    obtain ⟨operator, -, w, x, hw, hx, rfl⟩ := Expr.yields_binary.mp h
    rw [Value.nodes]
    refine List.forall_mem_cons.mpr ⟨hself, List.forall_mem_append.mpr ⟨?_, ?_⟩⟩
    · exact left.nodes_elaborate hw
    · exact right.nodes_elaborate hx
  | group inner span => exact inner.nodes_elaborate h
termination_by structural e

theorem Chain.nodes_resolve (c : Chain) {a : Access} (h : (c.resolve scope).Yields t a) :
    ∀ n ∈ a.nodes, ∃ e : Expr, (e.elaborate scope).Yields t n := by
  obtain ⟨type, rest, links, hrest, hnodes, -, hc⟩ := (Chain.resolves_of_resolve h).nodes
  rw [hnodes]
  rcases c with ⟨_ | ⟨first, _ | ⟨second, others⟩⟩, span⟩
  · cases h
  · obtain rfl : [] = rest := by simpa using hc
    exact nodes_resolveRest [] hrest
  · rcases hc with rfl | rfl
    · exact nodes_resolveRest (second :: others) hrest
    · exact nodes_resolveRest others hrest
termination_by structural c

theorem nodes_resolveRest (segments : List Segment) {current : String} {links : List Link}
    (h : (resolveRest scope current segments).Yields t links) :
    ∀ n ∈ Link.nodesOf links, ∃ e : Expr, (e.elaborate scope).Yields t n := by
  rcases segments with _ | ⟨name | index | ⟨automaton, argument⟩, rest⟩
  · obtain rfl := Check.yields_pure.mp h
    exact List.forall_mem_nil _
  · obtain ⟨type, -, links, hlinks, rfl⟩ := yields_resolveRest_name.mp h
    rw [Link.nodesOf, Link.nodes, List.nil_append]
    exact nodes_resolveRest rest hlinks
  · obtain ⟨type, -, value, hvalue, links, hlinks, rfl⟩ := yields_resolveRest_index.mp h
    rw [Link.nodesOf, Link.nodes]
    refine List.forall_mem_append.mpr ⟨?_, ?_⟩
    · exact index.nodes_elaborate hvalue
    · exact nodes_resolveRest rest hlinks
  · cases h
termination_by structural segments

end

/-! ## Locations -/

mutual

/-- The locations of an elaborated value are the chains of the expression, in the same order. -/
theorem Expr.chains_elaborate (e : Expr) {v : Value} (h : (e.elaborate scope).Yields t v) :
    List.Forall₂ (fun (c : Chain) a => (c.resolve scope).Yields t a) e.chains v.accesses := by
  cases e with
  | literal value span =>
    obtain rfl := Check.yields_pure.mp h
    exact .nil
  | access chain span =>
    obtain ⟨location, hlocation, rfl⟩ := Expr.yields_access.mp h
    exact .cons hlocation (chain.inner_resolve hlocation)
  | old chain span =>
    obtain ⟨-, location, hlocation, rfl⟩ := Expr.yields_old.mp h
    exact .cons hlocation (chain.inner_resolve hlocation)
  | unary token operand span =>
    obtain ⟨operator, -, w, hw, rfl⟩ := Expr.yields_unary.mp h
    rw [Expr.chains, Value.accesses_unary]
    exact operand.chains_elaborate hw
  | binary token left right span =>
    obtain ⟨operator, -, w, x, hw, hx, rfl⟩ := Expr.yields_binary.mp h
    rw [Expr.chains, Value.accesses_binary]
    exact List.rel_append (left.chains_elaborate hw) (right.chains_elaborate hx)
  | group inner span => exact inner.chains_elaborate h
termination_by structural e

theorem Chain.inner_resolve (c : Chain) {a : Access} (h : (c.resolve scope).Yields t a) :
    List.Forall₂ (fun (c : Chain) a => (c.resolve scope).Yields t a) c.inner a.inner := by
  obtain ⟨type, rest, links, hrest, hnodes, hchains, hc⟩ := (Chain.resolves_of_resolve h).nodes
  rw [Access.inner, hnodes]
  rcases c with ⟨_ | ⟨first, _ | ⟨second, others⟩⟩, span⟩
  · cases h
  · obtain rfl : [] = rest := by simpa using hc
    rw [Chain.inner, hchains]
    exact chainsOf_resolveRest [] hrest
  · rw [Chain.inner, hchains]
    rcases hc with rfl | rfl
    · exact chainsOf_resolveRest (second :: others) hrest
    · exact chainsOf_resolveRest others hrest
termination_by structural c

theorem chainsOf_resolveRest (segments : List Segment) {current : String} {links : List Link}
    (h : (resolveRest scope current segments).Yields t links) :
    List.Forall₂ (fun (c : Chain) a => (c.resolve scope).Yields t a) (Segment.chainsOf segments)
      ((Link.nodesOf links).filterMap Value.location?) := by
  rcases segments with _ | ⟨name | index | ⟨automaton, argument⟩, rest⟩
  · obtain rfl := Check.yields_pure.mp h
    exact .nil
  · obtain ⟨type, -, links, hlinks, rfl⟩ := yields_resolveRest_name.mp h
    rw [Link.nodesOf, Link.nodes, List.nil_append]
    exact chainsOf_resolveRest rest hlinks
  · obtain ⟨type, -, value, hvalue, links, hlinks, rfl⟩ := yields_resolveRest_index.mp h
    rw [Link.nodesOf, Link.nodes, List.filterMap_append]
    exact List.rel_append (index.chains_elaborate hvalue) (chainsOf_resolveRest rest hlinks)
  · cases h
termination_by structural segments

end

/-- Every location in an elaborated value is a chain that was resolved in the same scope. -/
theorem Expr.accesses_elaborate {e : Expr} {v : Value} (h : (e.elaborate scope).Yields t v) :
    ∀ a ∈ v.accesses, ∃ c : Chain, (c.resolve scope).Yields t a := by
  intro a ha
  obtain ⟨c, -, hc⟩ := forall₂_exists_left (e.chains_elaborate h) ha
  exact ⟨c, hc⟩

theorem ContractDecl.yields_elaborate {scope : Scope} {d : ContractDecl} {c : Contract}
    (h : (d.elaborate scope).Yields t c) :
    ∃ expression, (d.expression.elaborate (scope.inContract d.kind)).Yields t expression ∧
      c = ⟨d.name.map Identifier.name, d.kind, expression, d.span⟩ := by
  rw [ContractDecl.elaborate] at h
  simp only [Check.yields_bind, Check.yields_ite, Check.yields_pure, Check.yields_fail] at h
  obtain ⟨expression, hexpression, h⟩ := h
  refine ⟨expression, hexpression, ?_⟩
  split_ifs at h
  · obtain ⟨-, hfalse, -⟩ := h
    exact hfalse.elim
  · exact h.symm

end SyntaxTree

end LibraryContract
