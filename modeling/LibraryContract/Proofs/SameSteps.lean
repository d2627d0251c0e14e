import LibraryContract.Proofs.Candid
import LibraryContract.Proofs.Renumbering
import LibraryContract.Proofs.Transfer

/-!
# The same step in tables with one interface

An expression, an annotation or a signature that is looked up without an error in one table is looked
up without an error in every table that shows the same interface, and is the same there under the other
numbers. The lemmas follow the steps from members of types up to whole declarations, one lemma for each
step.

* `Expr.carries_elaborate`, `ConstructorCall.carries_resolve`: expressions and calls;
* `FunctionDecl.carries_signature`: signatures;
* `FunctionDecl.carries_elaborate`: contracts and bodies.
-/

namespace LibraryContract

open SyntaxTree

variable {V : Interface} {t t' : SymbolTable} {ρ : Renumbering}

/-! ## Members -/

section Looking

open Check

theorem passes_reachedType {name : String} {span : Span} {type : DataType} :
    (reachedType name span).Passes t type ↔ t.type? name = some type := by
  refine ⟨fun h => yields_reachedType.mp h.yields, fun h => ?_⟩
  refine passes_bind.mpr ⟨.ok type, ?_, passes_pure.mpr rfl⟩
  rw [passes_look, SymbolTable.resolveType, h]

variable (h : t.Shows V) (h' : t'.Shows V)

include h h'

theorem carries_reachedType {name : String} (hk : t'.Knows name) (span : Span) :
    Carries t t' (fun a b => a = b ∧ t'.type? name = some b) (reachedType name span)
      (reachedType name span) := by
  intro type htype
  have htype' := h.type?_of_knows h' (passes_reachedType.mp htype) hk
  exact ⟨type, passes_reachedType.mpr htype', rfl, htype'⟩

theorem carries_fieldOf (surface : String) (field : Identifier) (depth : Nat) (type : DataType)
    (htype : ∃ name, t'.type? name = some type) :
    Carries t t' Eq (fieldOf surface field depth type) (fieldOf surface field depth type) := by
  fun_induction fieldOf surface field depth type with
  | case5 _ name underlying backing =>
    obtain ⟨n, hn⟩ := htype
    have hk := (h'.closed.types n _ hn).mentions underlying List.mem_cons_self
    refine carries_bind (carries_reachedType h h' hk _) ?_
    rintro base _ ⟨rfl, -⟩
    split
    · exact carries_ite Iff.rfl (fun _ => carries_pure rfl) fun _ => carries_fail _ _ _ _
    · exact carries_fail _ _ _ _
  | case7 depth name target ih =>
    obtain ⟨n, hn⟩ := htype
    have hk := (h'.closed.types n _ hn).mentions target List.mem_cons_self
    refine carries_bind (carries_reachedType h h' hk _) ?_
    rintro next _ ⟨rfl, hnext⟩
    exact ih next ⟨target, hnext⟩
  | _ => first | exact carries_pure rfl | exact carries_fail _ _ _ _

theorem carries_elementOf (surface : String) (span : Span) (depth : Nat) (type : DataType)
    (htype : ∃ name, t'.type? name = some type) :
    Carries t t' Eq (elementOf surface span depth type) (elementOf surface span depth type) := by
  fun_induction elementOf surface span depth type with
  | case4 depth name target ih =>
    obtain ⟨n, hn⟩ := htype
    have hk := (h'.closed.types n _ hn).mentions target List.mem_cons_self
    refine carries_bind (carries_reachedType h h' hk _) ?_
    rintro next _ ⟨rfl, hnext⟩
    exact ih next ⟨target, hnext⟩
  | _ => first | exact carries_pure rfl | exact carries_fail _ _ _ _

theorem carries_fieldType {current : String} (hk : t'.Knows current) (field : Identifier) :
    Carries t t' (fun a b => a = b ∧ t'.Knows b) (fieldType current field)
      (fieldType current field) := by
  refine Carries.and_right ?_ fun b hb => fieldType_known h'.closed h'.wellFormed hb
  refine carries_bind (carries_reachedType h h' hk _) ?_
  rintro type _ ⟨rfl, htype⟩
  exact carries_fieldOf h h' _ _ _ _ ⟨current, htype⟩

theorem carries_elementType {current : String} (hk : t'.Knows current) (span : Span) :
    Carries t t' (fun a b => a = b ∧ t'.Knows b) (elementType current span)
      (elementType current span) := by
  refine Carries.and_right ?_ fun b hb => elementType_known h'.closed hb
  refine carries_bind (carries_reachedType h h' hk _) ?_
  rintro type _ ⟨rfl, htype⟩
  exact carries_elementOf h h' _ _ _ _ ⟨current, htype⟩

/-! ## Expressions -/

namespace SyntaxTree

theorem Identifier.carries_resolveAutomaton (name : Identifier) :
    Carries t t' (SameAutomaton t t') name.resolveAutomaton name.resolveAutomaton := by
  refine carries_look_bind ?_
  cases hid : t.automatonId? name.name with
  | none => exact carries_fail _ _ _ _
  | some id =>
    obtain ⟨id', hid', hsame⟩ := h.sameAutomaton h' hid
    rw [hid']
    exact carries_pure hsame

theorem Identifier.carries_resolveAutomatonVariable (hρ : ρ.TakesAutomata t t') (name : Identifier)
    {id id' : AutomatonId} (hid : SameAutomaton t t' id id') :
    Carries t t' (fun p q => q = Scope.renumberFound ρ p ∧ t'.Knows q.2)
      (name.resolveAutomatonVariable id) (name.resolveAutomatonVariable id') := by
  have hvariable := hid.variable_renumber h.housed h'.housed hρ name.name
  refine Carries.and_right ?_ ?_
  · refine carries_look_bind ?_
    cases hv : (t.automaton? id).bind fun a => a.variableNamed? name.name with
    | none => exact carries_look_bind (carries_fail _ _ _ _)
    | some v =>
      rw [hv] at hvariable
      obtain ⟨v', hv', hfound⟩ := Option.map_eq_some_iff.mp hvariable
      rw [hv']
      exact carries_pure hfound
  · rintro ⟨home, type⟩ hfound
    obtain ⟨a, v, ha, hv, -, rfl⟩ := Identifier.yields_resolveAutomatonVariable.mp hfound
    exact (h'.closed.variableNamed? ha hv).type

variable {s s' : Scope} (hs : s.Matches ρ t t' s')

include hs

theorem Identifier.carries_resolveVariable (name : Identifier) :
    Carries t t' (fun p q => q = Scope.renumberFound ρ p ∧ t'.Knows q.2) (name.resolveVariable s)
      (name.resolveVariable s') := by
  refine Carries.and_right ?_ ?_
  · refine carries_look_bind ?_
    rw [hs.lookup? h h' name.name]
    cases s.lookup? t name.name with
    | none => exact carries_fail _ _ _ _
    | some found =>
      refine carries_ite ?_ (fun _ => carries_fail _ _ _ _) fun _ => carries_pure rfl
      rw [VariableScope.isResult_renumber, Scope.allowsResult, Scope.allowsResult, hs.contract]
  · rintro ⟨home, type⟩ hfound
    exact (h'.closed.lookup? (Identifier.yields_resolveVariable.mp hfound).1).2

theorem carries_resolveGetter (automaton argument : Identifier) :
    Carries t t' (fun p q => SameAutomaton t t' p.1 q.1 ∧ p.2 = q.2 ∧ t'.Knows q.2)
      (resolveGetter automaton argument s) (resolveGetter automaton argument s') := by
  refine carries_bind (automaton.carries_resolveAutomaton h h') fun id id' hid => ?_
  refine carries_look_bind (carries_ite ?_ (fun _ => carries_fail _ _ _ _) fun _ => ?_)
  · rw [hs.lookup? h h' argument.name, Option.isNone_map]
  · refine carries_look_bind (carries_pure ⟨hid, hid.type_eq, ?_⟩)
    obtain ⟨a, a', -, ha', -, -⟩ := hid
    rw [ha']
    exact (h'.closed.automata id' a' ha').type

omit h h' hs

mutual

theorem Expr.carries_elaborate (h : t.Shows V) (h' : t'.Shows V) (hs : s.Matches ρ t t' s')
    (e : Expr) :
    Carries t t' (fun v v' => v' = v.renumber ρ) (e.elaborate s) (e.elaborate s') := by
  cases e with
  | literal value span => exact carries_pure rfl
  | access chain span =>
    refine carries_bind (chain.carries_resolve h h' hs) ?_
    rintro location _ rfl
    exact carries_pure rfl
  | old chain span =>
    refine carries_guard ?_ fun _ => ?_
    · rw [Scope.allowsOldValues, Scope.allowsOldValues, hs.contract]
    · refine carries_bind (chain.carries_resolve h h' hs) ?_
      rintro location _ rfl
      exact carries_pure rfl
  | unary token operand span =>
    rw [Expr.elaborate, Expr.elaborate]
    cases UnaryOperator.ofToken? token with
    | none => exact carries_reject _ _ _
    | some operator =>
      refine carries_bind (operand.carries_elaborate h h' hs) ?_
      rintro value _ rfl
      exact carries_pure rfl
  | binary token left right span =>
    rw [Expr.elaborate, Expr.elaborate]
    cases BinaryOperator.ofToken? token with
    | none => exact carries_reject _ _ _
    | some operator =>
      refine carries_bind (carries_both (left.carries_elaborate h h' hs)
        (right.carries_elaborate h h' hs)) ?_
      rintro ⟨x, y⟩ ⟨_, _⟩ ⟨rfl, rfl⟩
      exact carries_pure rfl
  | group inner span => exact inner.carries_elaborate h h' hs
termination_by structural e

theorem Chain.carries_resolve (h : t.Shows V) (h' : t'.Shows V) (hs : s.Matches ρ t t' s')
    (c : Chain) :
    Carries t t' (fun a a' => a' = a.renumber ρ) (c.resolve s) (c.resolve s') := by
  rcases c with ⟨_ | ⟨name | index | ⟨automaton, argument⟩, rest⟩, span⟩
  · exact carries_reject _ _ _
  · refine carries_bind (name.carries_resolveVariable h h' hs) ?_
    rintro ⟨home, type⟩ _ ⟨rfl, hk⟩
    refine carries_bind (carries_resolveRest h h' hs rest hk) ?_
    rintro links _ rfl
    exact carries_pure rfl
  · exact carries_reject _ _ _
  · have hgetter : ∀ p q : AutomatonId × String,
        SameAutomaton t t' p.1 q.1 ∧ p.2 = q.2 ∧ t'.Knows q.2 →
          Carries t t' (fun a a' => a' = a.renumber ρ) (do
            let rest ← resolveRest s p.2 rest
            return (⟨.getter p.1 argument.name p.2, rest⟩ : Access)) (do
            let rest ← resolveRest s' q.2 rest
            return (⟨.getter q.1 argument.name q.2, rest⟩ : Access)) := by
      rintro ⟨id, type⟩ ⟨id', _⟩ ⟨hid, rfl, hk⟩
      refine carries_bind (carries_resolveRest h h' hs rest hk) ?_
      rintro links _ rfl
      obtain rfl := hs.takes id id' hid
      exact carries_pure rfl
    rcases rest with _ | ⟨name | index | ⟨_, _⟩, rest⟩
    · exact carries_bind (carries_resolveGetter h h' hs _ _) hgetter
    · refine carries_bind (carries_resolveGetter h h' hs _ _) ?_
      rintro ⟨id, type⟩ ⟨id', _⟩ ⟨hid, rfl, -⟩
      refine carries_bind (name.carries_resolveAutomatonVariable h h' hs.takes hid) ?_
      rintro ⟨home, reached⟩ _ ⟨rfl, hk⟩
      refine carries_bind (carries_resolveRest h h' hs rest hk) ?_
      rintro links _ rfl
      obtain rfl := hs.takes id id' hid
      exact carries_pure rfl
    · exact carries_bind (carries_resolveGetter h h' hs _ _) hgetter
    · exact carries_bind (carries_resolveGetter h h' hs _ _) hgetter
termination_by structural c

theorem carries_resolveRest (h : t.Shows V) (h' : t'.Shows V) (hs : s.Matches ρ t t' s')
    (segments : List Segment) {current : String} (hk : t'.Knows current) :
    Carries t t' (fun links links' => links' = Link.renumberAll ρ links)
      (resolveRest s current segments) (resolveRest s' current segments) := by
  rcases segments with _ | ⟨name | index | ⟨automaton, argument⟩, rest⟩
  · exact carries_pure rfl
  · refine carries_bind (carries_fieldType h h' hk name) ?_
    rintro type _ ⟨rfl, hk⟩
    refine carries_bind (carries_resolveRest h h' hs rest hk) ?_
    rintro links _ rfl
    exact carries_pure rfl
  · refine carries_bind (carries_elementType h h' hk _) ?_
    rintro type _ ⟨rfl, hk⟩
    refine carries_bind (index.carries_elaborate h h' hs) ?_
    rintro value _ rfl
    refine carries_bind (carries_resolveRest h h' hs rest hk) ?_
    rintro links _ rfl
    exact carries_pure rfl
  · exact carries_reject _ _ _
termination_by structural segments

end

include h h' hs

/-! ## Parts of declarations -/

theorem AnnotationUse.carries_resolve (use : AnnotationUse) :
    Carries t t' (fun r r' => r' = r.renumber ρ) (use.resolve s) (use.resolve s') := by
  refine carries_look_bind ?_
  rw [h.annotation?_eq h' use.name.name]
  cases (t'.annotation? use.name.name).map fun a => a.parameters.length with
  | none => exact carries_fail _ _ _ _
  | some expected =>
    refine carries_ite Iff.rfl (fun _ => carries_fail _ _ _ _) fun _ => ?_
    refine carries_bind (carries_mapM_map fun e _ => e.carries_elaborate h h' hs) ?_
    rintro values _ rfl
    exact carries_pure rfl

theorem carries_resolveAnnotations (uses : List AnnotationUse) :
    Carries t t' (fun rs rs' => rs' = rs.map (LibraryContract.AnnotationUse.renumber ρ))
      (resolveAnnotations s uses) (resolveAnnotations s' uses) :=
  carries_mapM_map fun use _ => use.carries_resolve h h' hs

omit h h' hs in
theorem Identifier.carries_resolveState (name : Identifier) {id id' : AutomatonId}
    (hid : SameAutomaton t t' id id') :
    Carries t t' Eq (name.resolveState id) (name.resolveState id') := by
  refine carries_look_bind (carries_ite ?_ (fun _ => carries_pure rfl) fun _ => carries_fail _ _ _ _)
  obtain ⟨a, a', ha, ha', -, hface⟩ := hid
  have hstates : a.states = a'.states := congrArg Automaton.Face.states hface
  rw [ha, ha', Option.bind_some, Option.bind_some, Automaton.state?, Automaton.state?, hstates]

namespace ConstructorCall

omit h h' hs in
theorem carries_resolveState {id id' : AutomatonId} (hid : SameAutomaton t t' id id') (value : Expr) :
    Carries t t' Eq (resolveState id value) (resolveState id' value) := by
  rw [resolveState, resolveState]
  cases bareName? value with
  | none => exact carries_fail _ _ _ _
  | some name => exact name.carries_resolveState hid

theorem carries_resolveArguments {id id' : AutomatonId} (hid : SameAutomaton t t' id id')
    (automaton : String) (arguments : List NamedArgument) (state : Option String)
    (bound : List ConstructorArgument) :
    Carries t t' (fun p q => q = (p.1, p.2.map (ConstructorArgument.renumber ρ)))
      (resolveArguments s id automaton state bound arguments)
      (resolveArguments s' id' automaton state (bound.map (ConstructorArgument.renumber ρ))
        arguments) := by
  induction arguments generalizing state bound with
  | nil => exact carries_pure rfl
  | cons argument rest ih =>
    refine carries_ite Iff.rfl (fun _ => ?_) fun _ => ?_
    · refine carries_guard Iff.rfl fun _ => ?_
      refine carries_bind (carries_resolveState hid argument.value) ?_
      rintro state _ rfl
      exact ih (some state) bound
    · refine carries_look_bind (carries_guard ?_ fun _ => carries_guard ?_ fun _ => ?_)
      · obtain ⟨a, a', ha, ha', -, hface⟩ := hid
        have hvariables := congrArg Automaton.Face.constructorVariables hface
        rw [ha, ha', Option.map_some, Option.map_some, Option.getD_some, Option.getD_some,
          ← OrderedMap.contains_map Variable.type, ← OrderedMap.contains_map Variable.type]
        rw [show a.constructorVariables.map Variable.type = _ from hvariables]
        rfl
      · rw [List.any_map]
        rfl
      · refine carries_bind (argument.value.carries_elaborate h h' hs) ?_
        rintro value _ rfl
        have hbound := ih state (bound ++ [⟨argument.name.name, value⟩])
        rwa [List.map_append] at hbound

theorem carries_resolve (call : ConstructorCall) :
    Carries t t' (fun c c' => c' = c.renumber ρ) (call.resolve s) (call.resolve s') := by
  refine carries_bind (call.automaton.carries_resolveAutomaton h h') fun id id' hid => ?_
  refine carries_bind (carries_resolveArguments h h' hs hid _ _ none []) ?_
  rintro ⟨state, arguments⟩ _ rfl
  cases state with
  | none => exact carries_fail _ _ _ _
  | some state =>
    obtain rfl := hs.takes id id' hid
    exact carries_pure rfl

end ConstructorCall

theorem ContractDecl.carries_elaborate (d : ContractDecl) :
    Carries t t' (fun c c' => c' = c.renumber ρ) (d.elaborate s) (d.elaborate s') := by
  have hs : (s.inContract d.kind).Matches ρ t t' (s'.inContract d.kind) := { hs with contract := rfl }
  refine carries_bind (d.expression.carries_elaborate h h' hs) ?_
  rintro v _ rfl
  refine carries_guard ?_ fun _ => carries_pure rfl
  cases v <;> exact Iff.rfl

omit hs in
theorem Parameter.carries_resolveTarget (p : Parameter) :
    Carries t t' (SameAutomaton t t') p.resolveTarget p.resolveTarget := by
  rw [Parameter.resolveTarget]
  cases p.type with
  | named name => exact name.carries_resolveAutomaton h h'
  | array _ => exact carries_fail _ _ _ _

omit hs in
theorem FunctionDecl.carries_resolveOwner (options : Options) (d : FunctionDecl)
    {enclosing enclosing' : Option AutomatonId}
    (he : Option.Rel (SameAutomaton t t') enclosing enclosing') :
    Carries t t' (SameAutomaton t t') (d.resolveOwner options enclosing)
      (d.resolveOwner options enclosing') := by
  unfold FunctionDecl.resolveOwner
  cases d.automaton with
  | none =>
    cases he with
    | none => exact carries_fail _ _ _ _
    | some hid => exact carries_pure hid
  | some qualifier =>
    cases he with
    | none => exact qualifier.carries_resolveAutomaton h h'
    | some hid =>
      refine carries_look_bind (carries_ite ?_ (fun _ => ?_) fun _ => carries_fail _ _ _ _)
      · rw [hid.name_eq]
      · refine carries_bind (R := fun _ _ => True) ?_ fun _ _ _ => carries_pure hid
        exact fun _ _ => ⟨(), passes_warn.mpr trivial, trivial⟩

omit h h' hs in
theorem Identifier.carries_resolveSource (name : Identifier) {id id' : AutomatonId}
    (hid : SameAutomaton t t' id id') :
    Carries t t' Eq (name.resolveSource id) (name.resolveSource id') := by
  refine carries_ite Iff.rfl (fun _ => carries_pure rfl) fun _ => ?_
  refine carries_ite Iff.rfl (fun _ => carries_fail _ _ _ _) fun _ => ?_
  refine carries_bind (name.carries_resolveState hid) ?_
  rintro state _ rfl
  exact carries_pure rfl

omit h h' hs in
theorem Identifier.carries_resolveTarget (name : Identifier) {id id' : AutomatonId}
    (hid : SameAutomaton t t' id id') :
    Carries t t' Eq (name.resolveTarget id) (name.resolveTarget id') := by
  refine carries_ite Iff.rfl (fun _ => carries_pure rfl) fun _ => ?_
  refine carries_ite Iff.rfl (fun _ => carries_fail _ _ _ _) fun _ => ?_
  refine carries_bind (name.carries_resolveState hid) ?_
  rintro state _ rfl
  exact carries_pure rfl

end SyntaxTree

end Looking

/-! ## Types and signatures -/

section Building

open Build

/-- Both tables have met nothing but arrays since. -/
structure BothIntern (t t' u u' : SymbolTable) : Prop where
  left : Relation.ReflTransGen Interns t u
  right : Relation.ReflTransGen Interns t' u'

variable {u u' v v' : SymbolTable}

theorem BothIntern.refl (t t' : SymbolTable) : BothIntern t t' t t' := ⟨.refl, .refl⟩

theorem BothIntern.trans (hu : BothIntern t t' u u') (hv : BothIntern u u' v v') :
    BothIntern t t' v v' := ⟨hu.left.trans hv.left, hu.right.trans hv.right⟩

/-- Arrays do not matter for places. -/
theorem BothIntern.matches (hu : BothIntern t t' u u') {s s' : Scope} (hs : s.Matches ρ t t' s') :
    s.Matches ρ u u' s' := by
  obtain ⟨types, rfl⟩ := Interns.types_only hu.left
  obtain ⟨types', rfl⟩ := Interns.types_only hu.right
  exact hs.of_tables rfl rfl hs.operation

theorem BothIntern.sameAutomaton (hu : BothIntern t t' u u') : SameAutomaton u u' = SameAutomaton t t' := by
  obtain ⟨types, rfl⟩ := Interns.types_only hu.left
  obtain ⟨types', rfl⟩ := Interns.types_only hu.right
  rfl

namespace SyntaxTree

variable (h : t.Shows V) (h' : t'.Shows V)

include h h'

theorem TypeExpr.carries_resolve {e : TypeExpr} (he : BracketFree e.innermost.name) :
    Carries t t' (fun a u a' u' => a = a' ∧ BothIntern t t' u u') e.resolve e.resolve := by
  intro a u ha
  have hk := h.knows h' he (TypeExpr.clean_resolve_iff.mp ⟨a, u, ha⟩)
  obtain ⟨a', u', ha'⟩ := TypeExpr.clean_resolve_iff.mpr hk
  refine ⟨a', u', ha', ?_, ha.yields.reaches (e.resolve_within t),
    ha'.yields.reaches (e.resolve_within t')⟩
  rw [(TypeExpr.resolve_known ha.yields).1, (TypeExpr.resolve_known ha'.yields).1]

theorem TypeExpr.carries_mapM_resolve {es : List TypeExpr}
    (hes : ∀ e ∈ es, BracketFree e.innermost.name) :
    Carries t t' (fun as u as' u' => as = as' ∧ BothIntern t t' u u')
      (es.mapM fun e : TypeExpr => e.resolve) (es.mapM fun e : TypeExpr => e.resolve) := by
  induction es generalizing t t' with
  | nil => exact carries_pure ⟨rfl, .refl t t'⟩
  | cons e rest ih =>
    rw [List.mapM_cons]
    refine carries_bind (e.carries_resolve h h' (hes e List.mem_cons_self)) ?_
    rintro a u _ u' ⟨rfl, hu⟩
    refine carries_bind (ih (h.interns hu.left) (h'.interns hu.right)
      fun e' he' => hes e' (List.mem_cons_of_mem e he')) ?_
    rintro as v _ v' ⟨rfl, hv⟩
    exact carries_pure ⟨rfl, hu.trans hv⟩

/-- The same argument, with related automata when it is the target. -/
def Parameter.SameArgument (ρ : Renumbering) (R : AutomatonId → AutomatonId → Prop)
    (p q : Argument × Option AutomatonId) : Prop :=
  q.1 = p.1.renumber ρ ∧ Option.Rel R p.2 q.2

variable {s s' : Scope} (hs : s.Matches ρ t t' s')

include hs

theorem Parameter.carries_resolve (index : Nat) (p : Parameter)
    (hp : ∀ e ∈ p.typeExprs, BracketFree e.innermost.name) :
    Carries t t' (fun a u a' u' => Parameter.SameArgument ρ (SameAutomaton t t') a a' ∧ BothIntern t t' u u')
      (p.resolve s index) (p.resolve s' index) := by
  have hnames := Check.Carries.and_right (carries_resolveAnnotations h h' hs p.annotations)
    fun uses huses => resolveAnnotations_names huses
  refine carries_liftM_bind hnames ?_
  rintro uses _ ⟨rfl, hused⟩
  have hmap : uses.map LibraryContract.AnnotationUse.name =
      (uses.map (LibraryContract.AnnotationUse.renumber ρ)).map LibraryContract.AnnotationUse.name := by
    rw [List.map_map]
    rfl
  refine carries_ite ?_ (fun _ => ?_) fun hplain => ?_
  · rw [isTarget_of_names (hmap.trans hused), isTarget_of_names hused]
  · refine carries_liftM_bind (p.carries_resolveTarget h h') fun target target' htarget => ?_
    refine carries_look_bind (carries_pure ⟨⟨?_, .some htarget⟩, .refl t t'⟩)
    rw [htarget.type_eq]
    rfl
  · have hfree : BracketFree p.type.innermost.name := by
      rw [isTarget_of_names (hmap.trans hused)] at hplain
      exact hp p.type (by rw [Parameter.typeExprs, if_neg hplain]; exact List.mem_singleton_self _)
    refine carries_bind (p.type.carries_resolve h h' hfree) ?_
    rintro type u _ u' ⟨rfl, hu⟩
    exact carries_pure ⟨⟨rfl, .none⟩, hu⟩

theorem Parameter.carries_resolveAll (words : String) (seen : List String) (index : Nat)
    (ps : List Parameter) (hps : ∀ p ∈ ps, ∀ e ∈ p.typeExprs, BracketFree e.innermost.name) :
    Carries t t' (fun as u as' u' =>
        List.Forall₂ (Parameter.SameArgument ρ (SameAutomaton t t')) as as' ∧ BothIntern t t' u u')
      (Parameter.resolveAll s words seen index ps) (Parameter.resolveAll s' words seen index ps) := by
  induction ps generalizing t t' seen index with
  | nil => exact carries_pure ⟨.nil, .refl t t'⟩
  | cons p rest ih =>
    refine carries_guard Iff.rfl fun _ => ?_
    refine carries_bind (p.carries_resolve h h' hs index (hps p List.mem_cons_self)) ?_
    rintro a u a' u' ⟨ha, hu⟩
    refine carries_bind (ih (h.interns hu.left) (h'.interns hu.right) (hu.matches hs) _ _
      fun q hq => hps q (List.mem_cons_of_mem p hq)) ?_
    rintro as v as' v' ⟨has, hv⟩
    rw [hu.sameAutomaton] at has
    exact carries_pure ⟨.cons ha has, hu.trans hv⟩

omit hs

omit h h' in
/-- The same arguments work on the automaton of the same name. -/
theorem Parameter.targetName_eq {as as' : List (Argument × Option AutomatonId)}
    (has : List.Forall₂ (Parameter.SameArgument ρ (SameAutomaton t t')) as as') :
    ((as.findSome? Prod.snd).bind t.automaton?).map Automaton.name =
      ((as'.findSome? Prod.snd).bind t'.automaton?).map Automaton.name := by
  induction has with
  | nil => rfl
  | @cons p q _ _ hpq _ ih =>
    obtain ⟨a, target⟩ := p
    obtain ⟨a', target'⟩ := q
    obtain ⟨-, ⟨b, b', hb, hb', hname, -⟩ | _⟩ := hpq
    · simp only [List.findSome?_cons, Option.bind_some, hb, hb', Option.map_some, hname]
    · exact ih

theorem FunctionDecl.carries_signature (hρ : ρ.TakesAutomata t t') (d : FunctionDecl)
    {owner owner' : AutomatonId} (howner : SameAutomaton t t' owner owner')
    (hd : ∀ e ∈ d.typeExprs, BracketFree e.innermost.name) :
    Carries t t' (fun s u s' u' => s' = s.renumber ρ ∧ BothIntern t t' u u') (d.signature owner)
      (d.signature owner') := by
  have hs : (Scope.inAutomaton owner).Matches ρ t t' (.inAutomaton owner') :=
    ⟨.some howner, .none, .none, rfl, hρ, rfl⟩
  have hps : ∀ p ∈ d.parameters, ∀ e ∈ p.typeExprs, BracketFree e.innermost.name := by
    intro p hp e he
    exact hd e (List.mem_append_left _ (List.mem_flatMap.mpr ⟨p, hp, he⟩))
  refine carries_look_bind (carries_liftM_bind (carries_resolveAnnotations h h' hs _) ?_)
  rintro uses _ rfl
  refine carries_bind (Parameter.carries_resolveAll h h' hs _ _ _ _ hps) ?_
  rintro as u as' u' ⟨has, hu⟩
  have hreturn : Carries u u' (fun r v r' v' => r = r' ∧ BothIntern u u' v v')
      (d.returnType.mapM fun type => type.resolve) (d.returnType.mapM fun type => type.resolve) := by
    cases hr : d.returnType with
    | none => exact carries_pure ⟨rfl, .refl u u'⟩
    | some type =>
      have hfree : BracketFree type.innermost.name :=
        hd type (List.mem_append_right _ (by rw [hr]; exact List.mem_singleton_self _))
      refine carries_bind (type.carries_resolve (h.interns hu.left) (h'.interns hu.right) hfree) ?_
      rintro name v _ v' ⟨rfl, hv⟩
      exact carries_pure ⟨rfl, hv⟩
  refine carries_bind hreturn ?_
  rintro returnType v _ v' ⟨rfl, hv⟩
  refine carries_look_bind (carries_pure ⟨?_, hu.trans hv⟩)
  have htarget : ((as.findSome? Prod.snd).bind v.automaton?).map Automaton.name =
      ((as'.findSome? Prod.snd).bind v'.automaton?).map Automaton.name := by
    refine Parameter.targetName_eq (ρ := ρ) ?_
    rw [(hu.trans hv).sameAutomaton]
    exact has
  have harguments : as'.map Prod.fst = (as.map Prod.fst).map (Argument.renumber ρ) := by
    rw [← List.forall₂_eq_eq_eq, List.forall₂_map_left_iff, List.map_map, List.forall₂_map_right_iff]
    exact has.flip.imp fun _ _ hp => hp.1
  rw [htarget, howner.name_eq, harguments]
  rfl

end SyntaxTree

end Building

/-! ## Contracts and bodies -/

section Bodies

open Build

/-- The relation between operations is left alone by what a contract or a statement adds to both, under
the other numbers. -/
structure Renumbering.Keeps (ρ : Renumbering) (Q : Operation → Operation → Prop) : Prop where
  resembles : ∀ {o o'}, Q o o' → o.Resembles o'
  contract : ∀ {o o'} (c : Contract), Q o o' → Q { o with contracts := o.contracts ++ [c] }
    { o' with contracts := o'.contracts ++ [c.renumber ρ] }
  statement : ∀ {o o'} (s : LibraryContract.Statement), Q o o' →
    Q { o with statements := o.statements ++ [s] }
      { o' with statements := o'.statements ++ [s.renumber ρ] }
  declared : ∀ {o o'} (v : Variable), Q o o' → Q { o with locals := o.locals.insert v.name v }
    { o' with locals := o'.locals.insert v.name (v.renumber ρ) }

theorem Renumbering.keeps_resembles (ρ : Renumbering) : ρ.Keeps Operation.Resembles where
  resembles h := h
  contract _ h := ⟨h.arguments, h.locals⟩
  statement _ h := ⟨h.arguments, h.locals⟩
  declared v h := by
    refine ⟨h.arguments, ?_⟩
    rw [OrderedMap.map_insert, OrderedMap.map_insert, h.locals, Variable.renumber,
      VariableScope.isResult_renumber]

/-- Two places in the bodies of related operations, which match. -/
structure Scope.InStep (ρ : Renumbering) (Q : Operation → Operation → Prop) (t t' : SymbolTable)
    (s s' : Scope) (id : OperationId) : Prop where
  places : s.Matches ρ t t' s'
  around : s.operation = some id
  paired : Paired Q t t' id (ρ.operation id)

variable {Q : Operation → Operation → Prop} {s s' : Scope} {id : OperationId}

theorem Scope.InStep.interns {u u' : SymbolTable} (hs : s.InStep ρ Q t t' s' id)
    (hu : BothIntern t t' u u') : s.InStep ρ Q u u' s' id := by
  refine ⟨hu.matches hs.places, hs.around, ?_⟩
  obtain ⟨types, rfl⟩ := Interns.types_only hu.left
  obtain ⟨types', rfl⟩ := Interns.types_only hu.right
  exact hs.paired

/-- What leaves the operations related leaves the places in step. -/
theorem Scope.InStep.modifyOperation (hQ : ρ.Keeps Q) (hs : s.InStep ρ Q t t' s' id)
    {f g : Operation → Operation} (hfg : ∀ o o', Q o o' → Q (f o) (g o')) :
    s.InStep ρ Q (t.modifyOperation id f) (t'.modifyOperation (ρ.operation id) g) s' id := by
  obtain ⟨hplaces, haround, o, o', ho, ho', hlike⟩ := hs
  have hpaired : Paired Q (t.modifyOperation id f) (t'.modifyOperation (ρ.operation id) g) id
      (ρ.operation id) := by
    refine ⟨f o, g o', ?_, ?_, hfg o o' hlike⟩
    · rw [SymbolTable.operation?_modifyOperation, if_pos rfl, ho, Option.map_some]
    · rw [SymbolTable.operation?_modifyOperation, if_pos rfl, ho', Option.map_some]
  refine ⟨hplaces.of_tables rfl rfl ?_, haround, hpaired⟩
  rw [hplaces.inside, haround]
  obtain ⟨p, p', hp, hp', hrelated⟩ := hpaired
  exact .some ⟨p, p', hp, hp', hQ.resembles hrelated⟩

namespace SyntaxTree

variable (h : t.Shows V) (h' : t'.Shows V) (hQ : ρ.Keeps Q) (hs : s.InStep ρ Q t t' s' id)

include h h' hQ hs

theorem VariableDecl.carries_declareLocal (d : VariableDecl)
    (hd : BracketFree d.type.innermost.name) :
    Carries t t' (fun c u c' u' => c' = c.renumber ρ ∧ s.InStep ρ Q u u' s' id)
      (d.declareLocal s id) (d.declareLocal s' (ρ.operation id)) := by
  obtain ⟨o, o', ho, ho', hlike⟩ := hs.paired
  have hargument := congrArg Option.isSome ((hQ.resembles hlike).argument? d.name.name)
  rw [Option.isSome_map, Option.isSome_map] at hargument
  unfold VariableDecl.declareLocal
  refine carries_look_bind ?_
  rw [ho, ho']
  refine carries_guard (by rw [Option.bind_some, Option.bind_some, hargument]) fun _ => ?_
  refine carries_bind (d.type.carries_resolve h h' hd) ?_
  rintro type u _ u' ⟨rfl, hu⟩
  have hsu := hs.interns hu
  have hinitial : Carries u u' (fun x v x' v' => x' = x.map (Value.renumber ρ) ∧ u = v ∧ u' = v')
      (d.initializer.mapM fun e => (liftM (e.elaborate s) : Build Value))
      (d.initializer.mapM fun e => (liftM (e.elaborate s') : Build Value)) := by
    cases d.initializer with
    | none => exact carries_pure ⟨rfl, rfl, rfl⟩
    | some e =>
      refine carries_liftM_bind
        (e.carries_elaborate (h.interns hu.left) (h'.interns hu.right) hsu.places) ?_
      rintro x _ rfl
      exact carries_pure ⟨rfl, rfl, rfl⟩
  refine carries_bind hinitial ?_
  rintro x _ x' _ ⟨rfl, rfl, rfl⟩
  obtain ⟨types, rfl⟩ := Interns.types_only hu.left
  obtain ⟨types', rfl⟩ := Interns.types_only hu.right
  -- the variable is new in both operations or in neither
  have hlocals : ∀ {v : SymbolTable} {j : OperationId} {p : Operation}, v.operation? j = some p →
      v.variablesIn (.body j) = p.locals := by
    intro v j p hp
    simp only [SymbolTable.variablesIn, hp, Option.map_some, Option.getD_some]
  refine carries_bind (P := fun _ u _ u' => s.InStep ρ Q u u' s' id) ?_ fun _ _ _ _ hv =>
    carries_pure ⟨rfl, hv⟩
  intro _ v hv
  obtain ⟨-, hnew, rfl⟩ := SymbolTable.registerVariable_eq_ok.mp (clean_registerUnit.mp hv)
  rw [hlocals (show ({ t with types := types } : SymbolTable).operation? id = some o from ho)] at hnew
  have hnew' := ((hQ.resembles hlike).contains d.name.name).symm.trans hnew
  refine ⟨(), _, clean_registerUnit.mpr (SymbolTable.registerVariable_eq_ok.mpr ⟨?_, ?_, rfl⟩), ?_⟩
  · exact fun _ heq => by cases heq
  · rw [hlocals (show ({ t' with types := types' } : SymbolTable).operation? _ = some o' from ho')]
    exact hnew'
  · exact hsu.modifyOperation hQ fun p p' hp => hQ.declared _ hp

theorem Statement.carries_elaborate (d : Statement)
    (hd : ∀ e ∈ d.typeExprs, BracketFree e.innermost.name) :
    Carries t t' (fun c u c' u' => c' = c.renumber ρ ∧ s.InStep ρ Q u u' s' id) (d.elaborate s id)
      (d.elaborate s' (ρ.operation id)) := by
  cases d with
  | assignment target value call span =>
    cases value with
    | none =>
      cases call with
      | none => exact carries_reject _ _ _
      | some call =>
        refine carries_liftM_bind (target.carries_resolve h h' hs.places) ?_
        rintro location _ rfl
        refine carries_liftM_bind (call.carries_resolve h h' hs.places) ?_
        rintro constructed _ rfl
        exact carries_pure ⟨rfl, hs⟩
    | some value =>
      cases call with
      | none =>
        refine carries_liftM_bind (target.carries_resolve h h' hs.places) ?_
        rintro location _ rfl
        refine carries_liftM_bind (value.carries_elaborate h h' hs.places) ?_
        rintro assigned _ rfl
        exact carries_pure ⟨rfl, hs⟩
      | some call => exact carries_reject _ _ _
  | action name arguments span =>
    have harguments : Carries t t'
        (fun as u as' u' => List.Forall₂ (fun v v' => v' = v.renumber ρ) as as' ∧ t = u ∧ t' = u')
        (arguments.mapM fun e => (liftM (e.elaborate s) : Build Value))
        (arguments.mapM fun e => (liftM (e.elaborate s') : Build Value)) := by
      refine carries_mapM (I := fun u u' => t = u ∧ t' = u') ?_ ⟨rfl, rfl⟩
      rintro e - _ _ ⟨rfl, rfl⟩
      exact carries_ofCheck (e.carries_elaborate h h' hs.places)
    refine carries_bind harguments ?_
    rintro values _ values' _ ⟨hvalues, rfl, rfl⟩
    refine carries_pure ⟨?_, hs⟩
    have hmap : values' = values.map (Value.renumber ρ) := by
      rw [← List.forall₂_eq_eq_eq, List.forall₂_map_right_iff]
      exact hvalues.flip
    rw [hmap]
    rfl
  | «variable» declaration =>
    exact declaration.carries_declareLocal h h' hQ hs (hd _ List.mem_cons_self)

theorem FunctionDecl.carries_elaborateContracts (ds : List ContractDecl) :
    Carries t t' (fun _ u _ u' => s.InStep ρ Q u u' s' id) (elaborateContracts s id ds)
      (elaborateContracts s' (ρ.operation id) ds) := by
  induction ds generalizing t t' with
  | nil => exact carries_pure hs
  | cons d rest ih =>
    rw [elaborateContracts, elaborateContracts]
    have hd := (carries_ofCheck (d.carries_elaborate h h' hs.places)).yields
    refine carries_attempt_bind (candid_ofCheck (d.candid_elaborate s)) hd ?_
    rintro c _ _ _ ⟨⟨rfl, rfl, rfl⟩, hc, hc'⟩
    have haround' : s'.operation = some (ρ.operation id) := by
      rw [hs.places.inside, hs.around, Option.map_some]
    refine carries_bind (P := fun _ u _ u' => u.Shows V ∧ u'.Shows V ∧ s.InStep ρ Q u u' s' id) ?_ ?_
    · refine carries_modify ⟨?_, ?_, ?_⟩
      · exact h.elaborates (.single (.contract hs.around (yields_ofCheck.mp hc).1))
      · exact h'.elaborates (.single (.contract haround' (yields_ofCheck.mp hc').1))
      · exact hs.modifyOperation hQ fun o o' ho => hQ.contract c ho
    · rintro _ u _ u' ⟨hu, hu', hstep⟩
      exact ih hu hu' hstep

theorem FunctionDecl.carries_elaborateBody (hc : s.contract = none) (statements : List Statement)
    (hd : ∀ d ∈ statements, ∀ e ∈ d.typeExprs, BracketFree e.innermost.name) :
    Carries t t' (fun _ u _ u' => s.InStep ρ Q u u' s' id) (elaborateBody s id statements)
      (elaborateBody s' (ρ.operation id) statements) := by
  have hc' : s'.contract = none := hs.places.contract.symm.trans hc
  have haround' : s'.operation = some (ρ.operation id) := by
    rw [hs.places.inside, hs.around, Option.map_some]
  induction statements generalizing t t' with
  | nil => exact carries_pure hs
  | cons d rest ih =>
    rw [elaborateBody, elaborateBody]
    have hstep := d.carries_elaborate h h' hQ hs (hd d List.mem_cons_self)
    refine carries_attempt_bind (d.candid_elaborate s id) hstep.yields ?_
    rintro c u _ u' ⟨⟨rfl, hu⟩, hc₁, hc₂⟩
    refine carries_bind (P := fun _ u _ u' => u.Shows V ∧ u'.Shows V ∧ s.InStep ρ Q u u' s' id) ?_ ?_
    · have hu₁ := h.elaborates (hc₁.reaches (d.elaborate_within hs.around hc t))
      have hu₂ := h'.elaborates (hc₂.reaches (d.elaborate_within haround' hc' t'))
      refine carries_modify ⟨?_, ?_, ?_⟩
      · exact hu₁.elaborates (.single (.statement hs.around hc hc₁ (Statement.elaborate_stays hc₁)))
      · exact hu₂.elaborates (.single (.statement haround' hc' hc₂ (Statement.elaborate_stays hc₂)))
      · exact hu.modifyOperation hQ fun o o' ho => hQ.statement c ho
    · rintro _ v _ v' ⟨hv, hv', hstep⟩
      exact ih hv hv' hstep fun d hmem => hd d (List.mem_cons_of_mem _ hmem)

omit hs

/-- Related operations that work for automata of the same names have bodies that are looked at alike,
and are related afterwards. -/
theorem FunctionDecl.carries_elaborate (hρ : ρ.TakesAutomata t t') {id : OperationId}
    {o o' : Operation} (ho : t.operation? id = some o) (ho' : t'.operation? (ρ.operation id) = some o')
    (hlike : Q o o') (howner : o.owner = o'.owner) (htarget : o.target = o'.target)
    (d : FunctionDecl) (hd : ∀ e ∈ d.bodyTypeExprs, BracketFree e.innermost.name) :
    Carries t t' (fun _ u _ u' => Paired Q u u' id (ρ.operation id)) (d.elaborate id)
      (d.elaborate (ρ.operation id)) := by
  have hs : (Scope.inOperation (t.automatonId? o.owner) (t.automatonId? o.target) id).InStep ρ Q t t'
      (.inOperation (t'.automatonId? o'.owner) (t'.automatonId? o'.target) (ρ.operation id)) id := by
    rw [← howner, ← htarget]
    refine ⟨⟨h.rel_automatonId? h' _, h.rel_automatonId? h' _, ?_, rfl, hρ, rfl⟩, rfl, ?_⟩
    · exact .some ⟨o, o', ho, ho', hQ.resembles hlike⟩
    · exact ⟨o, o', ho, ho', hlike⟩
  refine carries_look_bind ?_
  simp only [ho, ho', Option.bind_some]
  refine carries_bind (carries_elaborateContracts h h' hQ hs d.contracts).yields ?_
  rintro _ u _ u' ⟨hu, hc, hc'⟩
  have hbody := carries_elaborateBody (h.elaborates (hc.reaches (elaborateContracts_within rfl _ t)))
    (h'.elaborates (hc'.reaches (elaborateContracts_within rfl _ t'))) hQ hu rfl (d.body.getD [])
    fun statement hmem e he => hd e (List.mem_flatMap.mpr ⟨statement, hmem, he⟩)
  exact hbody.mono fun _ _ _ _ hv => hv.paired

end SyntaxTree

/-- The value that a variable starts from. -/
theorem PendingInitializer.carries_elaborate (h : t.Shows V) (h' : t'.Shows V)
    (hs : s.Matches ρ t t' s') {p p' : PendingInitializer} (hvalue : p.value = p'.value) :
    Carries t t' (fun _ _ _ _ => True) (p.elaborate s) (p'.elaborate s') := by
  rw [PendingInitializer.elaborate, PendingInitializer.elaborate, hvalue]
  refine carries_liftM_bind (p'.value.carries_elaborate h h' hs) fun _ _ _ => ?_
  exact carries_modify trivial

end Bodies

end LibraryContract
