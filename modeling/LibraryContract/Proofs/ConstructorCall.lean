import LibraryContract.Proofs.Traversal
import LibraryContract.Proofs.Warnless
import Mathlib.Data.List.Nodup

/-!
# Calls of constructors

The arguments of a constructor call are bound by name, in any order. One keyword is reserved for the
state in which the automaton starts; every other one is the name of a constructor variable, and one
that has the reserved name cannot be bound at all. The call is gone through once, and an argument is
held against those before it.

* `ConstructorCall.yields_resolveArguments`: what the arguments give, from any point on;
* `ConstructorCall.Suits`: when a call is well formed, said of the call as a whole;
* `ConstructorCall.resolve_iff_suits`: the calls that are accepted are those that are well formed.
-/

namespace LibraryContract

open SyntaxTree

variable {t : SymbolTable} {scope : Scope} {id : AutomatonId}

namespace SyntaxTree

theorem Identifier.yields_resolveState {name : Identifier} {state : String} :
    (name.resolveState id).Yields t state ↔
      name.name = state ∧ ∃ a, t.automaton? id = some a ∧ (a.state? state).isSome = true := by
  refine ⟨Identifier.resolveState_yields, ?_⟩
  rintro ⟨rfl, a, ha, hstate⟩
  refine Check.yields_bind.mpr ⟨some a, Check.yields_look.mpr ha, ?_⟩
  rw [Option.bind_some, if_pos hstate]
  exact Check.yields_pure.mpr rfl

namespace ConstructorCall

/-! ## The two kinds of arguments -/

/-- The values that are given for the state. -/
def stateValues (arguments : List NamedArgument) : List Expr :=
  (arguments.filter fun a => decide (a.name.name = stateKeyword)).map NamedArgument.value

/-- The arguments that are given for constructor variables. -/
def forVariables (arguments : List NamedArgument) : List NamedArgument :=
  arguments.filter fun a => decide (a.name.name ≠ stateKeyword)

section Cons

variable {argument : NamedArgument} {rest : List NamedArgument}

theorem stateValues_cons_state (h : argument.name.name = stateKeyword) :
    stateValues (argument :: rest) = argument.value :: stateValues rest := by
  rw [stateValues, List.filter_cons_of_pos (by simpa using h)]
  rfl

theorem stateValues_cons_variable (h : argument.name.name ≠ stateKeyword) :
    stateValues (argument :: rest) = stateValues rest := by
  rw [stateValues, List.filter_cons_of_neg (by simpa using h)]
  rfl

theorem forVariables_cons_state (h : argument.name.name = stateKeyword) :
    forVariables (argument :: rest) = forVariables rest := by
  rw [forVariables, List.filter_cons_of_neg (by simpa using h)]
  rfl

theorem forVariables_cons_variable (h : argument.name.name ≠ stateKeyword) :
    forVariables (argument :: rest) = argument :: forVariables rest := by
  rw [forVariables, List.filter_cons_of_pos (by simpa using h)]
  rfl

end Cons

/-- The argument binds a constructor variable to its value. -/
structure Binds (t : SymbolTable) (scope : Scope) (id : AutomatonId) (argument : NamedArgument)
    (bound : ConstructorArgument) : Prop where
  name : bound.name = argument.name.name
  takes : (takes id argument.name.name).Yields t true
  value : (argument.value.elaborate scope).Yields t bound.value

theorem map_name_of_binds {arguments : List NamedArgument} {bound : List ConstructorArgument}
    (h : List.Forall₂ (Binds t scope id) arguments bound) :
    bound.map ConstructorArgument.name = arguments.map fun a => a.name.name := by
  rw [← List.forall₂_eq_eq_eq, List.forall₂_map_left_iff, List.forall₂_map_right_iff]
  exact h.flip.imp fun _ _ hb => hb.name

/-! ## Going through the arguments -/

theorem bareName?_eq_some {value : Expr} {name : Identifier} :
    bareName? value = some name ↔
      ∃ chainSpan span, value = .access ⟨[.name name], chainSpan⟩ span := by
  constructor
  · intro h
    unfold bareName? at h
    split at h
    · cases h
      exact ⟨_, _, rfl⟩
    · cases h
  · rintro ⟨chainSpan, span, rfl⟩
    rfl

theorem yields_resolveState {value : Expr} {state : String} :
    (resolveState id value).Yields t state ↔
      ∃ name, bareName? value = some name ∧ (name.resolveState id).Yields t state := by
  unfold resolveState
  cases bareName? value with
  | none => simp
  | some name => simp

/-- One argument for the state: there was none before. -/
theorem yields_resolveArguments_state {automaton : String} {argument : NamedArgument}
    {rest : List NamedArgument} {state : Option String} {bound : List ConstructorArgument}
    {found : Option String × List ConstructorArgument}
    (h : argument.name.name = stateKeyword) :
    (resolveArguments scope id automaton state bound (argument :: rest)).Yields t found ↔
      state = none ∧ ∃ name, (resolveState id argument.value).Yields t name ∧
        (resolveArguments scope id automaton (some name) bound rest).Yields t found := by
  rw [resolveArguments]
  simp only [if_pos h]
  cases state <;> simp

/-- One argument for a variable: the variable exists and is not bound before. -/
theorem yields_resolveArguments_variable {automaton : String} {argument : NamedArgument}
    {rest : List NamedArgument} {state : Option String} {bound : List ConstructorArgument}
    {found : Option String × List ConstructorArgument}
    (h : argument.name.name ≠ stateKeyword) :
    (resolveArguments scope id automaton state bound (argument :: rest)).Yields t found ↔
      argument.name.name ∉ bound.map ConstructorArgument.name ∧ ∃ b, Binds t scope id argument b ∧
        (resolveArguments scope id automaton state (bound ++ [b]) rest).Yields t found := by
  have hbound : (bound.any fun b => decide (b.name = argument.name.name)) = true ↔
      argument.name.name ∈ bound.map ConstructorArgument.name := by simp
  rw [resolveArguments]
  simp only [if_neg h, Check.yields_ite, Check.yields_bind, Check.yields_fail]
  constructor
  · rintro ⟨taken, htaken, hrest⟩
    split at hrest
    · obtain ⟨-, hfalse, -⟩ := hrest
      exact hfalse.elim
    rename_i htaken'
    split at hrest
    · obtain ⟨-, hfalse, -⟩ := hrest
      exact hfalse.elim
    rename_i hnew
    obtain ⟨value, hvalue, hrest⟩ := hrest
    obtain rfl : taken = true := by simpa using htaken'
    exact ⟨mt hbound.mpr hnew, _, ⟨rfl, htaken, hvalue⟩, hrest⟩
  · rintro ⟨hnew, ⟨name, value⟩, ⟨rfl, htakes, hvalue⟩, hrest⟩
    refine ⟨true, htakes, ?_⟩
    rw [if_neg (by simp), if_neg (mt hbound.mp hnew)]
    exact ⟨value, hvalue, hrest⟩

theorem nodup_append_singleton {bound : List ConstructorArgument} {b : ConstructorArgument} :
    ((bound ++ [b]).map ConstructorArgument.name).Nodup ↔
      (bound.map ConstructorArgument.name).Nodup ∧ b.name ∉ bound.map ConstructorArgument.name := by
  rw [List.map_append, List.nodup_append_comm]
  exact List.nodup_cons.trans and_comm

theorem eq_none_of_toList_cons {state state' : Option String} {name : String} {names : List String}
    (h : state'.toList = state.toList ++ name :: names) : state = none := by
  cases state <;> cases state' <;> simp at h ⊢

/-- What the arguments give, from what those before them have given: at most one state in all, and
each variable at most once. -/
theorem yields_resolveArguments {automaton : String} {arguments : List NamedArgument}
    {state state' : Option String} {bound bound' : List ConstructorArgument}
    (hbound : (bound.map ConstructorArgument.name).Nodup) :
    (resolveArguments scope id automaton state bound arguments).Yields t (state', bound') ↔
      (∃ names, state'.toList = state.toList ++ names ∧
        List.Forall₂ (fun value name => (resolveState id value).Yields t name)
          (stateValues arguments) names) ∧
      (∃ new, bound' = bound ++ new ∧
        List.Forall₂ (Binds t scope id) (forVariables arguments) new) ∧
      (bound'.map ConstructorArgument.name).Nodup := by
  -- What has been bound so far is free of repetitions; this tells whether the next name is new.
  induction arguments generalizing state bound with
  | nil =>
    rw [resolveArguments, Check.yields_pure, Prod.mk.injEq]
    constructor
    · rintro ⟨rfl, rfl⟩
      exact ⟨⟨[], (List.append_nil _).symm, .nil⟩, ⟨[], (List.append_nil _).symm, .nil⟩, hbound⟩
    · rintro ⟨⟨names, hstate, hnames⟩, ⟨new, rfl, hnew⟩, -⟩
      cases hnames
      cases hnew
      rw [List.append_nil] at hstate ⊢
      have hhead := congrArg List.head? hstate
      rw [Option.head?_toList, Option.head?_toList] at hhead
      exact ⟨hhead.symm, rfl⟩
  | cons argument rest ih =>
    by_cases h : argument.name.name = stateKeyword
    · rw [yields_resolveArguments_state h, stateValues_cons_state h, forVariables_cons_state h]
      constructor
      · rintro ⟨rfl, name, hname, hrest⟩
        obtain ⟨⟨names, hstate, hnames⟩, hvariables⟩ := (ih hbound).mp hrest
        exact ⟨⟨name :: names, hstate, .cons hname hnames⟩, hvariables⟩
      · rintro ⟨⟨_, hstate, hnames⟩, hvariables⟩
        obtain ⟨name, names, hname, hrest, rfl⟩ := List.forall₂_cons_left_iff.mp hnames
        obtain rfl := eq_none_of_toList_cons hstate
        exact ⟨rfl, name, hname, (ih hbound).mpr ⟨⟨names, hstate, hrest⟩, hvariables⟩⟩
    · rw [yields_resolveArguments_variable h, stateValues_cons_variable h,
        forVariables_cons_variable h]
      constructor
      · rintro ⟨hfresh, b, hb, hrest⟩
        have hbound' := nodup_append_singleton.mpr ⟨hbound, hb.name ▸ hfresh⟩
        obtain ⟨hstates, ⟨new, rfl, hnew⟩, hnodup⟩ := (ih hbound').mp hrest
        exact ⟨hstates, ⟨b :: new, List.append_assoc _ _ _, .cons hb hnew⟩, hnodup⟩
      · rintro ⟨hstates, ⟨_, rfl, hnew⟩, hnodup⟩
        obtain ⟨b, new, hb, hrest, rfl⟩ := List.forall₂_cons_left_iff.mp hnew
        have hbound' : ((bound ++ [b]).map ConstructorArgument.name).Nodup := by
          rw [List.append_cons] at hnodup
          exact hnodup.sublist ((List.sublist_append_left _ new).map _)
        refine ⟨hb.name ▸ (nodup_append_singleton.mp hbound').2, b, hb, ?_⟩
        exact (ih hbound').mpr ⟨hstates, ⟨new, List.append_cons _ _ _, hrest⟩, hnodup⟩

/-! ## Whole calls -/

/-- What a call needs to be accepted, and what is made of it. -/
theorem yields_resolve {call : ConstructorCall} {c : LibraryContract.ConstructorCall} :
    (call.resolve scope).Yields t c ↔
      t.automatonId? call.automaton.name = some c.automaton ∧
      (∃ value, stateValues call.arguments = [value] ∧
        (resolveState c.automaton value).Yields t c.state) ∧
      List.Forall₂ (Binds t scope c.automaton) (forVariables call.arguments) c.arguments ∧
      (c.arguments.map ConstructorArgument.name).Nodup := by
  have hempty : (([] : List ConstructorArgument).map ConstructorArgument.name).Nodup :=
    List.nodup_nil
  rw [resolve]
  constructor
  · intro h
    obtain ⟨id, hid, h⟩ := Check.yields_bind.mp h
    obtain ⟨⟨state, arguments⟩, harguments, h⟩ := Check.yields_bind.mp h
    obtain ⟨⟨names, hstate, hnames⟩, ⟨new, rfl, hnew⟩, hnodup⟩ :=
      (yields_resolveArguments hempty).mp harguments
    cases state with
    | none => exact (Check.yields_fail.mp h).elim
    | some state =>
      obtain rfl := Check.yields_pure.mp h
      obtain rfl : [state] = names := hstate
      obtain ⟨value, rest, hvalue, hrest, hvalues⟩ := List.forall₂_cons_right_iff.mp hnames
      cases hrest
      exact ⟨Identifier.yields_resolveAutomaton.mp hid, ⟨value, hvalues, hvalue⟩, hnew, hnodup⟩
  · rintro ⟨hid, ⟨value, hvalues, hvalue⟩, hnew, hnodup⟩
    refine Check.yields_bind.mpr ⟨c.automaton, Identifier.yields_resolveAutomaton.mpr hid, ?_⟩
    refine Check.yields_bind.mpr ⟨(some c.state, c.arguments), ?_, Check.yields_pure.mpr rfl⟩
    refine (yields_resolveArguments hempty).mpr
      ⟨⟨[c.state], rfl, ?_⟩, ⟨c.arguments, rfl, hnew⟩, hnodup⟩
    rw [hvalues]
    exact .cons hvalue .nil

/-- A call that is well formed. Its automaton exists, it gives one value for the state, which is the
bare name of a state of the automaton, and each other argument is for a constructor variable of the
automaton that no other argument is for, and has a value in the scope of the call. -/
structure Suits (call : ConstructorCall) (t : SymbolTable) (scope : Scope) (owner : Automaton)
    (state : Identifier) : Prop where
  registered : t.automatonNamed? call.automaton.name = some owner
  once : ∃ chainSpan span, stateValues call.arguments = [.access ⟨[.name state], chainSpan⟩ span]
  declared : (owner.state? state.name).isSome = true
  takes : ∀ a ∈ forVariables call.arguments,
    owner.constructorVariables.contains a.name.name = true
  distinct : ((forVariables call.arguments).map fun a => a.name.name).Nodup
  values : ∀ a ∈ forVariables call.arguments, ∃ v, (a.value.elaborate scope).Yields t v

/-- What a call makes of the automaton, the state and the arguments, in the order in which they are
written. -/
structure Makes (call : ConstructorCall) (t : SymbolTable) (scope : Scope) (owner : Automaton)
    (state : Identifier) (c : LibraryContract.ConstructorCall) : Prop where
  number : t.automatonId? call.automaton.name = some c.automaton
  automaton : t.automaton? c.automaton = some owner
  state : c.state = state.name
  arguments : List.Forall₂ (fun (a : NamedArgument) (b : ConstructorArgument) =>
    b.name = a.name.name ∧ (a.value.elaborate scope).Yields t b.value)
    (forVariables call.arguments) c.arguments

theorem yields_takes {owner : Automaton} {name : String} (ha : t.automaton? id = some owner) :
    (takes id name).Yields t true ↔ owner.constructorVariables.contains name = true := by
  rw [ConstructorCall.takes, Check.yields_look, ha]
  rfl

theorem exists_binds {arguments : List NamedArgument}
    (h : ∀ a ∈ arguments, ∃ b, Binds t scope id a b) :
    ∃ bound, List.Forall₂ (Binds t scope id) arguments bound := by
  induction arguments with
  | nil => exact ⟨[], .nil⟩
  | cons argument rest ih =>
    obtain ⟨⟨b, hb⟩, hrest⟩ := List.forall_mem_cons.mp h
    obtain ⟨bound, hbound⟩ := ih hrest
    exact ⟨b :: bound, .cons hb hbound⟩

theorem suits_of_yields {call : ConstructorCall} {c : LibraryContract.ConstructorCall}
    (h : (call.resolve scope).Yields t c) :
    ∃ owner state, call.Suits t scope owner state ∧ call.Makes t scope owner state c := by
  obtain ⟨hid, ⟨value, hvalues, hvalue⟩, hbinds, hnodup⟩ := yields_resolve.mp h
  obtain ⟨state, hbare, hstate⟩ := yields_resolveState.mp hvalue
  obtain ⟨chainSpan, span, rfl⟩ := bareName?_eq_some.mp hbare
  obtain ⟨hname, owner, howner, hdeclared⟩ := Identifier.yields_resolveState.mp hstate
  have hbound : ∀ a ∈ forVariables call.arguments, ∃ b, Binds t scope c.automaton a b := by
    intro a ha
    obtain ⟨b, -, hb⟩ := forall₂_exists_left hbinds.flip ha
    exact ⟨b, hb⟩
  refine ⟨owner, state, ⟨?_, ⟨chainSpan, span, hvalues⟩, ?_, fun a ha => ?_, ?_, fun a ha => ?_⟩,
    ⟨hid, howner, hname.symm, hbinds.imp fun a b hb => ⟨hb.name, hb.value⟩⟩⟩
  · rw [SymbolTable.automatonNamed?, hid]
    exact howner
  · rw [hname]
    exact hdeclared
  · obtain ⟨b, hb⟩ := hbound a ha
    exact (yields_takes howner).mp hb.takes
  · rw [← map_name_of_binds hbinds]
    exact hnodup
  · obtain ⟨b, hb⟩ := hbound a ha
    exact ⟨b.value, hb.value⟩

theorem Suits.yields {call : ConstructorCall} {owner : Automaton} {state : Identifier}
    (h : call.Suits t scope owner state) : ∃ c, (call.resolve scope).Yields t c := by
  obtain ⟨id, hid, howner⟩ := Option.bind_eq_some_iff.mp h.registered
  obtain ⟨chainSpan, span, hvalues⟩ := h.once
  have hbound : ∀ a ∈ forVariables call.arguments, ∃ b, Binds t scope id a b := by
    intro a ha
    obtain ⟨v, hv⟩ := h.values a ha
    exact ⟨⟨a.name.name, v⟩, rfl, (yields_takes howner).mpr (h.takes a ha), hv⟩
  obtain ⟨bound, hbinds⟩ := exists_binds hbound
  have hstate : (resolveState id (.access ⟨[.name state], chainSpan⟩ span)).Yields t state.name :=
    yields_resolveState.mpr ⟨state, rfl,
      Identifier.yields_resolveState.mpr ⟨rfl, owner, howner, h.declared⟩⟩
  refine ⟨⟨id, state.name, bound⟩, yields_resolve.mpr ⟨hid, ⟨_, hvalues, hstate⟩, hbinds, ?_⟩⟩
  rw [map_name_of_binds hbinds]
  exact h.distinct

/-- A call of a constructor is accepted when it is well formed, and in no other case. It makes what it
says, and nothing is reported. -/
theorem resolve_iff_suits (call : ConstructorCall) (scope : Scope) (t : SymbolTable) :
    ((∃ c, (call.resolve scope).Yields t c) ↔ ∃ owner state, call.Suits t scope owner state) ∧
      ∀ c, (call.resolve scope).Yields t c →
        (call.resolve scope).run t = ⟨.ok c, []⟩ ∧
          ∃ owner state, call.Suits t scope owner state ∧ call.Makes t scope owner state c := by
  refine ⟨⟨?_, ?_⟩, fun c hc => ⟨?_, suits_of_yields hc⟩⟩
  · rintro ⟨c, hc⟩
    obtain ⟨owner, state, hsuits, -⟩ := suits_of_yields hc
    exact ⟨owner, state, hsuits⟩
  · rintro ⟨owner, state, h⟩
    exact h.yields
  · have hsilent : ((call.resolve scope).run t).diagnostics = [] := (warnless_resolve scope call).silent hc
    rw [← hsilent, ← hc]

/-- A lamp that is off, with constructor variables that are called `power` and, like the keyword,
`state`. -/
def lamp : Automaton :=
  { Automaton.skeleton ⟨0⟩ "Lamp" "Int" (.onLine 1) with
    states := .ofList [("Off", ⟨"Off", .initial, .onLine 1⟩)]
    constructorVariables := .ofList
      [("power", ⟨"power", "Int", .constructorParameter ⟨0⟩, none, .onLine 1⟩),
        ("state", ⟨"state", "Int", .constructorParameter ⟨0⟩, none, .onLine 1⟩)] }

def lampTable : SymbolTable :=
  { SymbolTable.empty with
    automata := [lamp]
    automatonIds := OrderedMap.empty.insert "Lamp" ⟨0⟩ }

def lampCall : ConstructorCall where
  automaton := ⟨"Lamp", .onLine 2⟩
  arguments := [⟨⟨"power", .onLine 2⟩, .literal (.integer 3) (.onLine 2)⟩,
    ⟨⟨"state", .onLine 2⟩, .access ⟨[.name ⟨"Off", .onLine 2⟩], .onLine 2⟩ (.onLine 2)⟩]
  span := .onLine 2

/-- The keyword after another argument sets the state, although there is a variable of that name. -/
theorem resolve_iff_suits_lamp :
    ∃ c, (lampCall.resolve .global).Yields lampTable c ∧
      (lampCall.resolve .global).run lampTable = ⟨.ok c, []⟩ ∧
        ∃ owner state, lampCall.Suits lampTable .global owner state ∧
          lampCall.Makes lampTable .global owner state c := by
  have hc : (lampCall.resolve .global).Yields lampTable
      ⟨⟨0⟩, "Off", [⟨"power", .literal (.integer 3)⟩]⟩ := rfl
  exact ⟨_, hc, (resolve_iff_suits lampCall .global lampTable).2 _ hc⟩

end ConstructorCall

end SyntaxTree

end LibraryContract
