import LibraryContract.Proofs.Member
import LibraryContract.Proofs.Source

/-!
# Where locations lead

A chain is looked at once, while the table is still being filled; the location it becomes is read
when the table is complete. Between the two, other variables and types come in and an operation may
get other arguments, so it is not obvious that the location still means what the chain said. It does
(`Chain.LeadsTo`): its links are the segments of the chain, its first link is what the name at the
start stands for at that place, and each link leads from the type of the one before it to a member.

* `Chain.resolve_leadsTo`: a chain leads to the location that it is resolved to;
* `accesses_sound`: so do the chains of an analysed library.
-/

namespace LibraryContract

open SyntaxTree Build

/-- The table has a variable of this name, scope and type. -/
inductive SymbolTable.HasVariable (t : SymbolTable) (name : String) :
    VariableScope → String → Prop
  | stored {v : Variable} (h : (t.variablesIn v.scope).get? name = some v) :
      HasVariable t name v.scope v.type
  | argument {id : OperationId} {o : Operation} {a : Argument} (ho : t.operation? id = some o)
      (ha : o.argument? name = some a) : HasVariable t name (.argument id) a.type

/-- The link is that of the segment. -/
inductive SyntaxTree.Segment.Gives (t : SymbolTable) : Segment → Link → Prop
  | name {name : Identifier} {type : String} {home : Option VariableScope} :
      Gives t (.name name) (.name name.name type home)
  | index {index : Expr} {value : Value} {element : String} :
      Gives t (.index index) (.index value element)
  | getter {automaton argument : Identifier} {id : AutomatonId} {type : String}
      (h : t.automatonId? automaton.name = some id) :
      Gives t (.getter automaton argument) (.getter id argument.name type)

namespace Link

/-- A location can start with the link at this place: with the variable that the first visible
binding of its name stands for, or with an automaton for a visible argument. -/
inductive Starts (t : SymbolTable) (place : Place) : Link → Prop
  | named {name type : String} {home : VariableScope}
      (h : first? (t.visible place) name = some (home, type)) :
      Starts t place (.name name type (some home))
  | getter {id : AutomatonId} {argument : String} {a : Automaton} (ha : t.automaton? id = some a)
      (h : (first? (t.visible place) argument).isSome = true) :
      Starts t place (.getter id argument a.type)

def isGetter : Link → Bool
  | .getter _ _ _ => true
  | .name _ _ _ | .index _ _ => false

/-- The second link leads on from the first. After a getter, a name is a variable of the automaton;
anywhere else it is a field of the type that has been reached. -/
inductive Leads (t : SymbolTable) : Link → Link → Prop
  | automatonVariable {id : AutomatonId} {argument owner name type : String} {home : VariableScope}
      (h : first? (t.bindingsOf id) name = some (home, type)) :
      Leads t (.getter id argument owner) (.name name type (some home))
  | field {before : Link} {name type : String} (hbefore : before.isGetter = false)
      (h : t.HasField before.type name type) : Leads t before (.name name type none)
  | element {before : Link} {index : Value} {type : String} (h : t.HasElement before.type type) :
      Leads t before (.index index type)

end Link

/-- The location is where the chain leads from this place. -/
structure SyntaxTree.Chain.LeadsTo (t : SymbolTable) (place : Place) (c : Chain) (a : Access) :
    Prop where
  links : List.Forall₂ (Segment.Gives t) c.segments a.links
  depth : a.depth = c.segments.length
  head : a.head.Starts t place
  rest : List.IsChain (Link.Leads t) a.links
  declared : ∀ name type home, .name name type (some home) ∈ a.links → t.HasVariable name home type

variable {t₀ t : SymbolTable} {place : Place}

/-! ## Visible variables -/

/-- The variables before a statement are variables of the body. -/
theorem Operation.Laid.localsBefore_subset {o : Operation} (h : o.Laid) (n : Nat) :
    o.localsBefore n ⊆ o.locals.values := by
  rw [h.locals, o.localsBefore_length]
  intro v hv
  rcases List.mem_append.mp hv with hv | hv
  · exact List.mem_append_left _ hv
  · obtain ⟨s, hs, hdeclared⟩ := List.mem_filterMap.mp hv
    exact List.mem_append_right _ (List.mem_filterMap.mpr ⟨s, List.mem_of_mem_take hs, hdeclared⟩)

namespace SymbolTable

/-- A variable is found where its scope says, whatever collection it was found in. -/
theorem Housed.hasVariable (ht : t.Housed) {home : VariableScope} {name : String} {v : Variable}
    (hv : (t.variablesIn home).get? name = some v) : t.HasVariable name v.scope v.type := by
  have hcollection := (ht home name v hv).2
  rw [← t.variablesIn_collection, ← hcollection, t.variablesIn_collection] at hv
  exact .stored hv

theorem Housed.hasVariable_of_bindingsIn (ht : t.Housed) {home scope : VariableScope}
    {name type : String} (h : first? (t.bindingsIn home) name = some (scope, type)) :
    t.HasVariable name scope type := by
  rw [ht.first?_bindingsIn] at h
  obtain ⟨v, hv, heq⟩ := Option.map_eq_some_iff.mp h
  cases heq
  exact ht.hasVariable hv

theorem Housed.hasVariable_of_bindingsOf (ht : t.Housed) {id : AutomatonId} {scope : VariableScope}
    {name type : String} (h : first? (t.bindingsOf id) name = some (scope, type)) :
    t.HasVariable name scope type := by
  rw [bindingsOf, first?_append, Option.or_eq_some_iff] at h
  rcases h with h | ⟨-, h⟩
  · exact ht.hasVariable_of_bindingsIn h
  · exact ht.hasVariable_of_bindingsIn h

theorem Housed.hasVariable_of_bindingsBefore (ht : t.Housed) {id : OperationId} {o : Operation}
    (ho : t.operation? id = some o) (hid : o.id = id) (hlaid : o.Laid) {n : Nat}
    {scope : VariableScope} {name type : String}
    (h : first? (o.bindingsBefore n) name = some (scope, type)) : t.HasVariable name scope type := by
  rw [Operation.bindingsBefore, first?_append, Option.or_eq_some_iff, first?_arguments] at h
  rcases h with h | ⟨-, h⟩
  · obtain ⟨a, ha, heq⟩ := Option.map_eq_some_iff.mp h
    cases heq
    rw [hid]
    exact .argument ho ha
  · obtain ⟨b, hb, heq⟩ := Option.map_eq_some_iff.mp h
    cases heq
    obtain ⟨v, hv, rfl⟩ := List.mem_map.mp (List.mem_of_find?_eq_some hb)
    obtain ⟨key, hkey⟩ := OrderedMap.mem_values.mp (hlaid.localsBefore_subset n hv)
    have hbody : (t.variablesIn (.body id)).get? key = some v := by
      rw [variablesIn, ho]
      exact hkey
    have hname := List.find?_some hb
    obtain rfl : v.name = name := of_decide_eq_true hname
    rw [← (ht _ key v hbody).1] at hbody
    exact ht.hasVariable hbody

/-- What a name stands for at a place is a variable of the table. -/
theorem hasVariable_of_visible (hw : t.WellFormed) (ht : t.Housed)
    (hlaid : t.Operations Operation.Laid) {scope : VariableScope} {name type : String}
    (h : first? (t.visible place) name = some (scope, type)) : t.HasVariable name scope type := by
  have hautomata : ∀ ids : List AutomatonId,
      first? (ids.flatMap t.bindingsOf ++ t.bindingsIn .global) name = some (scope, type) →
        t.HasVariable name scope type := by
    intro ids h
    rw [first?_append, first?_flatMap, Option.or_eq_some_iff] at h
    rcases h with h | ⟨-, h⟩
    · obtain ⟨id, -, hid⟩ := List.exists_of_findSome?_eq_some h
      exact ht.hasVariable_of_bindingsOf hid
    · exact ht.hasVariable_of_bindingsIn h
  have hinside : ∀ id n,
      first? (((t.operation? id).map fun o => t.bindingsInside o n).getD []) name =
        some (scope, type) → t.HasVariable name scope type := by
    intro id n h
    cases ho : t.operation? id with
    | none =>
      rw [ho] at h
      cases h
    | some o =>
      rw [ho, Option.map_some, Option.getD_some, bindingsInside, first?_append,
        Option.or_eq_some_iff] at h
      rcases h with h | ⟨-, h⟩
      · exact ht.hasVariable_of_bindingsBefore ho (hw.operation_id id o ho) (hlaid id o ho) h
      · exact hautomata _ h
  cases place with
  | library => exact hautomata [] h
  | automaton id =>
    refine hautomata [id] ?_
    rw [List.flatMap_singleton]
    exact h
  | contract id kind => exact hinside id 0 h
  | statement id n => exact hinside id n h

end SymbolTable

/-! ## Chains -/

namespace SyntaxTree

/-- Each segment after a link is a member of the type that the link before it has reached. -/
theorem resolveRest_leads (hu : t₀.GrowsTo t) {scope : Scope} (before : Link)
    {segments : List Segment} {links : List Link}
    (hbefore : before.isGetter = true → ∀ name others, segments ≠ .name name :: others)
    (h : (resolveRest scope before.type segments).Yields t₀ links) :
    List.Forall₂ (Segment.Gives t) segments links ∧
      List.IsChain (Link.Leads t) (before :: links) ∧
        ∀ name type home, .name name type (some home) ∉ links := by
  induction segments generalizing before links with
  | nil =>
    obtain rfl := Check.yields_pure.mp h
    exact ⟨.nil, .singleton _, fun _ _ _ => List.not_mem_nil⟩
  | cons segment rest ih =>
    rcases segment with name | index | ⟨automaton, argument⟩
    · obtain ⟨type, htype, links, hlinks, rfl⟩ := yields_resolveRest_name.mp h
      have hvariable : before.isGetter = false := by
        by_contra hgetter
        rw [Bool.not_eq_false] at hgetter
        exact hbefore hgetter name rest rfl
      have hfield : Link.Leads t before (.name name.name type none) :=
        .field hvariable ((fieldType_yields htype).mono hu)
      obtain ⟨hgives, hleads, hfields⟩ := ih (.name name.name type none) nofun hlinks
      refine ⟨.cons .name hgives, .cons_cons hfield hleads, fun n type home hmem => ?_⟩
      rcases List.mem_cons.mp hmem with heq | hmem
      · cases heq
      · exact hfields n type home hmem
    · obtain ⟨type, htype, value, -, links, hlinks, rfl⟩ := yields_resolveRest_index.mp h
      have helement : Link.Leads t before (.index value type) :=
        .element ((elementType_yields htype).mono hu)
      obtain ⟨hgives, hleads, hfields⟩ := ih (.index value type) nofun hlinks
      refine ⟨.cons .index hgives, .cons_cons helement hleads, fun n type home hmem => ?_⟩
      rcases List.mem_cons.mp hmem with heq | hmem
      · cases heq
      · exact hfields n type home hmem
    · cases h

/-- A getter names an automaton, and has an argument that is visible. -/
theorem resolveGetter_starts (hp : t₀.Precedes t place) {automaton argument : Identifier}
    {id : AutomatonId} {type : String}
    (h : (resolveGetter automaton argument (place.scope t₀)).Yields t₀ (id, type)) :
    t.automatonId? automaton.name = some id ∧ (Link.getter id argument.name type).Starts t place := by
  obtain ⟨hid, hvisible, rfl⟩ := yields_resolveGetter.mp h
  obtain ⟨a, ha, -⟩ := (hp.wellFormed.automatonId?_iff _ _).mp hid
  obtain ⟨b, hb, hab⟩ := hp.settles.grows.automaton? ha
  refine ⟨hp.settles.grows.automatonId? hid, ?_⟩
  rw [ha, Option.map_some, Option.getD_some, ← hab.type]
  rw [hp.lookup] at hvisible
  exact .getter hb hvisible

/-- The variables of an automaton stay what they are. -/
theorem Identifier.resolveAutomatonVariable_first? (hp : t₀.Precedes t place) {name : Identifier}
    {id : AutomatonId} {home : VariableScope} {type : String}
    (h : (name.resolveAutomatonVariable id).Yields t₀ (home, type)) :
    first? (t.bindingsOf id) name.name = some (home, type) := by
  obtain ⟨a, v, ha, hv, rfl, rfl⟩ := yields_resolveAutomatonVariable.mp h
  rw [hp.settles.bindingsOf, hp.housed.first?_bindingsOf, ha, Option.bind_some, hv]
  rfl

theorem Chain.LeadsTo.of_links {c : Chain} {a : Access}
    (hlinks : List.Forall₂ (Segment.Gives t) c.segments a.links) (hhead : a.head.Starts t place)
    (hrest : List.IsChain (Link.Leads t) a.links)
    (hdeclared : ∀ name type home, .name name type (some home) ∈ a.links →
      t.HasVariable name home type) : c.LeadsTo t place a :=
  ⟨hlinks, hlinks.length_eq.symm, hhead, hrest, hdeclared⟩

/-- A chain leads to the location that it is resolved to. -/
theorem Chain.resolve_leadsTo (hw : t.WellFormed) (ht : t.Housed)
    (hlaid : t.Operations Operation.Laid) (hp : t₀.Precedes t place) {c : Chain} {a : Access}
    (h : (c.resolve (place.scope t₀)).Yields t₀ a) : c.LeadsTo t place a := by
  have hu := hp.settles.grows
  obtain ⟨segments, span⟩ := c
  cases Chain.resolves_of_resolve h with
  | @named name home type rest links hname hrest =>
    obtain ⟨hlookup, -⟩ := Identifier.yields_resolveVariable.mp hname
    rw [hp.lookup] at hlookup
    obtain ⟨hgives, hleads, hfields⟩ :=
      resolveRest_leads hu (.name name.name type (some home)) nofun hrest
    refine .of_links (.cons .name hgives) (.named hlookup) hleads fun n type' home' hmem => ?_
    rcases List.mem_cons.mp hmem with heq | hmem
    · cases heq
      exact SymbolTable.hasVariable_of_visible hw ht hlaid hlookup
    · exact absurd hmem (hfields n type' home')
  | @getter automaton argument id type rest links hgetter hnext hrest =>
    obtain ⟨hid, hstarts⟩ := resolveGetter_starts hp hgetter
    obtain ⟨hgives, hleads, hfields⟩ :=
      resolveRest_leads hu (.getter id argument.name type) (fun _ => hnext) hrest
    refine .of_links (.cons (.getter hid) hgives) hstarts hleads fun n type' home' hmem => ?_
    rcases List.mem_cons.mp hmem with heq | hmem
    · cases heq
    · exact absurd hmem (hfields n type' home')
  | @automatonVariable automaton argument name id owner type home rest links hgetter hname hrest =>
    obtain ⟨hid, hstarts⟩ := resolveGetter_starts hp hgetter
    have hvariable := name.resolveAutomatonVariable_first? hp hname
    obtain ⟨hgives, hleads, hfields⟩ :=
      resolveRest_leads hu (.name name.name type (some home)) nofun hrest
    refine .of_links (.cons (.getter hid) (.cons .name hgives)) hstarts
      (.cons_cons (.automatonVariable hvariable) hleads) fun n type' home' hmem => ?_
    rcases List.mem_cons.mp hmem with heq | hmem
    · cases heq
    rcases List.mem_cons.mp hmem with heq | hmem
    · cases heq
      exact ht.hasVariable_of_bindingsOf hvariable
    · exact absurd hmem (hfields n type' home')

end SyntaxTree

/-! ## Libraries -/

theorem Run.analyze_laid (options : Options) (library : SyntaxTree.Library) :
    (analyze options library).table.Operations Operation.Laid :=
  fun id o ho => ((analyze_traced options library).bodies id o ho).laid

/-- Each chain of the tree leads to the location that it has become. -/
theorem Run.analyze_leadsTo (options : Options) (library : SyntaxTree.Library) :
    (analyze options library).table.Sourced
      (fun place e v => List.Forall₂ (Chain.LeadsTo (analyze options library).table place) e.chains
        v.accesses) library (ledger options library) := by
  refine (analyze_sourced options library).imp fun place e v horigin => ?_
  obtain ⟨t₀, hp, hyields⟩ := horigin
  refine (e.chains_elaborate hyields).imp fun c a hc => ?_
  exact Chain.resolve_leadsTo (analyze_wellFormed options library)
    (analyze_housed options library) (analyze_laid options library) hp hc

/-- The locations of an analysed library are where the chains of the tree lead, at any depth of the
expressions. -/
theorem accesses_sound {s : Session} {library : SyntaxTree.Library} {l : Library}
    (h : (s.analyze library).1 = .ok l) :
    l.table.Sourced
      (fun place e v => List.Forall₂ (Chain.LeadsTo l.table place) e.chains v.accesses) library
      (Run.ledger s.options library) := by
  obtain ⟨-, rfl⟩ := Session.analyze_eq_ok.mp h
  exact Run.analyze_leadsTo s.options library

/-- There is a library with a location of several links. -/
theorem accesses_sound_sample :
    ∃ l, ((Session.start .standard).analyze Sample.library).1 = .ok l ∧
      l.table.Sourced
        (fun place e v => List.Forall₂ (Chain.LeadsTo l.table place) e.chains v.accesses)
        Sample.library (Run.ledger .standard Sample.library) ∧
      ∃ o ∈ l.table.operations, ∃ s ∈ o.statements, ∃ v ∈ s.values, ∃ a ∈ v.accesses,
        1 < a.depth := by
  have hsound := accesses_sound Sample.library_analyzes
  refine ⟨_, Sample.library_analyzes, hsound, ?_⟩
  decide +kernel

end LibraryContract
