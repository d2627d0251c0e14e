import LibraryContract.Proofs.AliasChain
import Mathlib.Data.List.Perm.Subperm

/-!
# The search for the type behind aliases

An alias leads to the type that it names, which may be an alias again. A chain of aliases ends at
another kind of type or at a name that is not registered, or it comes back to an alias and goes round
for ever; the aliases before the cycle are not met again. The search remembers the names that it has
met, so it stops at the first name that it meets twice.

* `TypeRegistry.Search`: the search without a bound, with the number of its turns;
* `TypeRegistry.ComesTo`: what a chain of aliases comes to, said of the chain alone;
* `TypeRegistry.Trail`: what a search has behind it;
* `TypeRegistry.search_unaliased`, `TypeRegistry.comesTo_unaliased`: among types under their own
  names, the search takes at most one turn more than there are types, and it answers with what the
  chain comes to.
-/

namespace LibraryContract

namespace TypeRegistry

variable {r : TypeRegistry} {type base next origin : DataType} {name target : String} {n m : Nat}

/-! ## Registries -/

/-- Every type is registered under its own name. -/
def Named (r : TypeRegistry) : Prop := ∀ name type, r.get? name = some type → type.name = name

/-- A registry that is made from the empty one by adding types and arrays. One whose name is taken is
not added. -/
inductive Built : TypeRegistry → Prop
  | empty : Built .empty
  | insert {r : TypeRegistry} (hr : Built r) (type : DataType) : Built ((r.insert? type).getD r)
  | internArray {r : TypeRegistry} (hr : Built r) (element : String) : Built (r.internArray element)

theorem Named.insert (hr : r.Named) (type : DataType) : ((r.insert? type).getD r).Named := by
  unfold insert?
  split
  · exact hr
  · intro name other hother
    rw [Option.getD_some, get?, OrderedMap.get?_insert] at hother
    split at hother
    · rename_i hname
      rw [← Option.some.inj hother, hname]
    · exact hr name other hother

theorem Built.named (h : r.Built) : r.Named := by
  induction h with
  | empty =>
    intro name type htype
    cases htype
  | insert _ type ih => exact ih.insert type
  | internArray _ element ih => exact ih.insert (.array element)

theorem Named.get?_name (hr : r.Named) (h : r.get? name = some type) :
    r.get? type.name = some type := by
  rw [hr name type h]
  exact h

/-! ## Chains of aliases -/

namespace Leads

theorem unique {a b : DataType} (h : r.Leads type n a) (h' : r.Leads type n b) : a = b := by
  induction h with
  | here =>
    cases h'
    rfl
  | through hnext _ ih =>
    cases h' with
    | through hnext' hrest =>
      rw [hnext] at hnext'
      cases hnext'
      exact ih hrest

theorem trans {a b : DataType} (h : r.Leads type m a) (h' : r.Leads a n b) :
    r.Leads type (m + n) b := by
  induction h with
  | here =>
    rw [Nat.zero_add]
    exact h'
  | through hnext _ ih =>
    rw [Nat.succ_add]
    exact .through hnext (ih h')

/-- A chain passes through some type at every distance. -/
theorem split {b : DataType} (h : r.Leads type (m + n) b) :
    ∃ a, r.Leads type m a ∧ r.Leads a n b := by
  induction m generalizing type with
  | zero =>
    rw [Nat.zero_add] at h
    exact ⟨type, .here type, h⟩
  | succ m ih =>
    rw [Nat.succ_add] at h
    cases h with
    | through hnext hrest =>
      obtain ⟨a, ha, hb⟩ := ih hrest
      exact ⟨a, .through hnext ha, hb⟩

/-- What is left of a chain after a type on it. -/
theorem rest {a b : DataType} (h : r.Leads type m a) (h' : r.Leads type (m + n) b) :
    r.Leads a n b := by
  obtain ⟨c, hc, hrest⟩ := h'.split
  rw [h.unique hc]
  exact hrest

/-- Whatever is on the chain of a registered type is registered. -/
theorem registered (hr : r.Named) (h : r.Leads type n base) (htype : r.get? type.name = some type) :
    r.get? base.name = some base := by
  induction h with
  | here => exact htype
  | through hnext _ ih => exact ih (hr.get?_name hnext)

end Leads

/-- No chain of aliases goes on from the type. -/
def Ends (r : TypeRegistry) (type : DataType) : Prop := ∀ n base, ¬r.Leads type (n + 1) base

theorem ends_of_not_alias (h : type.isAlias = false) : r.Ends type := by
  intro n base hleads
  cases hleads with
  | through => cases h

theorem ends_of_unknown (h : r.get? target = none) : r.Ends (.alias name target) := by
  intro n base hleads
  cases hleads with
  | through hnext =>
    rw [h] at hnext
    cases hnext

/-- A chain has one end. -/
theorem Ends.unique {a b : DataType} (ha : r.Ends a) (hb : r.Ends b) (hm : r.Leads type m a)
    (hn : r.Leads type n b) : a = b := by
  rcases Nat.lt_trichotomy m n with hlt | rfl | hlt
  · obtain ⟨k, rfl⟩ := Nat.exists_eq_add_of_lt hlt
    exact (ha k b (hm.rest hn)).elim
  · exact hm.unique hn
  · obtain ⟨k, rfl⟩ := Nat.exists_eq_add_of_lt hlt
    exact (hb k a (hn.rest hm)).elim

/-! ## Cycles -/

/-- After `i` aliases, the chain from the type is at an alias of this name. -/
def Meets (r : TypeRegistry) (type : DataType) (i : Nat) (name : String) : Prop :=
  ∃ target, r.Leads type i (.alias name target)

/-- The chain from the type never leaves aliases. -/
def Circles (r : TypeRegistry) (type : DataType) : Prop := ∀ i, ∃ name, r.Meets type i name

/-- An alias of this name is met for the second time, and no other name has been before. -/
def MeetsTwice (r : TypeRegistry) (type : DataType) (name : String) : Prop :=
  ∃ i j, i < j ∧ r.Meets type i name ∧ r.Meets type j name ∧
    ∀ a b other, a < b → b < j → r.Meets type a other → ¬r.Meets type b other

/-- The chain from the type leads to an alias that leads back to itself. -/
def EntersCycle (r : TypeRegistry) (type : DataType) : Prop :=
  ∃ n again m, r.Leads type n again ∧ r.Leads again (m + 1) again

theorem Meets.unique {i : Nat} {other : String} (h : r.Meets type i name)
    (h' : r.Meets type i other) : name = other := by
  obtain ⟨target, h⟩ := h
  obtain ⟨target', h'⟩ := h'
  cases h.unique h'
  rfl

theorem MeetsTwice.unique {other : String} (h : r.MeetsTwice type name)
    (h' : r.MeetsTwice type other) : name = other := by
  obtain ⟨i, j, hij, hi, hj, hfirst⟩ := h
  obtain ⟨i', j', hij', hi', hj', hfirst'⟩ := h'
  rcases Nat.lt_trichotomy j j' with hlt | rfl | hlt
  · exact (hfirst' i j name hij hlt hi hj).elim
  · exact hj.unique hj'
  · exact (hfirst i' j' other hij' hlt hi' hj').elim

/-- Two aliases of one name are the same alias. -/
theorem MeetsTwice.entersCycle (hr : r.Named) (htype : r.get? type.name = some type)
    (h : r.MeetsTwice type name) : r.EntersCycle type := by
  obtain ⟨i, j, hij, ⟨target, hi⟩, ⟨target', hj⟩, -⟩ := h
  have hsame : r.get? name = some (.alias name target) := hi.registered hr htype
  have hsame' : r.get? name = some (.alias name target') := hj.registered hr htype
  rw [hsame] at hsame'
  cases hsame'
  obtain ⟨k, rfl⟩ := Nat.exists_eq_add_of_lt hij
  exact ⟨i, _, k, hi, hi.rest hj⟩

/-- Once on the cycle, each alias is met again after as many turns as the cycle is long. -/
theorem EntersCycle.circles (h : r.EntersCycle type) : r.Circles type := by
  obtain ⟨n, again, m, hn, hcycle⟩ := h
  have hround : r.Leads type (n + (m + 1)) again := hn.trans hcycle
  intro i
  induction i using Nat.strongRecOn with
  | ind i ih =>
    by_cases hi : i < n + (m + 1)
    · exact hround.alias_before hi
    -- One round earlier, the chain was at the same alias.
    · obtain ⟨k, rfl⟩ : ∃ k, i = n + (m + 1) + k := ⟨i - (n + (m + 1)), by omega⟩
      obtain ⟨name, target, hbefore⟩ := ih (n + k) (by omega)
      exact ⟨name, target, hround.trans (hn.rest hbefore)⟩

theorem Circles.not_ends (h : r.Circles type) (hn : r.Leads type n base) : ¬r.Ends base := by
  intro hends
  obtain ⟨name, target, hleads⟩ := h (n + 1)
  exact hends 0 _ (hn.rest hleads)

/-- What following the aliases from a type comes to: another kind of type, a name that is not
registered, or a cycle. -/
def ComesTo (r : TypeRegistry) (type : DataType) : Except AliasError DataType → Prop
  | .ok base => base.isAlias = false ∧ r.get? base.name = some base ∧ ∃ n, r.Leads type n base
  | .error (.unresolved name) =>
    r.get? name = none ∧ ∃ n other, r.Leads type n (.alias other name)
  | .error (.cycle name) => r.Circles type ∧ r.MeetsTwice type name

/-- What the search says about a type from which no chain goes on. -/
def atEnd : DataType → Except AliasError DataType
  | .alias _ target => .error (.unresolved target)
  | type => .ok type

theorem ComesTo.ends_or_circles {answer : Except AliasError DataType} (h : r.ComesTo type answer) :
    (∃ n base, r.Leads type n base ∧ r.Ends base ∧ answer = atEnd base) ∨
      ∃ name, answer = .error (.cycle name) ∧ r.Circles type ∧ r.MeetsTwice type name := by
  rcases answer with (name | name) | base
  · obtain ⟨hnone, n, other, hn⟩ := h
    exact .inl ⟨n, _, hn, ends_of_unknown hnone, rfl⟩
  · exact .inr ⟨name, rfl, h⟩
  · obtain ⟨hbase, -, n, hn⟩ := h
    refine .inl ⟨n, base, hn, ends_of_not_alias hbase, ?_⟩
    cases base <;> first | rfl | cases hbase

/-- A chain comes to one thing. -/
theorem ComesTo.unique {a b : Except AliasError DataType} (ha : r.ComesTo type a)
    (hb : r.ComesTo type b) : a = b := by
  rcases ha.ends_or_circles with ⟨n, base, hn, hends, rfl⟩ | ⟨name, rfl, hcircles, htwice⟩
  · rcases hb.ends_or_circles with ⟨m, base', hm, hends', rfl⟩ | ⟨name', rfl, hcircles', -⟩
    · rw [hends.unique hends' hn hm]
    · exact (hcircles'.not_ends hn hends).elim
  · rcases hb.ends_or_circles with ⟨m, base', hm, hends', rfl⟩ | ⟨name', rfl, -, htwice'⟩
    · exact (hcircles.not_ends hm hends').elim
    · rw [htwice.unique htwice']

/-! ## The search -/

/-- The search without a bound, from the names that have been met and the type that has been reached.
It ends after a number of turns, one for each alias that it looks at. -/
inductive Search (r : TypeRegistry) :
    List String → DataType → Nat → Except AliasError DataType → Prop
  | found {visited : List String} {type : DataType} (h : type.isAlias = false) :
      Search r visited type 0 (.ok type)
  | repeated {visited : List String} {name target : String} (h : name ∈ visited) :
      Search r visited (.alias name target) 1 (.error (.cycle name))
  | unknown {visited : List String} {name target : String} (h : name ∉ visited)
      (hnone : r.get? target = none) :
      Search r visited (.alias name target) 1 (.error (.unresolved target))
  | next {visited : List String} {name target : String} {next : DataType} {turns : Nat}
      {answer : Except AliasError DataType} (h : name ∉ visited)
      (hnext : r.get? target = some next) (hrest : Search r (name :: visited) next turns answer) :
      Search r visited (.alias name target) (turns + 1) answer

/-- A search that began at `origin` has met these names, the last one first, and is at this type. -/
inductive Trail (r : TypeRegistry) (origin : DataType) : List String → DataType → Prop
  | start : Trail r origin [] origin
  | next {visited : List String} {name target : String} {next : DataType}
      (h : Trail r origin visited (.alias name target)) (hnew : name ∉ visited)
      (hnext : r.get? target = some next) : Trail r origin (name :: visited) next

namespace Trail

variable {visited : List String}

theorem leads (h : r.Trail origin visited type) : r.Leads origin visited.length type := by
  induction h with
  | start => exact .here origin
  | next _ _ hnext ih => exact ih.trans (.through hnext (.here _))

theorem nodup (h : r.Trail origin visited type) : visited.Nodup := by
  induction h with
  | start => exact List.nodup_nil
  | next _ hnew _ ih => exact List.nodup_cons.mpr ⟨hnew, ih⟩

theorem mem_iff (h : r.Trail origin visited type) :
    name ∈ visited ↔ ∃ i < visited.length, r.Meets origin i name := by
  induction h with
  | start => simp
  | @next visited last target next h _ _ ih =>
    have hlast : r.Meets origin visited.length last := ⟨target, h.leads⟩
    rw [List.mem_cons, ih, List.length_cons]
    constructor
    · rintro (rfl | ⟨i, hi, hmeets⟩)
      · exact ⟨_, Nat.lt_succ_self _, hlast⟩
      · exact ⟨i, Nat.lt_succ_of_lt hi, hmeets⟩
    · rintro ⟨i, hi, hmeets⟩
      rcases Nat.lt_succ_iff_lt_or_eq.mp hi with hi | rfl
      · exact .inr ⟨i, hi, hmeets⟩
      · exact .inl (hmeets.unique hlast)

/-- No name has been met twice on the way. -/
theorem distinct (h : r.Trail origin visited type) {a b : Nat} (hab : a < b)
    (hb : b < visited.length) (hmeets : r.Meets origin a name) : ¬r.Meets origin b name := by
  induction h generalizing b with
  | start => exact (Nat.not_lt_zero b hb).elim
  | @next visited last target next h hnew _ ih =>
    rcases Nat.lt_succ_iff_lt_or_eq.mp hb with hb | rfl
    · exact ih hab hb
    · intro hagain
      obtain rfl := hagain.unique ⟨target, h.leads⟩
      exact hnew (h.mem_iff.mpr ⟨a, hab, hmeets⟩)

/-- The names that have been met are names of registered types. -/
theorem length_le (hr : r.Named) (horigin : r.get? origin.name = some origin)
    (h : r.Trail origin visited type) : visited.length ≤ r.size := by
  have hkeys : visited ⊆ r.types.keys := by
    intro name hname
    obtain ⟨i, -, target, hleads⟩ := h.mem_iff.mp hname
    have hget : r.types.get? name = some (.alias name target) := hleads.registered hr horigin
    refine OrderedMap.contains_iff_mem_keys.mp ?_
    rw [OrderedMap.contains, hget]
    rfl
  have hlength : r.types.keys.length = r.size := List.length_map _
  rw [← hlength]
  exact (h.nodup.subperm hkeys).length_le

end Trail

/-- With enough steps, the bounded search goes as the one without a bound. -/
theorem search_follow (hr : r.Named) (horigin : r.get? origin.name = some origin)
    {visited : List String} {steps : Nat} (h : r.Trail origin visited type)
    (hsteps : r.size < visited.length + steps) :
    ∃ turns, turns + visited.length ≤ r.size + 1 ∧
      r.Search visited type turns (r.follow visited steps type) := by
  -- No name has been met twice, so the steps cannot run out before the search ends.
  have hlength := h.length_le hr horigin
  fun_induction follow r visited steps type with
  | case1 steps visited name target hmem => exact ⟨1, by omega, .repeated hmem⟩
  | case2 steps visited name target hnew hnone => exact ⟨1, by omega, .unknown hnew hnone⟩
  | case3 => omega
  | case4 visited name target hnew steps next hnext ih =>
    have htrail := h.next hnew hnext
    obtain ⟨turns, hle, hrest⟩ := ih htrail
      (by rw [List.length_cons]; omega) (htrail.length_le hr horigin)
    rw [List.length_cons] at hle
    exact ⟨turns + 1, by omega, .next hnew hnext hrest⟩
  | case5 steps visited type hne =>
    refine ⟨0, by omega, .found ?_⟩
    cases type with
    | «alias» name target => exact (hne name target rfl).elim
    | _ => rfl

/-- The search answers with what the chain comes to. -/
theorem Search.comesTo (hr : r.Named) (horigin : r.get? origin.name = some origin)
    {visited : List String} {turns : Nat} {answer : Except AliasError DataType}
    (h : r.Search visited type turns answer) (htrail : r.Trail origin visited type) :
    r.ComesTo origin answer := by
  induction h with
  | found hbase => exact ⟨hbase, htrail.leads.registered hr horigin, _, htrail.leads⟩
  | repeated hmem =>
    obtain ⟨i, hi, hmeets⟩ := htrail.mem_iff.mp hmem
    have htwice : r.MeetsTwice origin _ :=
      ⟨i, _, hi, hmeets, ⟨_, htrail.leads⟩, fun _ _ _ hab hb => htrail.distinct hab hb⟩
    exact ⟨(htwice.entersCycle hr horigin).circles, htwice⟩
  | unknown _ hnone => exact ⟨hnone, _, _, htrail.leads⟩
  | next hnew hnext _ ih => exact ih (htrail.next hnew hnext)

theorem search_unaliased (hr : r.Named) (h : r.get? name = some type) :
    ∃ turns ≤ r.size + 1, r.Search [] type turns (r.unaliased type) := by
  obtain ⟨turns, hle, hsearch⟩ := search_follow hr (hr.get?_name h) .start
    (show r.size < 0 + (r.size + 1) by omega)
  exact ⟨turns, hle, hsearch⟩

theorem comesTo_unaliased (hr : r.Named) (h : r.get? name = some type) :
    r.ComesTo type (r.unaliased type) := by
  obtain ⟨turns, -, hsearch⟩ := search_unaliased hr h
  exact hsearch.comesTo hr (hr.get?_name h) .start

theorem unaliased_eq_iff (hr : r.Named) (h : r.get? name = some type)
    {answer : Except AliasError DataType} : r.unaliased type = answer ↔ r.ComesTo type answer := by
  constructor
  · rintro rfl
    exact comesTo_unaliased hr h
  · exact fun hanswer => (comesTo_unaliased hr h).unique hanswer

theorem unaliased_eq_cycle_iff (hr : r.Named) (h : r.get? name = some type) :
    (∃ other, r.unaliased type = .error (.cycle other)) ↔ r.Circles type := by
  constructor
  · rintro ⟨other, hcycle⟩
    exact ((unaliased_eq_iff hr h).mp hcycle).1
  · intro hcircles
    rcases (comesTo_unaliased hr h).ends_or_circles with ⟨n, base, hn, hends, -⟩ | ⟨other, hother, -⟩
    · exact (hcircles.not_ends hn hends).elim
    · exact ⟨other, hother⟩

/-- Among finitely many types, a chain can only go on for ever in a cycle. -/
theorem circles_iff_entersCycle (hr : r.Named) (h : r.get? name = some type) :
    r.Circles type ↔ r.EntersCycle type := by
  refine ⟨fun hcircles => ?_, EntersCycle.circles⟩
  obtain ⟨other, hcycle⟩ := (unaliased_eq_cycle_iff hr h).mpr hcircles
  exact ((unaliased_eq_iff hr h).mp hcycle).2.entersCycle hr (hr.get?_name h)

theorem isCyclic_iff (hr : r.Named) (h : r.get? name = some type) :
    r.isCyclic name = true ↔ r.EntersCycle type := by
  rw [← circles_iff_entersCycle hr h, ← unaliased_eq_cycle_iff hr h, isCyclic, h, Option.map_some]
  cases r.unaliased type with
  | ok base => simp
  | error e => cases e <;> simp

end TypeRegistry

end LibraryContract
