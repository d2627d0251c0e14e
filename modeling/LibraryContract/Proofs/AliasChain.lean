import LibraryContract.Proofs.ClosedGraph

/-!
# Members behind aliases

Aliases are followed twice: when a type is declared, to its end (`TypeRegistry.unaliased`), and when a
member is looked up, through at most `maxAliasDepth` of them. `TypeRegistry.Leads` counts the aliases
between a type and what it stands for, and this number decides whether the two agree.

* `members_behind_aliases`: up to that many aliases, an alias has the members of the type that it
  stands for; one more, and each lookup says that the alias is cyclic;
* `members_of_long_alias`: so an alias that is not cyclic may have no members.
-/

namespace LibraryContract

open SyntaxTree

/-- The registry leads from a type through `n` aliases to another type. -/
inductive TypeRegistry.Leads (r : TypeRegistry) : DataType → Nat → DataType → Prop
  | here (type : DataType) : Leads r type 0 type
  | through {name target : String} {next type : DataType} {n : Nat} (h : r.get? target = some next)
      (hnext : Leads r next n type) : Leads r (.alias name target) (n + 1) type

namespace DataType

/-- What the fields of the type are is not described. -/
def hidesFields : DataType → Bool
  | .real _ | .array _ => true
  | _ => false

/-- What the elements of the type are is not described. -/
def hidesElements : DataType → Bool
  | .real _ => true
  | _ => false

end DataType

variable {t : SymbolTable} {type base : DataType}

namespace TypeRegistry

variable {r : TypeRegistry}

/-- Aliases that end do so after some number of them. -/
theorem leads_of_follow {visited : List String} {steps : Nat}
    (h : r.follow visited steps type = .ok base) :
    base.isAlias = false ∧ ∃ n, r.Leads type n base := by
  fun_induction follow r visited steps type with
  | case1 => cases h
  | case2 => cases h
  | case3 => cases h
  | case4 visited name target hnew steps next hnext ih =>
    obtain ⟨hbase, n, hn⟩ := ih h
    exact ⟨hbase, n + 1, .through hnext hn⟩
  | case5 steps visited type hne =>
    cases h
    refine ⟨?_, 0, .here _⟩
    cases base with
    | «alias» name target => exact (hne name target rfl).elim
    | _ => rfl

/-- A chain of aliases passes through every shorter distance at an alias. -/
theorem Leads.alias_before {n m : Nat} (h : r.Leads type n base) (hm : m < n) :
    ∃ name target, r.Leads type m (.alias name target) := by
  induction h generalizing m with
  | here => exact absurd hm (Nat.not_lt_zero m)
  | @through name target next type n hnext _ ih =>
    cases m with
    | zero => exact ⟨name, target, .here _⟩
    | succ m =>
      obtain ⟨other, last, hlast⟩ := ih (Nat.lt_of_succ_lt_succ hm)
      exact ⟨other, last, .through hnext hlast⟩

end TypeRegistry

/-! ## Looking through aliases -/

namespace Check

/-- The step gives up and says that the alias `name` is cyclic. -/
def DeniesAlias (c : Check String) (t : SymbolTable) (name : String) (span : Span) : Prop :=
  c.run t = ⟨.error .reported, [.error .invalidType s!"type alias '{name}' is cyclic" span]⟩

/-- The step finds a type that cannot be looked into. -/
def FindsCycle (c : Check String) (t : SymbolTable) : Prop :=
  ∃ d ∈ (c.run t).diagnostics, d.kind = .invalidType

end Check

theorem run_reachedType (name : String) (span : Span) (t : SymbolTable) :
    (reachedType name span).run t =
      match t.type? name with
      | some type => ⟨.ok type, []⟩
      | none => ⟨.error .reported,
          [.error .unresolvedType (ResolveError.unresolved .type name).message span]⟩ := by
  rw [reachedType, Check.run_look_bind, SymbolTable.resolveType]
  cases t.type? name <;> rfl

theorem run_reachedType_bind {name : String} {span : Span} (h : t.type? name = some type)
    (f : DataType → Check String) : (reachedType name span >>= f).run t = (f type).run t := by
  have hreached := run_reachedType name span t
  rw [h] at hreached
  refine (Check.run_bind_of_ok (a := type) (by rw [hreached])).trans ?_
  rw [hreached, List.nil_append]

/-! ## What counts as a cycle -/

theorem not_findsCycle_pure (a : String) : ¬(pure a : Check String).FindsCycle t := by
  rintro ⟨d, hd, -⟩
  cases hd

theorem not_findsCycle_fail {kind : DiagnosticKind} (hkind : kind ≠ .invalidType) (message : String)
    (span : Span) : ¬(Check.fail kind message span).FindsCycle t := by
  rintro ⟨d, hd, hd'⟩
  rw [List.mem_singleton.mp hd] at hd'
  exact hkind hd'

/-- A type that is not known is no cycle. -/
theorem findsCycle_reachedType_bind {name : String} {span : Span} {f : DataType → Check String}
    (h : (reachedType name span >>= f).FindsCycle t) :
    ∃ type, t.type? name = some type ∧ (f type).FindsCycle t := by
  obtain ⟨d, hd, hkind⟩ := h
  have hreached := run_reachedType name span t
  cases htype : t.type? name with
  | some type =>
    rw [run_reachedType_bind htype] at hd
    exact ⟨type, rfl, d, hd, hkind⟩
  | none =>
    rw [htype] at hreached
    have hbind : (reachedType name span >>= f).run t = _ :=
      Check.run_bind_of_error (f := f) (e := .reported) (by rw [hreached])
    rw [hbind, hreached, List.mem_singleton] at hd
    rw [hd] at hkind
    cases hkind

variable {surface : String} {field : Identifier} {span : Span} {n : Nat}

/-! ## Fields -/

/-- Aliases that are looked through change nothing. -/
theorem run_fieldOf_of_leads (surface : String) (field : Identifier)
    (h : t.types.Leads type n base) (depth : Nat) :
    (fieldOf surface field (depth + n) type).run t = (fieldOf surface field depth base).run t := by
  induction h with
  | here => rfl
  | @through name target next base n hnext _ ih =>
    rw [← Nat.add_assoc, fieldOf, run_reachedType_bind hnext, ih]

/-- An alias for which no depth is left counts as cyclic. -/
theorem fieldOf_deniesAlias {name target : String} (h : t.types.Leads type n (.alias name target)) :
    (fieldOf surface field n type).DeniesAlias t name field.span := by
  have hrun := run_fieldOf_of_leads surface field h 0
  rw [Nat.zero_add] at hrun
  rw [Check.DeniesAlias, hrun, fieldOf]
  rfl

/-- No other field counts as one of a cyclic alias. -/
theorem fieldOf_findsCycle {depth : Nat} (h : (fieldOf surface field depth type).FindsCycle t) :
    ∃ name target, t.types.Leads type depth (.alias name target) := by
  fun_induction fieldOf surface field depth type with
  | case5 _ name underlying backing =>
    obtain ⟨enum, -, h⟩ := findsCycle_reachedType_bind h
    split at h
    · split at h
      · exact (not_findsCycle_pure _ h).elim
      · exact (not_findsCycle_fail (by decide) _ _ h).elim
    · exact (not_findsCycle_fail (by decide) _ _ h).elim
  | case6 name target => exact ⟨name, target, .here _⟩
  | case7 depth name target ih =>
    obtain ⟨next, hnext, h⟩ := findsCycle_reachedType_bind h
    obtain ⟨other, last, hlast⟩ := ih next h
    exact ⟨other, last, .through hnext hlast⟩
  | _ =>
    first
    | exact (not_findsCycle_pure _ h).elim
    | exact (not_findsCycle_fail (by decide) _ _ h).elim

/-- The type of a field does not depend on how its location is typed, unless it is hidden. -/
theorem hasField_iff {name result : String} :
    base.HasField t surface name result ↔
      ∃ found, base.HasField t base.name name found ∧
        result = if base.hidesFields then surface else found := by
  constructor
  · rintro (h | h | ⟨hunderlying, h⟩ | _ | _)
    · exact ⟨_, .structured h, rfl⟩
    · exact ⟨_, .enum h, rfl⟩
    · exact ⟨_, .enumLike hunderlying h, rfl⟩
    · exact ⟨_, .real, rfl⟩
    · exact ⟨_, .array, rfl⟩
  · rintro ⟨_, h | h | ⟨hunderlying, h⟩ | _ | _, rfl⟩
    · exact .structured h
    · exact .enum h
    · exact .enumLike hunderlying h
    · exact .real
    · exact .array

/-! ## Elements -/

theorem run_elementOf_of_leads (surface : String) (span : Span)
    (h : t.types.Leads type n base) (depth : Nat) :
    (elementOf surface span (depth + n) type).run t = (elementOf surface span depth base).run t := by
  induction h with
  | here => rfl
  | @through name target next base n hnext _ ih =>
    rw [← Nat.add_assoc, elementOf, run_reachedType_bind hnext, ih]

theorem elementOf_deniesAlias {name target : String}
    (h : t.types.Leads type n (.alias name target)) :
    (elementOf surface span n type).DeniesAlias t name span := by
  have hrun := run_elementOf_of_leads surface span h 0
  rw [Nat.zero_add] at hrun
  rw [Check.DeniesAlias, hrun, elementOf]
  rfl

theorem elementOf_findsCycle {depth : Nat} (h : (elementOf surface span depth type).FindsCycle t) :
    ∃ name target, t.types.Leads type depth (.alias name target) := by
  fun_induction elementOf surface span depth type with
  | case3 name target => exact ⟨name, target, .here _⟩
  | case4 depth name target ih =>
    obtain ⟨next, hnext, h⟩ := findsCycle_reachedType_bind h
    obtain ⟨other, last, hlast⟩ := ih next h
    exact ⟨other, last, .through hnext hlast⟩
  | _ =>
    first
    | exact (not_findsCycle_pure _ h).elim
    | exact (not_findsCycle_fail (by decide) _ _ h).elim

theorem hasElement_iff {result : String} :
    base.HasElement surface result ↔
      ∃ found, base.HasElement base.name found ∧
        result = if base.hidesElements then surface else found := by
  constructor
  · rintro (_ | _)
    · exact ⟨_, .array, rfl⟩
    · exact ⟨_, .real, rfl⟩
  · rintro ⟨_, _ | _, rfl⟩
    · exact .array
    · exact .real

/-! ## Aliases of every length -/

/-- Lookups in a location of the type `surface` find the members of `base` with their types. Where
`base` hides them, the location keeps its own type. -/
structure SymbolTable.LooksThrough (t : SymbolTable) (surface : String) (base : DataType) : Prop where
  fields : ∀ field result, (fieldType surface field).Yields t result ↔
    ∃ found, (fieldOf base.name field maxAliasDepth base).Yields t found ∧
      result = if base.hidesFields then surface else found
  elements : ∀ span result, (elementType surface span).Yields t result ↔
    ∃ found, (elementOf base.name span maxAliasDepth base).Yields t found ∧
      result = if base.hidesElements then surface else found

/-- Every lookup in a location of the type `surface` says that the alias `name` is cyclic. -/
structure SymbolTable.DeniesMembers (t : SymbolTable) (surface name : String) : Prop where
  fields : ∀ field, (fieldType surface field).DeniesAlias t name field.span
  elements : ∀ span, (elementType surface span).DeniesAlias t name span

section Registered

variable {name target : String} (h : t.type? surface = some (.alias name target))

include h

theorem run_fieldType (field : Identifier) :
    (fieldType surface field).run t =
      (fieldOf surface field maxAliasDepth (.alias name target)).run t :=
  run_reachedType_bind h _

theorem run_elementType (span : Span) :
    (elementType surface span).run t =
      (elementOf surface span maxAliasDepth (.alias name target)).run t :=
  run_reachedType_bind h _

theorem deniesMembers_of_leads {other next : String}
    (hleads : t.types.Leads (.alias name target) maxAliasDepth (.alias other next)) :
    t.DeniesMembers surface other where
  fields field := by
    rw [Check.DeniesAlias, run_fieldType h]
    exact fieldOf_deniesAlias hleads
  elements span := by
    rw [Check.DeniesAlias, run_elementType h]
    exact elementOf_deniesAlias hleads

theorem looksThrough_of_leads (hbase : base.isAlias = false)
    (hleads : t.types.Leads (.alias name target) n base) (hn : n ≤ maxAliasDepth) :
    t.LooksThrough surface base := by
  have hdepth : maxAliasDepth - n + n = maxAliasDepth := Nat.sub_add_cancel hn
  constructor
  · intro field result
    have hrun := run_fieldOf_of_leads surface field hleads (maxAliasDepth - n)
    rw [hdepth, ← run_fieldType h] at hrun
    rw [Check.Yields, hrun]
    refine (yields_fieldOf_iff hbase).trans (hasField_iff.trans ?_)
    simp only [yields_fieldOf_iff hbase]
  · intro span result
    have hrun := run_elementOf_of_leads surface span hleads (maxAliasDepth - n)
    rw [hdepth, ← run_elementType h] at hrun
    rw [Check.Yields, hrun]
    refine (yields_elementOf_iff hbase).trans (hasElement_iff.trans ?_)
    simp only [yields_elementOf_iff hbase]

end Registered

/-! ## Long chains -/

namespace AliasChain

/-- What the chain ends at. -/
def point : DataType := .structured "Point" (.ofList [("x", "Int")])

/-- The name of the `i`-th alias. -/
def aliasName (i : Nat) : String := "A" ++ toString i

/-- As many aliases as `count`, each of the next one and the last one of the type `Point`. -/
def aliases (count : Nat) : List DataType :=
  (List.range count).map fun i =>
    .alias (aliasName i) (if i + 1 = count then "Point" else aliasName (i + 1))

/-- The table in which these types are registered one after the other. -/
def table (count : Nat) : SymbolTable :=
  (.simple "Int" :: point :: aliases count).foldl
    (fun t type => ((t.registerType type).toOption).getD t) .empty

end AliasChain

/-! ## Members of aliases -/

/-- An alias stands for a type after some number of aliases. Lookups that follow that many find the
members of this type. They say that an alias is cyclic only when more aliases follow each other than
they look through, which the first alias that is too many is then blamed for. -/
theorem members_behind_aliases {name target : String}
    (h : t.type? surface = some (.alias name target)) :
    (∀ base, t.types.unaliased (.alias name target) = .ok base →
      ∃ n, t.types.Leads (.alias name target) n base ∧
        (n ≤ maxAliasDepth → t.LooksThrough surface base) ∧
        (maxAliasDepth < n → ∃ other, t.DeniesMembers surface other)) ∧
    ((∃ field, (fieldType surface field).FindsCycle t) ∨
        (∃ span, (elementType surface span).FindsCycle t) →
      ∃ other next, t.types.Leads (.alias name target) maxAliasDepth (.alias other next) ∧
        t.DeniesMembers surface other) := by
  constructor
  · intro base hbase
    obtain ⟨hplain, n, hn⟩ := TypeRegistry.leads_of_follow hbase
    refine ⟨n, hn, looksThrough_of_leads h hplain hn, fun hlong => ?_⟩
    obtain ⟨other, next, hother⟩ := hn.alias_before hlong
    exact ⟨other, deniesMembers_of_leads h hother⟩
  · intro hcycle
    obtain ⟨other, next, hother⟩ :
        ∃ other next, t.types.Leads (.alias name target) maxAliasDepth (.alias other next) := by
      rcases hcycle with ⟨field, hfield⟩ | ⟨span, helement⟩
      · rw [Check.FindsCycle, run_fieldType h] at hfield
        exact fieldOf_findsCycle hfield
      · rw [Check.FindsCycle, run_elementType h] at helement
        exact elementOf_findsCycle helement
    exact ⟨other, next, hother, deniesMembers_of_leads h hother⟩

/-- What `members_behind_aliases` asks for is there: an alias of an alias, whose chain ends. -/
theorem members_behind_aliases_of_two :
    (AliasChain.table 2).type? "A0" = some (.alias "A0" "A1") ∧
      ∃ base n, (AliasChain.table 2).types.unaliased (.alias "A0" "A1") = .ok base ∧
        (AliasChain.table 2).types.Leads (.alias "A0" "A1") n base ∧
        (n ≤ maxAliasDepth → (AliasChain.table 2).LooksThrough "A0" base) := by
  have halias : (AliasChain.table 2).type? "A0" = some (.alias "A0" "A1") := by decide +kernel
  have hbase : (AliasChain.table 2).types.unaliased (.alias "A0" "A1") = .ok AliasChain.point := by
    decide +kernel
  obtain ⟨n, hn, hlooks, -⟩ := (members_behind_aliases halias).1 _ hbase
  exact ⟨halias, _, n, hbase, hn, hlooks⟩

/-- An alias that stands for a type does not always have its members. -/
theorem members_of_long_alias :
    ¬∀ (t : SymbolTable) (surface name target : String) (base : DataType),
      t.type? surface = some (.alias name target) →
        t.types.unaliased (.alias name target) = .ok base → t.LooksThrough surface base := by
  intro hall
  have hlooks : (AliasChain.table 33).LooksThrough "A0" AliasChain.point :=
    hall _ _ "A0" "A1" _ (by decide +kernel) (by decide +kernel)
  have hfield : (fieldOf "Point" (.onLine "x" 6) maxAliasDepth AliasChain.point).Yields
      (AliasChain.table 33) "Int" := by
    unfold Check.Yields
    decide +kernel
  have hdenied : ¬(fieldType "A0" (.onLine "x" 6)).Yields (AliasChain.table 33) "Int" := by
    unfold Check.Yields
    decide +kernel
  exact hdenied ((hlooks.fields _ _).mpr ⟨_, hfield, rfl⟩)

end LibraryContract
