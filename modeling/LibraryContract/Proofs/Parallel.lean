import LibraryContract.Proofs.AliasCycle
import LibraryContract.Proofs.TypesInTurn

/-!
# Runs side by side

Two runs that differ only in some arrays do the same as long as nothing asks for these arrays by
name: each step ends in the same way and finds the same, and the tables still differ only in these
arrays afterwards.

* `SymbolTable.Matches`: the tables differ only in arrays of certain names;
* `Build.Parallel`: a step does the same in both tables, with one lemma for each way of building it;
* `TypeDecl.parallel_declare`, `TypeDecl.parallel_validate`: so do both looks at a type declaration;
* `Run.Beside.collect`, `Run.Beside.performAll`: so do runs, when one has found more before.
-/

namespace LibraryContract

open SyntaxTree Build

variable {α β : Type} {t t' u u' : SymbolTable} {names : List String}

/-! ## Registries -/

namespace TypeRegistry

variable {r s : TypeRegistry}

/-- The entries of other names. -/
def without (r : TypeRegistry) (names : List String) : List (String × DataType) :=
  r.types.entries.filter fun e => decide (e.1 ∉ names)

/-- A new type comes last, unless it has one of the names. -/
theorem without_insert (r : TypeRegistry) (type : DataType) (names : List String) :
    ((r.insert? type).getD r).without names =
      if r.contains type.name = true ∨ type.name ∈ names then r.without names
      else r.without names ++ [(type.name, type)] := by
  unfold insert?
  cases hknown : r.contains type.name with
  | true => simp
  | false =>
    have hentries := OrderedMap.entries_insert_of_not_contains hknown type
    simp only [Bool.false_eq_true, if_false, Option.getD_some, false_or, without, hentries,
      List.filter_append]
    by_cases hmem : type.name ∈ names <;> simp [hmem]

theorem get?_eq_of_without (h : r.without names = s.without names) {name : String}
    (hname : name ∉ names) : r.get? name = s.get? name := by
  refine Option.ext fun type => ?_
  have hentry : ∀ r : TypeRegistry, r.get? name = some type ↔ (name, type) ∈ r.without names := by
    intro r
    rw [get?, OrderedMap.get?_eq_some_iff, without, List.mem_filter, decide_eq_true hname,
      and_iff_left rfl]
  rw [hentry r, hentry s, h]

theorem eq_of_without_nil (h : r.without [] = s.without []) : r = s := by
  simp only [without, List.not_mem_nil, not_false_eq_true, decide_true, List.filter_true] at h
  cases r
  cases s
  exact congrArg mk (OrderedMap.ext h)

theorem get?_insert (r : TypeRegistry) (type : DataType) (name : String) :
    ((r.insert? type).getD r).get? name =
      if r.contains type.name = false ∧ name = type.name then some type else r.get? name := by
  unfold insert?
  cases r.contains type.name with
  | true => simp
  | false =>
    simp only [Bool.false_eq_true, if_false, Option.getD_some, true_and]
    exact OrderedMap.get?_insert _ _ _ _

/-- Where one registry has the aliases of another, it leads on like that one. -/
theorem Leads.transfer {type base : DataType} {n : Nat} (h : r.Leads type n base)
    (hbase : base.isAlias = true)
    (hrs : ∀ name next, r.get? name = some next → next.isAlias = true → s.get? name = some next) :
    s.Leads type n base ∧ type.isAlias = true := by
  induction h with
  | here type => exact ⟨.here type, hbase⟩
  | through hnext _ ih =>
    obtain ⟨hleads, halias⟩ := ih hbase
    exact ⟨.through (hrs _ _ hnext halias) hleads, rfl⟩

theorem EntersCycle.transfer {type : DataType} (h : r.EntersCycle type)
    (hrs : ∀ name next, r.get? name = some next → next.isAlias = true → s.get? name = some next) :
    s.EntersCycle type := by
  obtain ⟨n, again, m, hn, hcycle⟩ := h
  have hagain : again.isAlias = true := by
    cases hcycle
    rfl
  exact ⟨n, again, m, (hn.transfer hagain hrs).1, (hcycle.transfer hagain hrs).1⟩

end TypeRegistry

/-! ## Tables -/

namespace SymbolTable

/-- The table with a type more, unless its name is taken. -/
def withType (t : SymbolTable) (type : DataType) : SymbolTable :=
  { t with types := (t.types.insert? type).getD t.types }

theorem internArray_eq (t : SymbolTable) (element : String) :
    t.internArray element = t.withType (.array element) := rfl

theorem type?_withType (t : SymbolTable) (type : DataType) (name : String) :
    (t.withType type).type? name =
      if t.types.contains type.name = false ∧ name = type.name then some type
      else t.type? name :=
  t.types.get?_insert type name

theorem knows_withType {type : DataType} {name : String} :
    (t.withType type).Knows name ↔ t.Knows name ∨ name = type.name := by
  unfold Knows
  simp only [type?_withType]
  cases htaken : t.types.contains type.name with
  | true =>
    have hknown : t.Knows type.name := knows_iff_contains.mpr htaken
    simp only [Bool.true_eq_false, false_and, if_false]
    exact ⟨.inl, fun h => h.elim id fun heq => heq ▸ hknown⟩
  | false =>
    by_cases hname : name = type.name <;> simp [hname]

/-- A type more makes no difference between tables that have the same types of other names. -/
theorem without_withType (h : t.types.without names = t'.types.without names) (type : DataType) :
    (t.withType type).types.without names = (t'.withType type).types.without names := by
  show ((t.types.insert? type).getD t.types).without names = _
  rw [TypeRegistry.without_insert, h]
  refine Eq.trans ?_ (TypeRegistry.without_insert _ _ _).symm
  by_cases hname : type.name ∈ names
  · simp only [hname, or_true, if_true]
  · have hcontains : t.types.contains type.name = t'.types.contains type.name :=
      congrArg Option.isSome (TypeRegistry.get?_eq_of_without h hname)
    rw [hcontains]

/-- The tables differ only in arrays of these names, which the first table knows. -/
structure Matches (names : List String) (t t' : SymbolTable) : Prop where
  rest : ∃ types, t = { t' with types := types }
  types : t.types.without names = t'.types.without names
  known : ∀ name ∈ names, t.Knows name
  arrays : ∀ name ∈ names, ∀ type, t.type? name = some type ∨ t'.type? name = some type →
    type.isArray = true
  named : t.types.Named ∧ t'.types.Named

namespace Matches

theorem type?_eq (h : Matches names t t') {name : String} (hname : name ∉ names) :
    t.type? name = t'.type? name :=
  TypeRegistry.get?_eq_of_without h.types hname

/-- What either table has under one of the names is the array of that name. -/
theorem array_of_mem (h : Matches names t t') {name : String} (hname : name ∈ names)
    {type : DataType} (htype : t.type? name = some type ∨ t'.type? name = some type) :
    ∃ element, type = .array element ∧ name = DataType.arrayName element := by
  have harray := h.arrays name hname type htype
  have hown : type.name = name :=
    htype.elim (fun ht => h.named.1 name type ht) fun ht => h.named.2 name type ht
  cases type <;> cases harray
  exact ⟨_, rfl, hown.symm⟩

theorem contains_eq (h : Matches names t t') {name : String} (hname : name ∉ names) :
    t.types.contains name = t'.types.contains name :=
  congrArg Option.isSome (h.type?_eq hname)

/-- The same type may be registered in both, if it is an array or has another name. -/
theorem withType (h : Matches names t t') {type : DataType}
    (htype : type.isArray = true ∨ type.name ∉ names) :
    Matches names (t.withType type) (t'.withType type) := by
  obtain ⟨types, hrest⟩ := h.rest
  refine ⟨⟨_, by rw [SymbolTable.withType, SymbolTable.withType, hrest]⟩,
    without_withType h.types type, ?_, ?_, ?_⟩
  · exact fun name hname => knows_withType.mpr (.inl (h.known name hname))
  · intro name hname other hother
    simp only [type?_withType] at hother
    have hkept := h.arrays name hname other
    have hnew : ∀ {b : Bool} {found : Option DataType},
        (if b = false ∧ name = type.name then some type else found) = some other →
          found = some other ∨ other.isArray = true := by
      intro b found hfound
      split at hfound
      · rename_i heq
        obtain rfl := Option.some.inj hfound
        exact .inr (htype.resolve_right fun hne => hne (heq.2 ▸ hname))
      · exact .inl hfound
    rcases hother with hother | hother
    · exact (hnew hother).elim (fun h => hkept (.inl h)) id
    · exact (hnew hother).elim (fun h => hkept (.inr h)) id
  · exact ⟨h.named.1.insert type, h.named.2.insert type⟩

theorem intern (h : Matches names t t') (e : TypeExpr) :
    Matches names (e.intern t) (e.intern t') := by
  induction e with
  | named name => exact h
  | array inner ih => exact ih.withType (.inl rfl)

theorem internAll (h : Matches names t t') (es : List TypeExpr) :
    Matches names (es.foldl (fun t e => e.intern t) t) (es.foldl (fun t e => e.intern t) t') := by
  induction es generalizing t t' with
  | nil => exact h
  | cons e rest ih => exact ih (h.intern e)

/-- An alias has its name in both tables or in none, since those that differ are arrays. -/
theorem isCyclic_eq (h : Matches names t t') {name : String} (hname : name ∉ names) :
    t.types.isCyclic name = t'.types.isCyclic name := by
  have hname? : ∀ {n : String} {next : DataType},
      t.type? n = some next ∨ t'.type? n = some next → next.isAlias = true → n ∉ names := by
    intro n next hnext halias hn
    have harray := h.arrays n hn next hnext
    cases next <;> cases halias
    cases harray
  have hforward : ∀ n next, t.types.get? n = some next → next.isAlias = true →
      t'.types.get? n = some next :=
    fun n next hnext halias => (h.type?_eq (hname? (.inl hnext) halias)).symm.trans hnext
  have hback : ∀ n next, t'.types.get? n = some next → next.isAlias = true →
      t.types.get? n = some next :=
    fun n next hnext halias => (h.type?_eq (hname? (.inr hnext) halias)).trans hnext
  have hget : t.types.get? name = t'.types.get? name := h.type?_eq hname
  cases htype : t.types.get? name with
  | none => rw [TypeRegistry.isCyclic, TypeRegistry.isCyclic, ← hget, htype]; rfl
  | some type =>
    rw [Bool.eq_iff_iff, TypeRegistry.isCyclic_iff h.named.1 htype,
      TypeRegistry.isCyclic_iff h.named.2 (hget.symm.trans htype)]
    exact ⟨fun hcycle => hcycle.transfer hforward, fun hcycle => hcycle.transfer hback⟩

/-- Neither table has an enum under one of the names. -/
theorem isEnum_eq (h : Matches names t t') (name : String) :
    ((t.type? name).map DataType.isEnum).getD false =
      ((t'.type? name).map DataType.isEnum).getD false := by
  by_cases hname : name ∈ names
  · have hnot : ∀ found : Option DataType, (∀ type, found = some type → type.isArray = true) →
        (found.map DataType.isEnum).getD false = false := by
      intro found harray
      cases found with
      | none => rfl
      | some type =>
        have := harray type rfl
        cases type <;> cases this
        rfl
    rw [hnot _ fun type htype => h.arrays name hname type (.inl htype),
      hnot _ fun type htype => h.arrays name hname type (.inr htype)]
  · rw [h.type?_eq hname]

end Matches

end SymbolTable

/-! ## Steps -/

namespace Build

variable {R : SymbolTable → SymbolTable → Prop}

/-- The step ends in the same way in both tables and finds the same, and it leaves tables that are
related. -/
structure Parallel (R : SymbolTable → SymbolTable → Prop) (b : Build α) (t t' : SymbolTable) :
    Prop where
  outcome : (b.run t).1 = (b.run t').1
  tables : R (b.run t).2 (b.run t').2

theorem parallel_pure (a : α) (h : R t t') : (Pure.pure a : Build α).Parallel R t t' := ⟨rfl, h⟩

theorem parallel_modify {f : SymbolTable → SymbolTable} (h : R (f t) (f t')) :
    (modify f).Parallel R t t' := ⟨rfl, h⟩

theorem parallel_note (kind : DiagnosticKind) (message : String) (span : Span) (h : R t t') :
    (note kind message span).Parallel R t t' := ⟨rfl, h⟩

theorem parallel_look {f : SymbolTable → α} (hf : f t = f t') (h : R t t') :
    (liftM (Check.look f) : Build α).Parallel R t t' :=
  ⟨congrArg (fun a => (⟨.ok a, []⟩ : Outcome α)) hf, h⟩

theorem parallel_fail (kind : DiagnosticKind) (message : String) (span : Span) (h : R t t') :
    (liftM (Check.fail kind message span : Check α) : Build α).Parallel R t t' := ⟨rfl, h⟩

theorem parallel_bind {b : Build α} {f : α → Build β} (hb : b.Parallel R t t')
    (hf : ∀ a u u', R u u' → (f a).Parallel R u u') : (b >>= f).Parallel R t t' := by
  have hend := hb.outcome
  cases hresult : (b.run t).1.result with
  | ok a =>
    have hnext := hf a _ _ hb.tables
    have hrun : (b >>= f).run t = _ := run_bind_of_ok hresult
    have hrun' : (b >>= f).run t' = _ := run_bind_of_ok (a := a) (by rw [← hend, hresult])
    refine ⟨?_, ?_⟩
    · rw [hrun, hrun', hend, hnext.outcome]
    · rw [hrun, hrun']
      exact hnext.tables
  | error e =>
    have hrun : (b >>= f).run t = _ := run_bind_of_error hresult
    have hrun' : (b >>= f).run t' = _ := run_bind_of_error (e := e) (by rw [← hend, hresult])
    refine ⟨?_, ?_⟩
    · rw [hrun, hrun', hend]
    · rw [hrun, hrun']
      exact hb.tables

theorem parallel_ite {p : Prop} [Decidable p] {b c : Build α} (hb : p → b.Parallel R t t')
    (hc : ¬p → c.Parallel R t t') : (if p then b else c).Parallel R t t' := by
  split
  · exact hb ‹_›
  · exact hc ‹_›

theorem parallel_attempt {b : Build α} (hb : b.Parallel R t t') : b.attempt.Parallel R t t' := by
  have hend := hb.outcome
  have htables := hb.tables
  rcases hrun : b.run t with ⟨⟨result, ds⟩, v⟩
  rcases hrun' : b.run t' with ⟨⟨result', ds'⟩, v'⟩
  rw [hrun, hrun'] at hend htables
  cases hend
  unfold attempt
  rcases result with (_ | m) | a <;> exact ⟨by simp only [hrun, hrun'], by simpa only [hrun, hrun']⟩

theorem run_registerType (type : DataType) (span : Span) (t : SymbolTable) :
    (registerUnit (fun t => t.registerType type) span).run t =
      (if t.types.contains type.name then ⟨.error .reported,
        [.error .duplicateDeclaration (RegistrationError.duplicate .type type.name).message span]⟩
      else ⟨.ok (), []⟩, t.withType type) := by
  simp only [registerUnit, register, SymbolTable.registerType, SymbolTable.withType,
    TypeRegistry.insert?]
  cases t.types.contains type.name <;> rfl

/-- Registering a type ends in the same way if its name is taken in both tables or in none. -/
theorem parallel_registerType {type : DataType} {span : Span}
    (htaken : t.types.contains type.name = t'.types.contains type.name)
    (h : R (t.withType type) (t'.withType type)) :
    (registerUnit (fun t => t.registerType type) span).Parallel R t t' := by
  refine ⟨?_, ?_⟩
  · rw [run_registerType, run_registerType, htaken]
  · rw [run_registerType, run_registerType]
    exact h

end Build

/-! ## Type declarations -/

namespace SyntaxTree

/-- Looking up a type whose innermost name is none of the names. -/
theorem TypeExpr.parallel_resolve {e : TypeExpr} (he : e.innermost.name ∉ names)
    (h : SymbolTable.Matches names t t') : e.resolve.Parallel (SymbolTable.Matches names) t t' := by
  induction e with
  | named name =>
    refine parallel_bind (parallel_look (h.contains_eq he) h) fun known u u' hu => ?_
    exact parallel_ite (fun _ => parallel_pure _ hu) fun _ => parallel_fail _ _ _ hu
  | array inner ih =>
    refine parallel_bind (ih he) fun element u u' hu => ?_
    refine parallel_bind (parallel_modify (hu.withType (.inl rfl))) fun _ v v' hv => ?_
    exact parallel_pure _ hv

namespace TypeDecl

theorem parallel_declare {d : TypeDecl} (hd : d.name.name ∉ names)
    (h : SymbolTable.Matches names t t') : d.declare.Parallel (SymbolTable.Matches names) t t' := by
  refine parallel_bind (parallel_modify (h.internAll d.mentioned)) fun _ u u' hu => ?_
  have hname : d.toDataType.name ∉ names := by rwa [d.name_toDataType]
  exact parallel_registerType (hu.contains_eq hname) (hu.withType (.inr hname))

theorem parallel_noteRepeated (words : String → String) (seen : List String)
    (identifiers : List Identifier) (h : SymbolTable.Matches names t t') :
    (noteRepeated words seen identifiers).Parallel (SymbolTable.Matches names) t t' := by
  induction identifiers generalizing seen t t' with
  | nil => exact parallel_pure _ h
  | cons name rest ih =>
    rw [noteRepeated]
    refine parallel_ite (fun _ => ?_) fun _ => ih _ h
    exact parallel_bind (parallel_note _ _ _ h) fun _ u u' hu => ih _ hu

theorem parallel_validateFields (typeName : String) (seen : List String) {fields : List FieldDecl}
    (hf : ∀ f ∈ fields, f.type.innermost.name ∉ names) (h : SymbolTable.Matches names t t') :
    (validateFields typeName seen fields).Parallel (SymbolTable.Matches names) t t' := by
  induction fields generalizing seen t t' with
  | nil => exact parallel_pure _ h
  | cons field rest ih =>
    obtain ⟨hfield, hrest⟩ := List.forall_mem_cons.mp hf
    have hothers : ∀ {v v'}, SymbolTable.Matches names v v' →
        (field.type.resolve.attempt >>= fun _ =>
          validateFields typeName (field.name.name :: seen) rest).Parallel
            (SymbolTable.Matches names) v v' := by
      intro v v' hv
      refine parallel_bind (parallel_attempt (TypeExpr.parallel_resolve hfield hv)) ?_
      exact fun _ u u' hu => ih _ hrest hu
    rw [validateFields]
    refine parallel_ite (fun _ => ?_) fun _ => hothers h
    exact parallel_bind (parallel_note _ _ _ h) fun _ u u' hu => hothers hu

/-- The second look at a declaration that has none of the names, and mentions none of them either,
except as arrays. -/
theorem parallel_validate {d : TypeDecl} (hd : d.name.name ∉ names)
    (hmentioned : ∀ e ∈ d.mentioned, e.innermost.name ∉ names)
    (h : SymbolTable.Matches names t t') : d.validate.Parallel (SymbolTable.Matches names) t t' := by
  rcases d with ⟨name, _ | _ | target | fields | members | ⟨underlying, backing⟩⟩
  · exact parallel_pure _ h
  · exact parallel_pure _ h
  · have htarget := hmentioned target List.mem_cons_self
    refine parallel_bind (TypeExpr.parallel_resolve htarget h) fun _ u u' hu => ?_
    refine parallel_bind (parallel_look (hu.isCyclic_eq hd) hu) fun _ v v' hv => ?_
    exact parallel_ite (fun _ => parallel_fail _ _ _ hv) fun _ => parallel_pure _ hv
  · exact parallel_validateFields _ _ (fun f hf => hmentioned _ (List.mem_map_of_mem hf)) h
  · exact parallel_noteRepeated _ _ _ h
  · have hbacking := hmentioned backing List.mem_cons_self
    have hlast : ∀ {v v'}, SymbolTable.Matches names v v' →
        (backing.resolve >>= fun _ => (Pure.pure () : Build Unit)).Parallel
          (SymbolTable.Matches names) v v' := by
      intro v v' hv
      refine parallel_bind (TypeExpr.parallel_resolve hbacking hv) fun _ u u' hu => ?_
      exact parallel_pure _ hu
    refine parallel_bind (parallel_look (h.isEnum_eq underlying.name) h) fun _ u u' hu => ?_
    refine parallel_ite (fun _ => ?_) fun _ => hlast hu
    exact parallel_bind (parallel_note _ _ _ hu) fun _ v v' hv => hlast hv

end TypeDecl

end SyntaxTree

/-! ## Runs -/

namespace Run

/-- The first run has found more at one time than the second, and otherwise both have found the
same; the tables are related. -/
structure Beside (R : SymbolTable → SymbolTable → Prop) (first more : Diagnostics) (r r' : Run) :
    Prop where
  tables : R r.table r'.table
  diagnostics : ∃ second, r.diagnostics = first ++ more ++ second ∧
    r'.diagnostics = first ++ second

variable {R : SymbolTable → SymbolTable → Prop} {first more : Diagnostics} {r r' : Run}

namespace Beside

theorem settle (h : Beside R first more r r') {step : Build α}
    (hstep : step.Parallel R r.table r'.table) :
    (r.settle step).1 = (r'.settle step).1 ∧
      Beside R first more (r.settle step).2 (r'.settle step).2 := by
  obtain ⟨second, hr, hr'⟩ := h.diagnostics
  have hend := hstep.outcome
  have htables := hstep.tables
  unfold Run.settle
  rcases hrun : step.run r.table with ⟨⟨result, ds⟩, v⟩
  rcases hrun' : step.run r'.table with ⟨⟨result', ds'⟩, v'⟩
  rw [hrun, hrun'] at hend htables
  cases hend
  rcases result with (_ | m) | a
  · exact ⟨rfl, htables, second ++ ds, by simp [hr], by simp [hr']⟩
  · exact ⟨rfl, htables, second ++ ds ++ [.error .malformedTree m.message m.span],
      by simp [hr], by simp [hr']⟩
  · exact ⟨rfl, htables, second ++ ds, by simp [hr], by simp [hr']⟩

theorem collect (h : Beside R first more r r') {step : α → Build β} {items : List α}
    (hstep : ∀ a ∈ items, ∀ t t', R t t' → (step a).Parallel R t t') :
    (r.collect step items).1 = (r'.collect step items).1 ∧
      Beside R first more (r.collect step items).2 (r'.collect step items).2 := by
  induction items generalizing r r' with
  | nil => exact ⟨rfl, h⟩
  | cons a rest ih =>
    obtain ⟨ha, hrest⟩ := List.forall_mem_cons.mp hstep
    obtain ⟨hvalue, hnext⟩ := h.settle (ha _ _ h.tables)
    obtain ⟨hvalues, hlast⟩ := ih hnext hrest
    rw [collect_cons, collect_cons, hvalue, hvalues]
    exact ⟨rfl, hlast⟩

theorem performAll (h : Beside R first more r r') {step : α → Build β} {items : List α}
    (hstep : ∀ a ∈ items, ∀ t t', R t t' → (step a).Parallel R t t') :
    Beside R first more (r.performAll step items) (r'.performAll step items) := by
  induction items generalizing r r' with
  | nil => exact h
  | cons a rest ih =>
    obtain ⟨ha, hrest⟩ := List.forall_mem_cons.mp hstep
    exact ih (h.settle (ha _ _ h.tables)).2 hrest

end Beside

end Run

end LibraryContract
