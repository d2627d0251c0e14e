import LibraryContract.Proofs.AliasSearch
import LibraryContract.Proofs.ForwardReference
import LibraryContract.Proofs.History
import LibraryContract.Proofs.TypeName

/-!
# Cyclic aliases

Types are looked at a second time when all of them are registered. No type is added then, so every
alias is held against the same types, in whatever order they were declared. It is refused when its
target is known and its chain enters a cycle, whether the alias is on the cycle itself or only leads
to it.

* `SymbolTable.HasDeclared`: what the first look leaves behind;
* `TypeDecl.mem_diagnostics_validate`: which declaration is said to be a cyclic alias;
* `alias_cycles_exact`: the search behind aliases, in every registry, and the aliases of a library
  that are said to be cyclic.
-/

namespace LibraryContract

open SyntaxTree Build

variable {t u : SymbolTable}

/-! ## What the first look leaves behind -/

/-- The table has the declared types, which bear different names, and the arrays that they mention. -/
structure SymbolTable.HasDeclared (t : SymbolTable) (ds : List TypeDecl) : Prop where
  type? : ∀ d ∈ ds, t.type? d.name.name = some d.toDataType
  interned : ∀ d ∈ ds, ∀ e ∈ d.mentioned, e.Interned t
  distinct : (ds.map fun d => d.name.name).Nodup

namespace SymbolTable.HasDeclared

variable {ds : List TypeDecl} {d : TypeDecl}

theorem mono (h : t.HasDeclared ds) (hu : t.GrowsTo u) : u.HasDeclared ds where
  type? d hd := hu.type? (h.type? d hd)
  interned d hd e he := (h.interned d hd e he).mono hu
  distinct := h.distinct

theorem declare (h : t.HasDeclared ds) (hd : d.declare.Yields t () u) :
    u.HasDeclared (ds ++ [d]) := by
  have hu := TypeDecl.yields_declare.mp hd
  obtain ⟨hgrows, hinterned, -⟩ := t.interns_all d.mentioned
  have hold := h.mono hgrows
  have hmore := registerType_growsTo hu
  obtain ⟨hnew, rfl⟩ := registerType_eq_ok.mp hu
  refine ⟨fun d' hd' => ?_, fun d' hd' e he => ?_, ?_⟩
  · rcases List.mem_append.mp hd' with hd' | hd'
    · exact hmore.type? (hold.type? d' hd')
    · rw [List.mem_singleton.mp hd', ← d.name_toDataType]
      exact OrderedMap.get?_insert_self _ _ _
  · rcases List.mem_append.mp hd' with hd' | hd'
    · exact (hold.interned d' hd' e he).mono hmore
    · rw [List.mem_singleton.mp hd'] at he
      exact (hinterned e he).mono hmore
  · rw [List.map_append, List.nodup_append_comm]
    refine List.nodup_cons.mpr ⟨fun hmem => ?_, h.distinct⟩
    obtain ⟨d', hd', hname : d'.name.name = d.name.name⟩ := List.mem_map.mp hmem
    have hknown := SymbolTable.knows_iff_contains.mp ⟨_, hold.type? d' hd'⟩
    rw [hname, ← d.name_toDataType, hnew] at hknown
    cases hknown

/-- Of declarations with one name, at most one is accepted. -/
theorem eq_of_name (h : t.HasDeclared ds) {d d' : TypeDecl} (hd : d ∈ ds) (hd' : d' ∈ ds)
    (hname : d.name.name = d'.name.name) : d = d' :=
  List.inj_on_of_nodup_map h.distinct hd hd' hname

end SymbolTable.HasDeclared

namespace Run

variable (library : SyntaxTree.Library)

theorem withDeclaredTypes_hasDeclared :
    (withDeclaredTypes library).table.HasDeclared (acceptedTypes library) := by
  show (withDeclaredTypes library).table.HasDeclared ([] ++ acceptedTypes library)
  refine collect_invariant (I := fun ds t => SymbolTable.HasDeclared t ds) ?_ ?_
    ⟨List.forall_mem_nil _, List.forall_mem_nil _, List.nodup_nil⟩
  · intro d _ ds t d' u h hyields
    obtain ⟨_, v, hdeclare, hreturn⟩ := yields_bind.mp hyields
    obtain ⟨rfl, rfl⟩ := yields_pure.mp hreturn
    exact h.declare hdeclare
  · intro d _ ds t e h _
    exact h.mono ((declares_return (d.declare_within t)).growsTo Declares.growsTo)

end Run

/-! ## The second look -/

namespace SyntaxTree

/-- The error for an alias that leads into a cycle. -/
def TypeDecl.cyclicAlias (d : TypeDecl) : Diagnostic :=
  .error .invalidType s!"type alias '{d.name.name}' is cyclic" d.name.span

theorem TypeDecl.cyclicAlias_inj {d d' : TypeDecl} (h : d.cyclicAlias = d'.cyclicAlias) :
    d.name.name = d'.name.name :=
  quoted_inj (congrArg Diagnostic.message h)

theorem TypeDecl.error_ne_cyclicAlias {kind : DiagnosticKind} {message : String} {span : Span}
    (hkind : kind ≠ .invalidType) (d : TypeDecl) : .error kind message span ≠ d.cyclicAlias :=
  fun h => hkind (congrArg Diagnostic.kind h)

theorem TypeExpr.resolve_stays {e : TypeExpr} (h : e.Interned t) : e.resolve.Within Eq t := by
  rw [Within]
  cases hknown : t.types.contains e.innermost.name with
  | true =>
    rw [run_resolve_of_known hknown, intern_of_interned h]
  | false => rw [run_resolve_of_unknown hknown]

/-- Whoever looks a type up says at most that its name is unknown. -/
theorem TypeExpr.kind_of_mem_diagnostics {e : TypeExpr} {x : Diagnostic}
    (h : x ∈ (e.resolve.run t).1.diagnostics) : x.kind = .unresolvedType := by
  cases hknown : t.types.contains e.innermost.name with
  | true =>
    rw [run_resolve_of_known hknown] at h
    cases h
  | false =>
    rw [run_resolve_of_unknown hknown, List.mem_singleton] at h
    rw [h]
    rfl

namespace TypeDecl

/-- Where the arrays of a declaration are known, a second look at it changes nothing. -/
theorem table_validate {d : TypeDecl} (h : ∀ e ∈ d.mentioned, e.Interned t) :
    (d.validate.run t).2 = t := by
  have hwithin : d.validate.Within Eq t := by
    refine d.validate_within_of t fun e he u hu => ?_
    rw [Relation.reflTransGen_eq_self] at hu
    exact hu ▸ TypeExpr.resolve_stays (h e he)
  rw [Within, Relation.reflTransGen_eq_self] at hwithin
  exact hwithin.symm

theorem diagnostics_validate_alias {d : TypeDecl} {target : TypeExpr}
    (hd : d.definition = .alias target) (h : target.Interned t) :
    (d.validate.run t).1.diagnostics =
      if t.types.contains target.innermost.name then
        if t.types.isCyclic d.name.name then [d.cyclicAlias] else []
      else [.error .unresolvedType s!"unresolved type '{target.innermost.name}'"
        target.innermost.span] := by
  obtain ⟨name, definition⟩ := d
  cases hd
  unfold validate
  cases hknown : t.types.contains target.innermost.name with
  | true =>
    have hrun := TypeExpr.run_resolve_of_known hknown
    rw [TypeExpr.intern_of_interned h] at hrun
    rw [run_bind_of_silent hrun, run_look_bind]
    cases t.types.isCyclic name.name <;> rfl
  | false =>
    rw [run_bind_of_abort (TypeExpr.run_resolve_of_unknown hknown)]
    rfl

/-- Only aliases are said to be cyclic. -/
theorem cyclicAlias_not_mem {d : TypeDecl} (hd : ∀ target, d.definition ≠ .alias target)
    (d' : TypeDecl) : d'.cyclicAlias ∉ (d.validate.run t).1.diagnostics := by
  have hresolve : ∀ (e : TypeExpr) u, e.resolve.Finds (fun _ x => x ≠ d'.cyclicAlias) u := by
    intro e u x hx
    refine ⟨u, .refl u, fun heq => ?_⟩
    have hkind := TypeExpr.kind_of_mem_diagnostics hx
    rw [heq] at hkind
    cases hkind
  have hduplicate : ∀ (u : SymbolTable) message span,
      Diagnostic.error .duplicateDeclaration message span ≠ d'.cyclicAlias :=
    fun _ _ _ => error_ne_cyclicAlias (by decide) d'
  have hfinds : d.validate.Finds (fun _ x => x ≠ d'.cyclicAlias) t := by
    rcases d with ⟨name, _ | _ | target | fields | members | ⟨underlying, backing⟩⟩
    · exact finds_pure _
    · exact finds_pure _
    · exact (hd target rfl).elim
    · exact finds_validateFields hduplicate hresolve _ _ fields
    · exact finds_noteRepeated hduplicate _ _ _
    · refine finds_liftM_bind (Check.finds_look _) fun isEnum _ => ?_
      refine finds_note_guard (fun heq => ?_) ?_
      · have hmessage : "type '" ++ name.name ++ ("' is based on '" ++ underlying.name ++
            "', which is not an enum") = "type alias '" ++ d'.name.name ++ "' is cyclic" := by
          rw [← String.append_assoc, ← String.append_assoc]
          exact congrArg Diagnostic.message heq
        exact absurd (quoted_begins hmessage (by decide)) (by decide)
      · exact finds_bind (hresolve backing t) (backing.resolve_growsTo t) fun _ u _ => finds_pure _
  intro hmem
  obtain ⟨u, -, hne⟩ := hfinds _ hmem
  exact hne rfl

/-- A second look says that an alias is cyclic when its target is known and its chain is a cycle. -/
theorem mem_diagnostics_validate {d : TypeDecl} (h : ∀ e ∈ d.mentioned, e.Interned t)
    (d' : TypeDecl) :
    d'.cyclicAlias ∈ (d.validate.run t).1.diagnostics ↔
      d'.cyclicAlias = d.cyclicAlias ∧ ∃ target, d.definition = .alias target ∧
        t.Knows target.innermost.name ∧ t.types.isCyclic d.name.name = true := by
  by_cases hd : ∃ target, d.definition = .alias target
  · obtain ⟨target, hd⟩ := hd
    have hmentioned : target ∈ d.mentioned := by
      rw [mentioned, hd]
      exact List.mem_singleton_self target
    have hcyclic : (∃ target, d.definition = .alias target ∧ t.Knows target.innermost.name ∧
        t.types.isCyclic d.name.name = true) ↔
        t.types.contains target.innermost.name = true ∧ t.types.isCyclic d.name.name = true := by
      simp [hd, SymbolTable.knows_iff_contains]
    rw [hcyclic, diagnostics_validate_alias hd (h target hmentioned)]
    split_ifs with hknown hcycle
    · rw [List.mem_singleton, and_iff_left ⟨hknown, hcycle⟩]
    · exact iff_of_false List.not_mem_nil fun hright => hcycle hright.2.2
    · refine iff_of_false (fun hmem => ?_) fun hright => hknown hright.2.1
      exact error_ne_cyclicAlias (by decide) d' (List.mem_singleton.mp hmem).symm
  · refine iff_of_false (cyclicAlias_not_mem (fun target htarget => hd ⟨target, htarget⟩) d') ?_
    rintro ⟨-, target, htarget, -⟩
    exact hd ⟨target, htarget⟩

end TypeDecl

end SyntaxTree

/-! ## Libraries -/

namespace Run

variable (library : SyntaxTree.Library)

theorem table_validate {d : TypeDecl} (hd : d ∈ acceptedTypes library) :
    (d.validate.run (withDeclaredTypes library).table).2 = (withDeclaredTypes library).table :=
  TypeDecl.table_validate ((withDeclaredTypes_hasDeclared library).interned d hd)

/-- Whatever is looked at before, an alias is looked at in the same table. -/
theorem table_performAll_validate {ds : List TypeDecl} (hds : ∀ d ∈ ds, d ∈ acceptedTypes library) :
    ((withDeclaredTypes library).performAll TypeDecl.validate ds).table =
      (withDeclaredTypes library).table :=
  table_performAll_of_stays fun d hd => table_validate library (hds d hd)

theorem withTypes_eq : withTypes library =
    (withDeclaredTypes library).performAll TypeDecl.validate (acceptedTypes library) := rfl

theorem table_withTypes : (withTypes library).table = (withDeclaredTypes library).table :=
  table_performAll_validate library fun _ hd => hd

/-- At first, types are refused for their names only. -/
theorem kind_of_mem_withDeclaredTypes {x : Diagnostic}
    (hx : x ∈ (withDeclaredTypes library).diagnostics) :
    x.kind = .malformedTree ∨ x.kind = .duplicateDeclaration := by
  obtain ⟨found, places, hfound, -, -, hkinds⟩ := (continues_types library).adds
  rw [hfound] at hx
  exact (hkinds x hx).imp_right fun ⟨_, _, hkind⟩ => hkind

/-- An accepted declaration is said to be cyclic when it is an alias with a known target, and the
search behind it finds a cycle. -/
theorem cyclicAlias_mem_withTypes {d : TypeDecl} (hd : d ∈ acceptedTypes library) :
    d.cyclicAlias ∈ (withTypes library).diagnostics ↔ ∃ target, d.definition = .alias target ∧
      (withDeclaredTypes library).table.Knows target.innermost.name ∧
      (withDeclaredTypes library).table.types.isCyclic d.name.name = true := by
  have hdeclared := withDeclaredTypes_hasDeclared library
  have hbefore : d.cyclicAlias ∉ (withDeclaredTypes library).diagnostics := by
    intro hmem
    rcases kind_of_mem_withDeclaredTypes library hmem with hkind | hkind <;> cases hkind
  have hkind : d.cyclicAlias.kind ≠ .malformedTree := DiagnosticKind.noConfusion
  rw [withTypes_eq, mem_diagnostics_performAll hkind fun d' hd' => table_validate library hd',
    or_iff_right hbefore]
  constructor
  · rintro ⟨d', hd', hmem⟩
    obtain ⟨heq, hcyclic⟩ := (TypeDecl.mem_diagnostics_validate (hdeclared.interned d' hd') d).mp hmem
    rw [hdeclared.eq_of_name hd hd' (TypeDecl.cyclicAlias_inj heq)]
    exact hcyclic
  · exact fun hcyclic => ⟨d, hd,
      (TypeDecl.mem_diagnostics_validate (hdeclared.interned d hd) d).mpr ⟨rfl, hcyclic⟩⟩

end Run

/-- The search behind aliases is exact, in every registry. In at most one turn more than there are
types, it finds the type that a chain of aliases leads to, or the first name on it that is not
registered, or the first that it meets twice. So it is exact for the aliases of every library: one that
is declared is said to be cyclic when its target is known and its chain enters a cycle. -/
theorem alias_cycles_exact :
    (∀ (r : TypeRegistry) (name : String) (type : DataType), r.Built → r.get? name = some type →
      (∃ turns ≤ r.size + 1, r.Search [] type turns (r.unaliased type)) ∧
        (∀ answer, r.unaliased type = answer ↔ r.ComesTo type answer) ∧
        ((∃ other, r.unaliased type = .error (.cycle other)) ↔ r.Circles type)) ∧
      ∀ (library : SyntaxTree.Library) (before after : List TypeDecl) (d : TypeDecl)
        (target : TypeExpr), Run.acceptedTypes library = before ++ d :: after →
          d.definition = .alias target →
            let t := ((Run.withDeclaredTypes library).performAll TypeDecl.validate before).table
            d.cyclicAlias ∈ (Run.withTypes library).diagnostics ↔
              (∃ name u, target.resolve.Yields t name u) ∧ t.types.EntersCycle d.toDataType := by
  refine ⟨fun r name type hbuilt h => ⟨?_, fun answer => ?_, ?_⟩, ?_⟩
  · exact TypeRegistry.search_unaliased hbuilt.named h
  · exact TypeRegistry.unaliased_eq_iff hbuilt.named h
  · exact TypeRegistry.unaliased_eq_cycle_iff hbuilt.named h
  · intro library before after d target haccepted hd
    have hmem : ∀ d' ∈ before ++ d :: after, d' ∈ Run.acceptedTypes library := by
      rw [haccepted]
      exact fun _ hd' => hd'
    have hbefore := Run.table_performAll_validate library fun d' hd' =>
      hmem d' (List.mem_append_left _ hd')
    have hthis : d ∈ Run.acceptedTypes library := hmem d (List.mem_append_right _ List.mem_cons_self)
    have htype := (Run.withDeclaredTypes_hasDeclared library).type? d hthis
    have hnamed : (Run.withDeclaredTypes library).table.types.Named := by
      rw [← Run.table_withTypes]
      exact (Run.withTypes_wellFormed library).type_name
    rw [hbefore, Run.cyclicAlias_mem_withTypes library hthis, TypeRegistry.isCyclic_iff hnamed htype]
    intro t
    rw [TypeExpr.exists_yields_resolve]
    constructor
    · rintro ⟨target', htarget', hcyclic⟩
      rw [hd] at htarget'
      cases htarget'
      exact hcyclic
    · exact fun hcyclic => ⟨target, hd, hcyclic⟩

namespace AliasRing

/-- `Entry` leads to `Left`, and `Left` and `Right` lead to each other. -/
def entry : TypeDecl := ⟨.onLine "Entry" 2, .alias (.onLine "Left" 2)⟩

def ring : List TypeDecl :=
  [⟨.onLine "Left" 3, .alias (.onLine "Right" 3)⟩, ⟨.onLine "Right" 4, .alias (.onLine "Left" 4)⟩]

def library : SyntaxTree.Library := .ofDeclarations "Ring" ((entry :: ring).map .typeDecl)

def registry : TypeRegistry :=
  ((entry :: ring).map TypeDecl.toDataType).foldl (fun r type => (r.insert? type).getD r) .empty

theorem registry_built : registry.Built :=
  List.foldlRecOn _ _ TypeRegistry.Built.empty fun _ hr type _ => hr.insert type

end AliasRing

/-- An alias that leads to a cycle is cyclic, although it is not on the cycle itself. -/
theorem alias_cycles_exact_ring :
    AliasRing.registry.Built ∧
      AliasRing.registry.get? "Entry" = some AliasRing.entry.toDataType ∧
      (∃ turns ≤ 4, AliasRing.registry.Search [] AliasRing.entry.toDataType turns
        (.error (.cycle "Left"))) ∧
      AliasRing.registry.ComesTo AliasRing.entry.toDataType (.error (.cycle "Left")) ∧
      AliasRing.registry.Circles AliasRing.entry.toDataType ∧
      Run.acceptedTypes AliasRing.library = [] ++ AliasRing.entry :: AliasRing.ring ∧
      AliasRing.entry.cyclicAlias ∈ (Run.withTypes AliasRing.library).diagnostics ∧
      (Run.withDeclaredTypes AliasRing.library).table.types.EntersCycle
        AliasRing.entry.toDataType := by
  obtain ⟨hregistries, hlibraries⟩ := alias_cycles_exact
  have hanswer : AliasRing.registry.unaliased AliasRing.entry.toDataType =
      .error (.cycle "Left") := by decide +kernel
  have haccepted : Run.acceptedTypes AliasRing.library = [] ++ AliasRing.entry :: AliasRing.ring :=
    rfl
  have hreported : AliasRing.entry.cyclicAlias ∈ (Run.withTypes AliasRing.library).diagnostics := by
    decide +kernel
  obtain ⟨hsearch, hcomes, hcircles⟩ := hregistries AliasRing.registry "Entry" _
    AliasRing.registry_built rfl
  rw [hanswer] at hsearch
  exact ⟨AliasRing.registry_built, rfl, hsearch, (hcomes _).mp hanswer,
    hcircles.mp ⟨"Left", hanswer⟩, haccepted, hreported,
    ((hlibraries AliasRing.library [] _ _ _ haccepted rfl).mp hreported).2⟩

end LibraryContract
