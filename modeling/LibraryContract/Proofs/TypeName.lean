import LibraryContract.Proofs.TypesInTurn

/-!
# The name of a type

A type is written as a name in brackets, one pair for each level of an array, and registered under
its spelling. Three ways lead to that name: the spelling itself (`TypeExpr.canonicalName`), a
reference to a type that need not be known yet (`TypeExpr.reference`), and looking the type up
(`TypeExpr.resolve`). The last two make the arrays known, from the inside out.

* `TypeDecl.declare_eq`: declarations are registered by references;
* `TypeExpr.Resolves`: what looking up a type expression comes to, whether its innermost name is known
  or not;
* `TypeExpr.resolves_of_reachable`: this holds in every table.
-/

namespace LibraryContract

open SyntaxTree Build

variable {t u : SymbolTable}

/-! ## References -/

namespace SyntaxTree

/-- The name of a type that need not be known yet. Its arrays become known. -/
def TypeExpr.reference : TypeExpr → Build String
  | .named name => return name.name
  | .array element => do
    let element ← element.reference
    Build.modify fun t => t.internArray element
    return DataType.arrayName element

/-- The type that a declaration declares, put together from references. -/
def TypeDecl.reference (d : TypeDecl) : Build DataType :=
  let name := d.name.name
  match d.definition with
  | .simple => return .simple name
  | .real => return .real name
  | .alias target => do return .alias name (← target.reference)
  | .structured fields => do
    let fields ← fields.mapM fun f => do
      let type ← f.type.reference
      return (f.name.name, type)
    return .structured name (.ofList fields)
  | .enum members => return .enum name (.ofList (members.map fun m => (m.name.name, m.value)))
  | .enumLike underlying backing => do
    return .enumLike name underlying.name (← backing.reference)

end SyntaxTree

namespace Build

variable {α β : Type}

theorem run_mapM_of_silent {f : α → Build β} {g : α → β} {after : SymbolTable → α → SymbolTable}
    (h : ∀ a t, (f a).run t = (⟨.ok (g a), []⟩, after t a)) (items : List α) (t : SymbolTable) :
    (items.mapM f).run t = (⟨.ok (items.map g), []⟩, items.foldl after t) := by
  induction items generalizing t with
  | nil => rfl
  | cons a rest ih =>
    rw [List.mapM_cons, run_bind_of_silent (h a t), run_bind_of_silent (ih (after t a))]
    rfl

end Build

namespace SyntaxTree

theorem TypeExpr.run_reference (e : TypeExpr) (t : SymbolTable) :
    e.reference.run t = (⟨.ok e.canonicalName, []⟩, e.intern t) := by
  induction e generalizing t with
  | named name => rfl
  | array element ih =>
    rw [TypeExpr.reference, run_bind_of_silent (ih t)]
    rfl

theorem TypeDecl.run_reference (d : TypeDecl) (t : SymbolTable) :
    d.reference.run t = (⟨.ok d.toDataType, []⟩, d.mentioned.foldl (fun t e => e.intern t) t) := by
  obtain ⟨name, definition⟩ := d
  cases definition with
  | simple | real | enum => rfl
  | «alias» target => exact run_bind_of_silent (target.run_reference t)
  | structured fields =>
    have hfield : ∀ (f : FieldDecl) t,
        (f.type.reference >>= fun type => (return (f.name.name, type) : Build _)).run t =
          (⟨.ok (f.name.name, f.type.canonicalName), []⟩, f.type.intern t) :=
      fun f t => run_bind_of_silent (f.type.run_reference t)
    refine (run_bind_of_silent (run_mapM_of_silent hfield fields t)).trans ?_
    rw [mentioned, List.foldl_map]
    rfl
  | enumLike underlying backing => exact run_bind_of_silent (backing.run_reference t)

/-- A declaration is registered as the type that is put together from references. -/
theorem TypeDecl.declare_eq (d : TypeDecl) :
    d.declare = d.reference >>= fun type =>
      Build.registerUnit (fun t => t.registerType type) d.name.span := by
  refine Build.ext fun t => ?_
  rw [run_bind_of_silent (d.run_reference t)]
  rfl

/-! ## Levels -/

namespace TypeExpr

/-- The array types in an expression, from the outside in. -/
def levels : TypeExpr → List TypeExpr
  | .named _ => []
  | .array inner => .array inner :: inner.levels

theorem map_arrayName_elements (e : TypeExpr) :
    e.elements.map DataType.arrayName = e.levels.map canonicalName := by
  induction e with
  | named name => rfl
  | array inner ih =>
    rw [elements, levels, List.map_cons, List.map_cons, ih]
    rfl

/-- What is known when the arrays of an expression are. -/
theorem knows_intern_iff_levels {e : TypeExpr} {name : String} :
    (e.intern t).Knows name ↔ t.Knows name ∨ ∃ level ∈ e.levels, level.canonicalName = name := by
  rw [knows_intern, ← List.mem_map, ← map_arrayName_elements, List.mem_map]
  simp only [eq_comm]

/-- What looking up a type expression comes to. It succeeds when the innermost name is known, with
the spelling as the name of the type. The arrays are known then, and nothing else is known that was
not known before. To look again changes nothing. -/
structure Resolves (e : TypeExpr) (t : SymbolTable) : Prop where
  succeeds_iff : (∃ name u, e.resolve.Yields t name u) ↔ t.Knows e.innermost.name
  named : ∀ name u, e.resolve.Yields t name u → name = e.canonicalName
  silent : ∀ name u, e.resolve.Yields t name u → (e.resolve.run t).1.diagnostics = []
  reference : ∀ name u, e.resolve.Yields t name u → e.reference.run t = (⟨.ok name, []⟩, u)
  known : ∀ name u, e.resolve.Yields t name u → ∀ other,
    u.Knows other ↔ t.Knows other ∨ ∃ level ∈ e.levels, level.canonicalName = other
  arrays : ∀ name u, e.resolve.Yields t name u → ∀ inner, .array inner ∈ e.levels →
    (∀ type, t.type? (TypeExpr.array inner).canonicalName = some type → type.isArray = true) →
      u.type? (TypeExpr.array inner).canonicalName = some (.array inner.canonicalName)
  again : ∀ name u, e.resolve.Yields t name u → e.resolve.run u = (⟨.ok name, []⟩, u)
  fails : ¬t.Knows e.innermost.name → e.resolve.run t = (⟨.error .reported,
    [.error .unresolvedType s!"unresolved type '{e.innermost.name}'" e.span]⟩, t)

/-- An array that is known under its own name, and not as something else, has the elements that it
is written with. -/
theorem type?_intern_level (hw : t.WellFormed) {e inner : TypeExpr} (hlevel : .array inner ∈ e.levels)
    (hdeclared : ∀ type, t.type? (TypeExpr.array inner).canonicalName = some type →
      type.isArray = true) :
    (e.intern t).type? (TypeExpr.array inner).canonicalName = some (.array inner.canonicalName) := by
  obtain ⟨type, htype⟩ := knows_intern_iff_levels.mpr (.inr ⟨_, hlevel, rfl⟩)
  have harray : type.isArray = true := by
    rcases SymbolTable.type?_intern htype with htype | ⟨element, -, rfl⟩
    · exact hdeclared type htype
    · rfl
  have hname : type.name = (TypeExpr.array inner).canonicalName :=
    (keeps_of_reflTransGen (e.intern_declares t) (fun _ _ => Declares.wellFormed) hw).type_name
      _ _ htype
  cases type <;> cases harray
  rw [htype, (String.append_left_inj "[]").mp hname]

theorem yields_resolve {e : TypeExpr} {name : String} : e.resolve.Yields t name u ↔
    t.Knows e.innermost.name ∧ name = e.canonicalName ∧ u = e.intern t := by
  rw [(e.inTurn_resolve t).yields, KnownInTurn, KnownInTurn, and_true, eq_comm (b := name),
    eq_comm (b := u)]
  rfl

theorem exists_yields_resolve {e : TypeExpr} :
    (∃ name u, e.resolve.Yields t name u) ↔ t.Knows e.innermost.name := by
  simp only [yields_resolve, exists_and_left, exists_eq, and_true]

/-- Every type expression is looked up by its spelling. -/
theorem resolves_of_reachable (h : t.Reachable) (e : TypeExpr) : e.Resolves t := by
  refine ⟨exists_yields_resolve, ?_, ?_, ?_, ?_, ?_, ?_, fun hunknown => ?_⟩
  · exact fun name u hname => (yields_resolve.mp hname).2.1
  · exact (e.inTurn_resolve t).silent
  · intro name u hname
    obtain ⟨-, rfl, rfl⟩ := yields_resolve.mp hname
    exact e.run_reference t
  · intro name u hname other
    obtain ⟨-, rfl, rfl⟩ := yields_resolve.mp hname
    exact knows_intern_iff_levels
  · intro name u hname inner hlevel hdeclared
    obtain ⟨-, rfl, rfl⟩ := yields_resolve.mp hname
    exact type?_intern_level h.wellFormed hlevel hdeclared
  · intro name u hname
    obtain ⟨hknown, rfl, rfl⟩ := yields_resolve.mp hname
    have hagain := SymbolTable.knows_iff_contains.mp ((e.intern_growsTo t).knows hknown)
    rw [run_resolve_of_known hagain, intern_of_interned (e.interned_intern t)]
  · refine run_resolve_of_unknown (Bool.eq_false_iff.mpr fun hcontains => hunknown ?_)
    exact SymbolTable.knows_iff_contains.mpr hcontains

/-- Rows of rows of numbers, written down where only numbers have been declared. -/
theorem resolves_of_reachable_rows :
    let e : TypeExpr := .array (.array (.named ⟨"Int", .onLine 2⟩))
    ∃ t u : SymbolTable, t.Reachable ∧ e.Resolves t ∧ e.resolve.Yields t "Int[][]" u ∧
      u.type? "Int[][]" = some (.array "Int[]") ∧ u.type? "Int[]" = some (.array "Int") := by
  intro e
  obtain ⟨t, ht⟩ : ∃ t, SymbolTable.empty.registerType (.simple "Int") = .ok t := ⟨_, rfl⟩
  have hreachable : t.Reachable := .single (.admits (.type ht))
  have htype : ∀ name, t.type? name = if name = "Int" then some (.simple "Int") else none := by
    intro name
    obtain ⟨-, rfl⟩ := SymbolTable.registerType_eq_ok.mp ht
    exact OrderedMap.get?_insert _ _ _ _
  have hresolves : e.Resolves t := resolves_of_reachable hreachable e
  obtain ⟨name, u, hname⟩ := hresolves.succeeds_iff.mpr ⟨_, (htype "Int").trans (if_pos rfl)⟩
  obtain rfl := hresolves.named name u hname
  have harrays := hresolves.arrays _ u hname
  have hnew : ∀ name, name ≠ "Int" → ∀ type, t.type? name = some type → type.isArray = true := by
    intro name hne type hname
    rw [htype, if_neg hne] at hname
    cases hname
  refine ⟨t, u, hreachable, hresolves, hname, ?_, ?_⟩
  · exact harrays _ List.mem_cons_self (hnew _ (by decide))
  · exact harrays _ (List.mem_cons_of_mem _ List.mem_cons_self) (hnew _ (by decide))

end TypeExpr

end SyntaxTree

end LibraryContract
