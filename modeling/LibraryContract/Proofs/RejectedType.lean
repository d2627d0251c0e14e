import LibraryContract.Proofs.ForwardReference
import LibraryContract.Proofs.Parallel
import LibraryContract.Proofs.SameDeclarations

/-!
# Rejected type declarations

A type is put together before it is known whether its name is free, and the arrays that it mentions
are registered on the way. So a declaration that is rejected, because an earlier one has its name,
is not as if it had not been there: the arrays that it was the first to mention stay.

* `TypeDecl.newArrays`: the arrays that a declaration is the first to mention;
* `Run.knows_declared_iff`: the names that the first look at declarations makes known;
* `matches_of_rejected`: a rejected declaration changes nothing but these arrays;
* `Run.without_rejected`, `Run.type?_rejected`, `Run.type?_withoutRejected`: the types that all
  declarations leave, with the rejected one and without it;
* `Run.beside_rejected`: what both looks at them find;
* `rejected_type_leaves_new_arrays`: the registry and the diagnostics of a library;
* `rejected_type_leaves_traces`: declarations that mention an array by its name, or take its name,
  see what is left.
-/

namespace LibraryContract

open SyntaxTree Build

namespace SyntaxTree

/-- The declarations of types among others. -/
def typesAmong (ds : List Declaration) : List TypeDecl :=
  ds.filterMap fun | .typeDecl d => some d | _ => none

namespace TypeDecl

/-- The names of the arrays that a declaration mentions. -/
def arrayNames (d : TypeDecl) : List String :=
  d.mentioned.flatMap fun e => e.levels.map TypeExpr.canonicalName

/-- The names that are known when a declaration has been looked at: its own and those of arrays. -/
def introduced (d : TypeDecl) : List String := d.name.name :: d.arrayNames

/-- The arrays that a declaration mentions, and whose names no earlier one has made known. -/
def newArrays (d : TypeDecl) (earlier : List TypeDecl) : List String :=
  d.arrayNames.filter fun name => decide (name ∉ earlier.flatMap introduced)

/-- The error for a declaration whose name is taken. -/
def repeated (d : TypeDecl) : Diagnostic :=
  .error .duplicateDeclaration (RegistrationError.duplicate .type d.name.name).message d.name.span

end TypeDecl

end SyntaxTree

variable {t u : SymbolTable} {name : String} {names : List String}

/-! ## One declaration -/

namespace SyntaxTree

theorem TypeExpr.knows_internAll {es : List TypeExpr} :
    (internAll es t).Knows name ↔
      t.Knows name ∨ name ∈ es.flatMap fun e => e.levels.map canonicalName := by
  induction es generalizing t with
  | nil => simp [internAll]
  | cons e rest ih =>
    rw [show internAll (e :: rest) t = internAll rest (e.intern t) from rfl, ih,
      knows_intern_iff_levels, List.flatMap_cons, List.mem_append, List.mem_map, or_assoc]

/-- Arrays that are known, or have one of the names, add nothing else. -/
theorem TypeExpr.without_intern {e : TypeExpr}
    (h : ∀ level ∈ e.levels, level.canonicalName ∈ names ∨ t.Knows level.canonicalName) :
    (e.intern t).types.without names = t.types.without names := by
  induction e with
  | named identifier => rfl
  | array inner ih =>
    obtain ⟨hlevel, hinner⟩ := List.forall_mem_cons.mp h
    rw [intern, SymbolTable.internArray_eq]
    refine (TypeRegistry.without_insert _ _ _).trans ?_
    rw [if_pos ?_]
    · exact ih hinner
    · rcases hlevel with hlevel | hlevel
      · exact .inr hlevel
      · exact .inl (SymbolTable.knows_iff_contains.mp ((inner.intern_growsTo t).knows hlevel))

theorem TypeExpr.without_internAll {es : List TypeExpr}
    (h : ∀ e ∈ es, ∀ level ∈ e.levels, level.canonicalName ∈ names ∨ t.Knows level.canonicalName) :
    (internAll es t).types.without names = t.types.without names := by
  induction es generalizing t with
  | nil => rfl
  | cons e rest ih =>
    obtain ⟨he, hrest⟩ := List.forall_mem_cons.mp h
    refine (ih fun e' he' level hlevel => ?_).trans (TypeExpr.without_intern he)
    exact (hrest e' he' level hlevel).imp_right (e.intern_growsTo t).knows

theorem TypeExpr.without_internAll_congr {es : List TypeExpr}
    (h : t.types.without names = u.types.without names) :
    (internAll es t).types.without names = (internAll es u).types.without names := by
  have hintern : ∀ (e : TypeExpr) {t u : SymbolTable},
      t.types.without names = u.types.without names →
        (e.intern t).types.without names = (e.intern u).types.without names := by
    intro e
    induction e with
    | named identifier => exact id
    | array inner ih => exact fun h => SymbolTable.without_withType (ih h) _
  induction es generalizing t u with
  | nil => exact h
  | cons e rest ih => exact ih (hintern e h)

namespace TypeDecl

/-- The first look at a declaration: its arrays become known in any case. -/
theorem run_declare (d : TypeDecl) (t : SymbolTable) :
    d.declare.run t =
      (if (TypeExpr.internAll d.mentioned t).types.contains d.name.name then
        ⟨.error .reported, [d.repeated]⟩
      else ⟨.ok (), []⟩, (TypeExpr.internAll d.mentioned t).withType d.toDataType) := by
  have hmodify : (modify fun t => d.mentioned.foldl (fun t e => e.intern t) t).run t =
      (⟨.ok (), []⟩, TypeExpr.internAll d.mentioned t) := rfl
  rw [declare, run_bind_of_silent hmodify, run_registerType, d.name_toDataType]
  rfl

theorem knows_declare {d : TypeDecl} :
    (d.declare.run t).2.Knows name ↔ t.Knows name ∨ name ∈ d.introduced := by
  rw [run_declare, SymbolTable.knows_withType, TypeExpr.knows_internAll, d.name_toDataType,
    introduced, List.mem_cons, or_assoc, or_comm (b := name = d.name.name)]
  rfl

end TypeDecl

end SyntaxTree

/-! ## The first look -/

namespace Run

/-- The first look at a declaration, which is kept when it is accepted. -/
def declaring (d : TypeDecl) : Build TypeDecl := do
  d.declare
  return d

/-- Both looks at declarations: the second is at those that are kept. -/
theorem registerTypes_eq (ds : List TypeDecl) (r : Run) : r.registerTypes ds =
    (r.collect declaring ds).2.performAll TypeDecl.validate (r.collect declaring ds).1 := rfl

theorem table_settle_declaring (d : TypeDecl) (r : Run) :
    (r.settle (declaring d)).2.table = (d.declare.run r.table).2 := by
  rw [table_settle]
  exact run_bind_pure_snd d.declare (fun _ => d) r.table

/-- Accepted or not, a declaration makes its name and its arrays known. -/
theorem knows_declared_iff {ds : List TypeDecl} {r : Run} :
    (r.collect declaring ds).2.table.Knows name ↔
      r.table.Knows name ∨ name ∈ ds.flatMap TypeDecl.introduced := by
  induction ds generalizing r with
  | nil => simp [collect]
  | cons d rest ih =>
    rw [collect_cons, ih, table_settle_declaring, TypeDecl.knows_declare, List.flatMap_cons,
      List.mem_append, or_assoc]

theorem mem_of_declared {ds : List TypeDecl} {r : Run} {d : TypeDecl}
    (h : d ∈ (r.collect declaring ds).1) : d ∈ ds := by
  induction ds generalizing r with
  | nil => cases h
  | cons first rest ih =>
    rw [collect_cons, List.mem_append, Option.mem_toList] at h
    rcases h with h | h
    · obtain ⟨_, v, -, hreturn⟩ := yields_bind.mp (settle_eq_some.mp h)
      rw [← (yields_pure.mp hreturn).1]
      exact List.mem_cons_self
    · exact List.mem_cons_of_mem _ (ih h)

theorem reaches_declared (ds : List TypeDecl) (r : Run) :
    Relation.ReflTransGen Declares r.table (r.collect declaring ds).2.table :=
  within_collect (fun d _ t => declares_return (d.declare_within t)) r

theorem growsTo_declared (ds : List TypeDecl) (r : Run) :
    r.table.GrowsTo (r.collect declaring ds).2.table :=
  .of_reflTransGen (reaches_declared ds r) fun _ _ => Declares.growsTo

theorem wellFormed_declared (ds : List TypeDecl) :
    (start.collect declaring ds).2.table.WellFormed :=
  keeps_of_reflTransGen (reaches_declared ds start) (fun _ _ => Declares.wellFormed) .empty

/-- Declarations make no difference between tables that have the same types of other names. -/
theorem without_declared {ds : List TypeDecl} {r r' : Run}
    (h : r.table.types.without names = r'.table.types.without names) :
    (r.collect declaring ds).2.table.types.without names =
      (r'.collect declaring ds).2.table.types.without names := by
  induction ds generalizing r r' with
  | nil => exact h
  | cons d rest ih =>
    rw [collect_cons, collect_cons]
    refine ih ?_
    rw [table_settle_declaring, table_settle_declaring, TypeDecl.run_declare, TypeDecl.run_declare]
    exact SymbolTable.without_withType (TypeExpr.without_internAll_congr h) _

/-- What is new under a name that no declaration has is an array. -/
theorem type?_declared {ds : List TypeDecl} {r : Run} {type : DataType}
    (hname : ∀ d ∈ ds, d.name.name ≠ name)
    (h : (r.collect declaring ds).2.table.type? name = some type) :
    r.table.type? name = some type ∨ type.isArray = true := by
  induction ds generalizing r with
  | nil => exact .inl h
  | cons d rest ih =>
    obtain ⟨hd, hrest⟩ := List.forall_mem_cons.mp hname
    rw [collect_cons] at h
    refine (ih hrest h).elim (fun h => ?_) .inr
    rw [table_settle_declaring, TypeDecl.run_declare, SymbolTable.type?_withType,
      d.name_toDataType, if_neg fun hsame => hd hsame.2.symm] at h
    obtain ⟨-, -, -, htypes, -⟩ := r.table.interns_all d.mentioned
    exact (htypes name type h).imp_right fun ⟨_, _, _, _, harray⟩ => harray ▸ rfl

/-- The first look at a declaration whose name is taken. -/
theorem settle_declaring_of_taken {d : TypeDecl} {r : Run} (h : r.table.Knows d.name.name) :
    r.settle (declaring d) = (none,
      { r with
        table := TypeExpr.internAll d.mentioned r.table
        diagnostics := r.diagnostics ++ [d.repeated] }) := by
  have htaken : (TypeExpr.internAll d.mentioned r.table).types.contains d.name.name = true :=
    SymbolTable.knows_iff_contains.mp (TypeExpr.knows_internAll.mpr (.inl h))
  have hrun : d.declare.run r.table =
      (⟨.error .reported, [d.repeated]⟩, TypeExpr.internAll d.mentioned r.table) := by
    rw [d.run_declare, if_pos htaken, SymbolTable.withType, TypeRegistry.insert?,
      d.name_toDataType, if_pos htaken]
    rfl
  rw [settle, declaring, run_bind_of_abort hrun]

end Run

/-- A rejected declaration leaves a table that differs from the one before in new arrays only. -/
theorem matches_of_rejected {d : TypeDecl} (hw : t.WellFormed)
    (hnew : ∀ name ∈ d.arrayNames, name ∈ names ↔ ¬t.Knows name)
    (hnames : ∀ name ∈ names, name ∈ d.arrayNames) :
    SymbolTable.Matches names (TypeExpr.internAll d.mentioned t) t := by
  obtain ⟨-, -, -, htypes, hrest⟩ := t.interns_all d.mentioned
  refine ⟨hrest, ?_, ?_, ?_, ?_⟩
  · refine TypeExpr.without_internAll fun e he level hlevel => ?_
    have hmem : level.canonicalName ∈ d.arrayNames :=
      List.mem_flatMap.mpr ⟨e, he, List.mem_map_of_mem hlevel⟩
    by_cases hknown : t.Knows level.canonicalName
    · exact .inr hknown
    · exact .inl ((hnew _ hmem).mpr hknown)
  · exact fun name hname => TypeExpr.knows_internAll.mpr (.inr (hnames name hname))
  · intro name hname type htype
    have hunknown := (hnew name (hnames name hname)).mp hname
    rcases htype with htype | htype
    · rcases htypes name type htype with htype | ⟨e, -, element, -, rfl⟩
      · exact (hunknown ⟨type, htype⟩).elim
      · rfl
    · exact (hunknown ⟨type, htype⟩).elim
  · exact ⟨(TypeDecl.wellFormed_interns_all hw d.mentioned).type_name, hw.type_name⟩

/-! ## Libraries -/

namespace SyntaxTree

theorem typesAmong_append (ds es : List Declaration) :
    typesAmong (ds ++ es) = typesAmong ds ++ typesAmong es := List.filterMap_append

theorem typesAmong_cons (d : TypeDecl) (ds : List Declaration) :
    typesAmong (.typeDecl d :: ds) = d :: typesAmong ds := rfl

theorem TypeDecl.mem_newArrays {d : TypeDecl} {earlier : List TypeDecl} :
    name ∈ d.newArrays earlier ↔ name ∈ d.arrayNames ∧ name ∉ earlier.flatMap introduced := by
  rw [newArrays, List.mem_filter, decide_eq_true_iff]

end SyntaxTree

namespace Run

theorem knows_declared_start_iff {ds : List TypeDecl} :
    (start.collect declaring ds).2.table.Knows name ↔ name ∈ ds.flatMap TypeDecl.introduced := by
  rw [knows_declared_iff, or_iff_right]
  rintro ⟨type, htype⟩
  cases htype

section Split

variable {before after : List TypeDecl} {d e : TypeDecl}

theorem settle_rejected (he : e ∈ before) (hname : e.name.name = d.name.name) :
    (start.collect declaring before).2.settle (declaring d) = (none,
      { (start.collect declaring before).2 with
        table := TypeExpr.internAll d.mentioned (start.collect declaring before).2.table
        diagnostics := (start.collect declaring before).2.diagnostics ++ [d.repeated] }) :=
  settle_declaring_of_taken (knows_declared_start_iff.mpr
    (List.mem_flatMap.mpr ⟨e, he, hname ▸ List.mem_cons_self⟩))

theorem matches_rejected :
    SymbolTable.Matches (d.newArrays before)
      (TypeExpr.internAll d.mentioned (start.collect declaring before).2.table)
      (start.collect declaring before).2.table := by
  refine matches_of_rejected (wellFormed_declared before) (fun name hmem => ?_) fun name hmem => ?_
  · rw [TypeDecl.mem_newArrays, knows_declared_start_iff, and_iff_right hmem]
  · exact (TypeDecl.mem_newArrays.mp hmem).1

/-- The first look at all declarations goes on after the rejected one with the arrays. -/
theorem collect_rejected (he : e ∈ before) (hname : e.name.name = d.name.name) :
    start.collect declaring (before ++ d :: after) =
      ((start.collect declaring before).1 ++
          (((start.collect declaring before).2.settle (declaring d)).2.collect declaring after).1,
        (((start.collect declaring before).2.settle (declaring d)).2.collect
          declaring after).2) := by
  rw [collect_append, collect_cons, settle_rejected he hname]
  rfl

/-- Both looks at all declarations, beside those at the others. -/
theorem beside_rejected (he : e ∈ before) (hname : e.name.name = d.name.name)
    (hdeclared : ∀ f ∈ after, f.name.name ∉ d.newArrays before)
    (hmentioned : ∀ f ∈ before ++ after, ∀ m ∈ f.mentioned,
      m.innermost.name ∉ d.newArrays before) :
    ∃ first, Beside (SymbolTable.Matches (d.newArrays before)) first [d.repeated]
      (start.registerTypes (before ++ d :: after)) (start.registerTypes (before ++ after)) := by
  set r := (start.collect declaring before).2 with hr
  have hfront : ∀ f ∈ before, f.name.name ∉ d.newArrays before := fun f hf hmem =>
    (TypeDecl.mem_newArrays.mp hmem).2 (List.mem_flatMap.mpr ⟨f, hf, List.mem_cons_self⟩)
  have hbeside : Beside (SymbolTable.Matches (d.newArrays before)) r.diagnostics [d.repeated]
      (r.settle (declaring d)).2 r := by
    rw [settle_rejected he hname]
    exact ⟨matches_rejected, [], (List.append_nil _).symm, (List.append_nil _).symm⟩
  have hdeclares : ∀ f ∈ after, ∀ t t', SymbolTable.Matches (d.newArrays before) t t' →
      (declaring f).Parallel (SymbolTable.Matches (d.newArrays before)) t t' :=
    fun f hf t t' h => parallel_bind (TypeDecl.parallel_declare (hdeclared f hf) h)
      fun _ u u' hu => parallel_pure _ hu
  obtain ⟨haccepted, hlast⟩ := hbeside.collect hdeclares
  refine ⟨r.diagnostics, ?_⟩
  -- the same declarations are accepted, so the same ones are looked at again
  rw [registerTypes_eq, registerTypes_eq, collect_rejected he hname, collect_append, ← hr,
    haccepted]
  refine hlast.performAll fun f hf t t' h => ?_
  rcases List.mem_append.mp hf with hf | hf
  · have hf := mem_of_declared hf
    exact TypeDecl.parallel_validate (hfront f hf) (hmentioned f (List.mem_append_left _ hf)) h
  · have hf := mem_of_declared hf
    exact TypeDecl.parallel_validate (hdeclared f hf) (hmentioned f (List.mem_append_right _ hf)) h

/-- With the rejected declaration or without it, the types of other names are the same. -/
theorem without_rejected (he : e ∈ before) (hname : e.name.name = d.name.name) :
    (start.collect declaring (before ++ d :: after)).2.table.types.without (d.newArrays before) =
      (start.collect declaring (before ++ after)).2.table.types.without (d.newArrays before) := by
  rw [collect_rejected he hname, collect_append, settle_rejected he hname]
  exact without_declared matches_rejected.types

/-- The arrays that the rejected declaration is the first to mention stay. -/
theorem type?_rejected (after : List TypeDecl) (he : e ∈ before) (hname : e.name.name = d.name.name)
    (hnew : name ∈ d.newArrays before) :
    ∃ element, name = DataType.arrayName element ∧
      (start.collect declaring (before ++ d :: after)).2.table.type? name =
        some (.array element) := by
  obtain ⟨type, htype⟩ := (matches_rejected (d := d)).known name hnew
  obtain ⟨element, rfl, rfl⟩ := matches_rejected.array_of_mem hnew (.inl htype)
  refine ⟨element, rfl, ?_⟩
  rw [collect_rejected he hname, settle_rejected he hname]
  exact (growsTo_declared after _).type? htype

/-- Without the declaration, such an array is there when a later declaration mentions it, unless one
takes its name. -/
theorem type?_withoutRejected {element : String}
    (hnew : DataType.arrayName element ∈ d.newArrays before)
    (hfree : ∀ f ∈ after, f.name.name ≠ DataType.arrayName element) :
    (start.collect declaring (before ++ after)).2.table.type? (DataType.arrayName element) =
      if DataType.arrayName element ∈ after.flatMap TypeDecl.arrayNames then some (.array element)
      else none := by
  have hearlier := (TypeDecl.mem_newArrays.mp hnew).2
  have hknows : (start.collect declaring (before ++ after)).2.table.Knows
      (DataType.arrayName element) ↔
        DataType.arrayName element ∈ after.flatMap TypeDecl.arrayNames := by
    rw [knows_declared_start_iff, List.flatMap_append, List.mem_append, or_iff_right hearlier]
    simp only [List.mem_flatMap]
    refine exists_congr fun f => and_congr_right fun hf => ?_
    rw [TypeDecl.introduced, List.mem_cons, or_iff_right (hfree f hf).symm]
  split
  · rename_i hmem
    obtain ⟨type, htype⟩ := hknows.mpr hmem
    have hnames : ∀ f ∈ before ++ after, f.name.name ≠ DataType.arrayName element := by
      refine List.forall_mem_append.mpr ⟨fun f hf heq => hearlier ?_, hfree⟩
      exact List.mem_flatMap.mpr ⟨f, hf, heq ▸ List.mem_cons_self⟩
    have harray : type.isArray = true :=
      (type?_declared hnames htype).resolve_left fun hstart => by cases hstart
    have hown := (wellFormed_declared (before ++ after)).type_name _ _ htype
    cases type <;> cases harray
    obtain rfl := (String.append_left_inj "[]").mp hown
    exact htype
  · rename_i hmem
    exact Option.eq_none_iff_forall_ne_some.mpr fun type htype => hmem (hknows.mp ⟨type, htype⟩)

end Split

end Run

/-- A declaration of a type whose name an earlier one has. Apart from the types under the names of
the arrays that it is the first to mention, the types are the same in the same order with it and
without it. With it, these arrays are registered; without it, those of them are that a later
declaration mentions, unless one takes the name. And with it there is one error more, as long as no
later declaration takes the name of such an array, and none mentions it by that name instead of as
an array. -/
theorem rejected_type_leaves_new_arrays {library : SyntaxTree.Library}
    {front back : List Declaration} {d e : TypeDecl}
    (hlibrary : library.declarations = front ++ .typeDecl d :: back) (he : e ∈ typesAmong front)
    (hname : e.name.name = d.name.name) :
    let new := d.newArrays (typesAmong front)
    let types := (Run.withTypes library).table.types
    let types' := (Run.withTypes { library with declarations := front ++ back }).table.types
    types.without new = types'.without new ∧
      (∀ name ∈ new, ∃ element, name = DataType.arrayName element ∧
        types.get? name = some (.array element) ∧
        ((∀ f ∈ typesAmong back, f.name.name ≠ name) →
          types'.get? name = if name ∈ (typesAmong back).flatMap TypeDecl.arrayNames
            then some (.array element) else none)) ∧
      (new = [] → types = types') ∧
      ((∀ f ∈ typesAmong back, f.name.name ∉ new) →
        (∀ f ∈ typesAmong (front ++ back), ∀ m ∈ f.mentioned, m.innermost.name ∉ new) →
          ∃ first second,
            (Run.withTypes library).diagnostics = first ++ [d.repeated] ++ second ∧
              (Run.withTypes { library with declarations := front ++ back }).diagnostics =
                first ++ second) := by
  intro new types types'
  have hall : library.types = typesAmong front ++ d :: typesAmong back := by
    show typesAmong library.declarations = _
    rw [hlibrary, typesAmong_append, typesAmong_cons]
  have hothers : SyntaxTree.Library.types { library with declarations := front ++ back } =
      typesAmong front ++ typesAmong back := typesAmong_append front back
  have htypes : types =
      (Run.start.collect Run.declaring (typesAmong front ++ d :: typesAmong back)).2.table.types :=
    congrArg SymbolTable.types (hall ▸ Run.table_withTypes library)
  have htypes' : types' =
      (Run.start.collect Run.declaring (typesAmong front ++ typesAmong back)).2.table.types :=
    congrArg SymbolTable.types (hothers ▸ Run.table_withTypes _)
  have hwithout : types.without new = types'.without new := by
    rw [htypes, htypes']
    exact Run.without_rejected he hname
  refine ⟨hwithout, ?_, fun hnone => ?_, fun hdeclared hmentioned => ?_⟩
  · intro name hnew
    obtain ⟨element, rfl, htype⟩ := Run.type?_rejected (typesAmong back) he hname hnew
    refine ⟨element, rfl, htypes ▸ htype, fun hfree => ?_⟩
    rw [htypes']
    exact Run.type?_withoutRejected hnew hfree
  · rw [hnone] at hwithout
    exact TypeRegistry.eq_of_without_nil hwithout
  · rw [typesAmong_append] at hmentioned
    obtain ⟨first, hbeside⟩ := Run.beside_rejected he hname hdeclared hmentioned
    obtain ⟨second, hwith, hothers'⟩ := hbeside.diagnostics
    refine ⟨first, second, ?_, ?_⟩
    · rw [Run.withTypes, hall, hwith]
    · rw [Run.withTypes, hothers, hothers']

/-! ## Traces -/

namespace Traces

/-- `Row` is declared twice, and only the second declaration mentions arrays of arrays of `Cell`. -/
def front : List Declaration :=
  [.typeDecl ⟨.onLine "Int" 2, .simple⟩, .typeDecl ⟨.onLine "Row" 3, .alias (.onLine "Int" 3)⟩]

def rejected : TypeDecl := ⟨.onLine "Row" 4, .alias (.array (.array (.onLine "Cell" 4)))⟩

/-- An array of `Cell` is mentioned once more. -/
def arrays : List Declaration :=
  [.typeDecl ⟨.onLine "Line" 5, .alias (.array (.onLine "Cell" 5))⟩]

/-- The arrays are mentioned by name, or their names are taken. -/
def named : List Declaration :=
  [.typeDecl ⟨.onLine "Line" 5, .alias (.onLine "Cell[]" 5)⟩,
    .typeDecl ⟨.onLine "Cell[][]" 6, .simple⟩]

/-- The declarations without the rejected one, and then others. -/
def without (back : List Declaration) : SyntaxTree.Library :=
  .ofDeclarations "Traces" (front ++ back)

def library (back : List Declaration) : SyntaxTree.Library :=
  .ofDeclarations "Traces" (front ++ .typeDecl rejected :: back)

end Traces

theorem rejected_type_leaves_new_arrays_cells :
    (typesAmong Traces.front).any (fun e => e.name.name = Traces.rejected.name.name) ∧
      Traces.rejected.newArrays (typesAmong Traces.front) = ["Cell[][]", "Cell[]"] ∧
      (Run.withTypes (Traces.library Traces.arrays)).table.types.get? "Cell[][]" =
        some (.array "Cell[]") ∧
      (Run.withTypes (Traces.without Traces.arrays)).table.types.get? "Cell[][]" = none ∧
      (Run.withTypes (Traces.without Traces.arrays)).table.types.get? "Cell[]" =
        some (.array "Cell") ∧
      ∃ first second,
        (Run.withTypes (Traces.library Traces.arrays)).diagnostics =
            first ++ [Traces.rejected.repeated] ++ second ∧
          (Run.withTypes (Traces.without Traces.arrays)).diagnostics = first ++ second := by
  have hnew : Traces.rejected.newArrays (typesAmong Traces.front) = ["Cell[][]", "Cell[]"] := by
    decide +kernel
  obtain ⟨-, harrays, -, hfound⟩ := @rejected_type_leaves_new_arrays
    (Traces.library Traces.arrays) Traces.front Traces.arrays Traces.rejected _ rfl
    (List.mem_cons_of_mem _ List.mem_cons_self) rfl
  rw [hnew] at harrays hfound
  obtain ⟨inner, hinner, -, hothers⟩ := harrays "Cell[]" (by decide +kernel)
  obtain ⟨outer, houter, hkept, hlost⟩ := harrays "Cell[][]" (by decide +kernel)
  obtain rfl : "Cell" = inner := (String.append_left_inj "[]").mp hinner
  obtain rfl : "Cell[]" = outer := (String.append_left_inj "[]").mp houter
  refine ⟨rfl, hnew, hkept, ?_, ?_, hfound (by decide +kernel) (by decide +kernel)⟩
  · exact (hlost (by decide +kernel)).trans (if_neg (by decide +kernel))
  · exact (hothers (by decide +kernel)).trans (if_pos (by decide +kernel))

/-- With the rejected declaration, the arrays that it mentions are registered: a type with the name
of the one is rejected too, and the name of the other is known. Without it, the type is accepted,
and the name is not known. -/
theorem rejected_type_leaves_traces :
    (∃ e ∈ typesAmong Traces.front, e.name.name = Traces.rejected.name.name) ∧
      (Run.withTypes (Traces.library Traces.named)).table.types.types.keys =
        ["Int", "Row", "Cell[]", "Cell[][]", "Line"] ∧
      (Run.withTypes (Traces.without Traces.named)).table.types.types.keys =
        ["Int", "Row", "Line", "Cell[][]"] ∧
      ¬ ∃ first second,
        (Run.withTypes (Traces.library Traces.named)).diagnostics =
            first ++ [Traces.rejected.repeated] ++ second ∧
          (Run.withTypes (Traces.without Traces.named)).diagnostics = first ++ second := by
  refine ⟨⟨_, List.mem_cons_of_mem _ List.mem_cons_self, rfl⟩, ?_, ?_, ?_⟩
  · decide +kernel
  · decide +kernel
  · have hunknown : ∃ x ∈ (Run.withTypes (Traces.without Traces.named)).diagnostics,
        x.kind = .unresolvedType := by decide +kernel
    have htaken : ∀ x ∈ (Run.withTypes (Traces.library Traces.named)).diagnostics,
        x.kind = .duplicateDeclaration := by decide +kernel
    rintro ⟨first, second, hwith, hothers⟩
    obtain ⟨x, hx, hkind⟩ := hunknown
    have hfound : x ∈ (Run.withTypes (Traces.library Traces.named)).diagnostics := by
      rw [hothers, List.mem_append] at hx
      rw [hwith, List.append_assoc, List.mem_append, List.mem_append]
      exact hx.imp_right .inr
    rw [htaken x hfound] at hkind
    cases hkind

end LibraryContract
