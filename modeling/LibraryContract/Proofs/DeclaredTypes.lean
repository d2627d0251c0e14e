import LibraryContract.Proofs.Faultless

/-!
# Declared types

Types are registered before the names that they mention are looked at, together with the arrays that
they mention. When no error is found, the second look changes nothing any more, and the registered
types are the declared ones and arrays of known types.

* `withTypes_named`: apart from arrays, the registered types are the declared ones, in order;
* `withTypes_closed`: everything that a registered type mentions is known, what an enum-like type
  is based on is an enum, and every alias leads to a type.
-/

namespace LibraryContract

open SyntaxTree Build

/-- Whether a type is an array. -/
def DataType.isArray : DataType → Bool
  | .array _ => true
  | _ => false

/-- The types of a table that are not arrays, in order. -/
def SymbolTable.namedTypes (t : SymbolTable) : List DataType :=
  t.types.toList.filter fun type => !type.isArray

/-- The names of the types that a type mentions. -/
def DataType.mentions : DataType → List String
  | .simple _ | .real _ | .enum _ _ => []
  | .array element => [element]
  | .enumLike _ underlying backing => [underlying, backing]
  | .structured _ fields => fields.values
  | .alias _ target => [target]

/-- Everything that a type mentions is known, what an enum-like type is based on is an enum, and
aliases lead to a type. -/
structure DataType.Closed (t : SymbolTable) (type : DataType) : Prop where
  mentions : ∀ name ∈ type.mentions, t.Knows name
  underlying : ∀ name underlying backing, type = .enumLike name underlying backing →
    ∃ enumName members, t.type? underlying = some (.enum enumName members)
  unaliased : ∃ target, t.types.unaliased type = .ok target

/-! ## Aliases -/

namespace TypeRegistry

variable {r s : TypeRegistry}

theorem follow_of_not_alias {type : DataType} (h : ∀ name target, type ≠ .alias name target)
    (visited : List String) (steps : Nat) : r.follow visited steps type = .ok type := by
  cases steps <;> cases type <;> first | rfl | exact (h _ _ rfl).elim

/-- Aliases that lead to a type lead to the same type in a larger registry. -/
theorem follow_mono (h : r.types.Grows Eq s.types) {visited : List String} {steps steps' : Nat}
    (hsteps : steps ≤ steps') {type target : DataType}
    (ht : r.follow visited steps type = .ok target) : s.follow visited steps' type = .ok target := by
  fun_induction follow r visited steps type generalizing steps' with
  | case1 => cases ht
  | case2 => cases ht
  | case3 => cases ht
  | case4 visited name next hnew steps type hnext ih =>
    obtain ⟨steps', rfl⟩ : ∃ n, steps' = n + 1 := ⟨steps' - 1, by omega⟩
    obtain ⟨_, hs, rfl⟩ := h.get? hnext
    have hs : s.get? next = some type := hs
    unfold follow
    simp only [if_neg hnew, hs]
    exact ih (by omega) ht
  | case5 steps visited type hne =>
    cases ht
    exact follow_of_not_alias hne visited steps'

theorem unaliased_mono (h : r.types.Grows Eq s.types) {type target : DataType}
    (ht : r.unaliased type = .ok target) : s.unaliased type = .ok target :=
  follow_mono h (Nat.add_le_add_right h.length_le 1) ht

/-- Where the target of every alias is known, no chain of aliases ends at an unknown name. -/
theorem follow_ne_unresolved
    (h : ∀ n name target, r.get? n = some (.alias name target) → r.contains target = true)
    {visited : List String} {steps : Nat} {type : DataType} {name : String}
    (htype : ∀ name target, type = .alias name target → r.contains target = true) :
    r.follow visited steps type ≠ .error (.unresolved name) := by
  fun_induction follow r visited steps type with
  | case1 =>
    intro heq
    cases heq
  | case2 visited steps first next hnew hnone =>
    have hknown := htype _ next rfl
    rw [contains, OrderedMap.contains, show r.types.get? next = none from hnone] at hknown
    cases hknown
  | case3 =>
    intro heq
    cases heq
  | case4 visited first next hnew steps type hnext ih =>
    refine ih fun name target heq => h next name target ?_
    rw [← heq]
    exact hnext
  | case5 =>
    intro heq
    cases heq

end TypeRegistry

theorem DataType.Closed.mono {t u : SymbolTable} {type : DataType} (h : type.Closed t)
    (hu : t.GrowsTo u) : type.Closed u where
  mentions name hn := hu.knows (h.mentions name hn)
  underlying name underlying backing heq := by
    obtain ⟨enumName, members, ht⟩ := h.underlying name underlying backing heq
    exact ⟨enumName, members, hu.type? ht⟩
  unaliased := by
    obtain ⟨target, ht⟩ := h.unaliased
    exact ⟨target, TypeRegistry.unaliased_mono hu.types ht⟩

/-! ## Mentioned arrays -/

namespace SyntaxTree.TypeExpr

/-- What the arrays in a type expression are arrays of. -/
def elements : TypeExpr → List String
  | .named _ => []
  | .array element => element.canonicalName :: element.elements

/-- The arrays in the expression are known. -/
def Interned (t : SymbolTable) (e : TypeExpr) : Prop :=
  ∀ element ∈ e.elements, t.Knows (DataType.arrayName element)

variable {t u : SymbolTable} {e : TypeExpr}

theorem Interned.mono (h : e.Interned t) (hu : t.GrowsTo u) : e.Interned u :=
  fun element he => hu.knows (h element he)

theorem intern_growsTo (e : TypeExpr) (t : SymbolTable) : t.GrowsTo (e.intern t) :=
  .of_reflTransGen (e.intern_declares t) fun _ _ => Declares.growsTo

theorem interned_intern (e : TypeExpr) (t : SymbolTable) : e.Interned (e.intern t) := by
  induction e with
  | named name =>
    intro element he
    cases he
  | array inner ih =>
    intro element he
    rcases List.mem_cons.mp he with rfl | he
    · exact SymbolTable.knows_internArray.mpr (.inr rfl)
    · exact ((inner.intern t).growsTo_internArray _).knows (ih element he)

theorem internArray_of_knows {element : String} (h : t.Knows (DataType.arrayName element)) :
    t.internArray element = t := by
  rw [SymbolTable.knows_iff_contains] at h
  unfold SymbolTable.internArray TypeRegistry.internArray TypeRegistry.insert?
  rw [DataType.name, if_pos h]
  rfl

/-- Where the arrays of an expression are known, resolving it changes nothing. -/
theorem resolve_of_interned {name : String} (h : e.Interned t) (he : e.resolve.Yields t name u) :
    u = t := by
  induction e generalizing name u with
  | named identifier => exact (yields_resolve_named.mp he).2.2.symm
  | array inner ih =>
    obtain ⟨element, s, hs, rfl, rfl⟩ := yields_resolve_array.mp he
    obtain rfl := ih (fun element hmem => h element (List.mem_cons_of_mem _ hmem)) hs
    obtain ⟨rfl, -⟩ := resolve_known hs
    exact internArray_of_knows (h _ List.mem_cons_self)

/-- What a resolved expression has arrays of is known. -/
theorem resolve_elements {name : String} (he : e.resolve.Yields t name u) :
    ∀ element ∈ e.elements, u.Knows element := by
  induction e generalizing name u with
  | named identifier =>
    intro element hmem
    cases hmem
  | array inner ih =>
    obtain ⟨element, s, hs, rfl, rfl⟩ := yields_resolve_array.mp he
    obtain ⟨rfl, hknown⟩ := resolve_known hs
    intro element hmem
    refine (s.growsTo_internArray _).knows ?_
    rcases List.mem_cons.mp hmem with rfl | hmem
    · exact hknown
    · exact ih hs element hmem

end SyntaxTree.TypeExpr

/-! ## The first look -/

/-- There is nothing but types. Apart from arrays, these are those of the declarations, and the arrays
are mentioned in them. -/
structure SymbolTable.DeclaresTypes (ds : List TypeDecl) (t : SymbolTable) : Prop where
  only : ∃ types, t = { SymbolTable.empty with types := types }
  named : t.namedTypes = ds.map TypeDecl.toDataType
  arrays : ∀ name element, t.type? name = some (.array element) →
    ∃ d ∈ ds, ∃ e ∈ d.mentioned, element ∈ e.elements
  interned : ∀ d ∈ ds, ∀ e ∈ d.mentioned, e.Interned t

namespace SymbolTable

variable {t u : SymbolTable}

theorem type?_internArray {element name : String} {type : DataType}
    (h : (t.internArray element).type? name = some type) :
    t.type? name = some type ∨ type = .array element := by
  unfold internArray TypeRegistry.internArray TypeRegistry.insert? at h
  split at h
  · exact Or.inl h
  · simp only [type?, TypeRegistry.get?, Option.getD_some, OrderedMap.get?_insert] at h
    split at h
    · cases h
      exact Or.inr rfl
    · exact Or.inl h

theorem namedTypes_internArray (t : SymbolTable) (element : String) :
    (t.internArray element).namedTypes = t.namedTypes := by
  unfold internArray TypeRegistry.internArray TypeRegistry.insert?
  split
  · rfl
  · rename_i hnew
    rw [Option.getD_some]
    simp only [namedTypes, TypeRegistry.toList]
    rw [OrderedMap.values_insert_of_not_contains (Bool.not_eq_true _ ▸ hnew), List.filter_append]
    simp [DataType.isArray]

theorem namedTypes_intern (e : TypeExpr) (t : SymbolTable) :
    (e.intern t).namedTypes = t.namedTypes := by
  induction e with
  | named name => rfl
  | array inner ih => exact (namedTypes_internArray _ _).trans ih

theorem type?_intern {e : TypeExpr} {name : String} {type : DataType}
    (h : (e.intern t).type? name = some type) :
    t.type? name = some type ∨ ∃ element ∈ e.elements, type = .array element := by
  induction e with
  | named identifier => exact Or.inl h
  | array inner ih =>
    rcases type?_internArray h with h | rfl
    · rcases ih h with h | ⟨element, he, rfl⟩
      · exact Or.inl h
      · exact Or.inr ⟨element, List.mem_cons_of_mem _ he, rfl⟩
    · exact Or.inr ⟨_, List.mem_cons_self, rfl⟩

theorem intern_only (e : TypeExpr) (t : SymbolTable) :
    ∃ types, e.intern t = { t with types := types } := by
  induction e with
  | named name => exact ⟨t.types, rfl⟩
  | array inner ih =>
    obtain ⟨types, hinner⟩ := ih
    rw [TypeExpr.intern, hinner]
    exact ⟨_, rfl⟩

/-- What interning several expressions does. -/
theorem interns_all (es : List TypeExpr) (t : SymbolTable) :
    t.GrowsTo (es.foldl (fun t e => e.intern t) t) ∧
      (∀ e ∈ es, e.Interned (es.foldl (fun t e => e.intern t) t)) ∧
      (es.foldl (fun t e => e.intern t) t).namedTypes = t.namedTypes ∧
      (∀ name type, (es.foldl (fun t e => e.intern t) t).type? name = some type →
        t.type? name = some type ∨ ∃ e ∈ es, ∃ element ∈ e.elements, type = .array element) ∧
      ∃ types, es.foldl (fun t e => e.intern t) t = { t with types := types } := by
  induction es generalizing t with
  | nil => exact ⟨.refl t, by simp, rfl, fun _ _ h => Or.inl h, t.types, rfl⟩
  | cons e rest ih =>
    obtain ⟨hgrows, hinterned, hnamed, htypes, types, honly⟩ := ih (e.intern t)
    refine ⟨(e.intern_growsTo t).trans hgrows, ?_, hnamed.trans (namedTypes_intern e t), ?_, types, ?_⟩
    · intro e' he'
      rcases List.mem_cons.mp he' with rfl | he'
      · exact (e'.interned_intern t).mono hgrows
      · exact hinterned e' he'
    · intro name type htype
      rcases htypes name type htype with htype | ⟨e', he', hrest⟩
      · rcases type?_intern htype with htype | helement
        · exact Or.inl htype
        · exact Or.inr ⟨e, List.mem_cons_self, helement⟩
      · exact Or.inr ⟨e', List.mem_cons_of_mem e he', hrest⟩
    · obtain ⟨types', honly'⟩ := intern_only e t
      rw [List.foldl_cons, honly, honly']

end SymbolTable

theorem SyntaxTree.TypeDecl.isArray_toDataType (d : TypeDecl) : d.toDataType.isArray = false := by
  unfold toDataType
  split <;> rfl

theorem SyntaxTree.TypeDecl.yields_declare {d : TypeDecl} {t u : SymbolTable} :
    d.declare.Yields t () u ↔
      (d.mentioned.foldl (fun t e => e.intern t) t).registerType d.toDataType = .ok u := by
  rw [TypeDecl.declare]
  simp only [yields_bind, yields_modify, yields_registerUnit]
  constructor
  · rintro ⟨_, v, rfl, hu⟩
    exact hu
  · exact fun hu => ⟨(), _, rfl, hu⟩

theorem SyntaxTree.TypeDecl.declaresTypes {ds : List TypeDecl} {d : TypeDecl} {t u : SymbolTable}
    (ht : t.DeclaresTypes ds) (h : d.declare.Yields t () u) : u.DeclaresTypes (ds ++ [d]) := by
  have hu := TypeDecl.yields_declare.mp h
  obtain ⟨hgrows, hinterned, hnamed, htypes, types, honly⟩ := t.interns_all d.mentioned
  have hmore := SymbolTable.registerType_growsTo hu
  obtain ⟨hnew, rfl⟩ := SymbolTable.registerType_eq_ok.mp hu
  refine { only := ?only, named := ?named, arrays := ?arrays, interned := ?interned }
  case only =>
    obtain ⟨types', ht⟩ := ht.only
    rw [honly, ht]
    exact ⟨_, rfl⟩
  case named =>
    simp only [SymbolTable.namedTypes, TypeRegistry.toList] at hnamed ⊢
    rw [OrderedMap.values_insert_of_not_contains hnew, List.filter_append, hnamed, List.map_append]
    congr 1
    · exact ht.named
    · simp [d.isArray_toDataType]
  case arrays =>
    intro name element htype
    simp only [SymbolTable.type?, TypeRegistry.get?, OrderedMap.get?_insert] at htype
    split at htype
    · have harray := d.isArray_toDataType
      rw [Option.some.inj htype] at harray
      cases harray
    · rcases htypes name _ htype with htype | ⟨e, he, element', helement, heq⟩
      · obtain ⟨d', hd', hrest⟩ := ht.arrays name element htype
        exact ⟨d', List.mem_append_left _ hd', hrest⟩
      · cases heq
        exact ⟨d, List.mem_append_right _ (List.mem_singleton_self d), e, he, helement⟩
  case interned =>
    intro d' hd' e he
    rcases List.mem_append.mp hd' with hd' | hd'
    · exact ((ht.interned d' hd' e he).mono hgrows).mono hmore
    · rw [List.mem_singleton.mp hd'] at he
      exact (hinterned e he).mono hmore

theorem SymbolTable.DeclaresTypes.empty : SymbolTable.empty.DeclaresTypes [] :=
  ⟨⟨_, rfl⟩, rfl, fun _ _ h => (by cases h), List.forall_mem_nil _⟩

/-! ## The second look -/

/-- The names of the fields or members of a declared type. -/
def SyntaxTree.TypeDecl.memberNames (d : TypeDecl) : List String :=
  match d.definition with
  | .structured fields => fields.map fun f => f.name.name
  | .enum members => members.map fun m => m.name.name
  | _ => []

/-- What the second look at a declaration makes sure of. -/
structure SyntaxTree.TypeDecl.Valid (t : SymbolTable) (d : TypeDecl) : Prop where
  mentioned : ∀ e ∈ d.mentioned, t.Knows e.canonicalName ∧ ∀ element ∈ e.elements, t.Knows element
  acyclic : d.toDataType.isAlias = true → t.types.isCyclic d.name.name = false
  underlying : ∀ name backing, d.definition = .enumLike name backing →
    ∃ type, t.type? name.name = some type ∧ type.isEnum = true
  members : d.memberNames.Nodup

namespace SyntaxTree.TypeDecl

variable {t u : SymbolTable}

/-- A new name before names that are new after it. -/
theorem unseen_cons {seen names : List String} {name : String} (hnew : name ∉ seen)
    (hunseen : ∀ n ∈ names, n ∉ name :: seen) (hnodup : names.Nodup) :
    (∀ n ∈ name :: names, n ∉ seen) ∧ (name :: names).Nodup := by
  constructor
  · refine List.forall_mem_cons.mpr ⟨hnew, fun n hn hseen => ?_⟩
    exact hunseen n hn (List.mem_cons_of_mem _ hseen)
  · exact List.nodup_cons.mpr ⟨fun hn => hunseen _ hn List.mem_cons_self, hnodup⟩

theorem noteRepeated_clean {words : String → String} {seen : List String} {names : List Identifier}
    {a : Unit} (h : (noteRepeated words seen names).Clean t a u) :
    u = t ∧ (∀ name ∈ names.map Identifier.name, name ∉ seen) ∧
      (names.map Identifier.name).Nodup := by
  induction names generalizing seen with
  | nil => exact ⟨(clean_pure.mp h).2.symm, by simp, List.nodup_nil⟩
  | cons name rest ih =>
    rw [noteRepeated, clean_ite] at h
    split at h
    · obtain ⟨_, _, hnote, -⟩ := clean_bind.mp h
      exact (clean_note.mp hnote).elim
    · rename_i hnew
      obtain ⟨hsame, hunseen, hnodup⟩ := ih h
      exact ⟨hsame, unseen_cons hnew hunseen hnodup⟩

/-- An expression whose arrays are known is resolved without a change. -/
theorem resolve_clean {e : TypeExpr} {name : String} (he : e.Interned t)
    (h : e.resolve.Yields t name u) :
    u = t ∧ t.Knows e.canonicalName ∧ ∀ element ∈ e.elements, t.Knows element := by
  obtain rfl := TypeExpr.resolve_of_interned he h
  obtain ⟨rfl, hknown⟩ := TypeExpr.resolve_known h
  exact ⟨rfl, hknown, TypeExpr.resolve_elements h⟩

theorem validateFields_clean {typeName : String} {seen : List String} {fields : List FieldDecl}
    {a : Unit} (hf : ∀ f ∈ fields, f.type.Interned t)
    (h : (validateFields typeName seen fields).Clean t a u) :
    u = t ∧ (∀ f ∈ fields, t.Knows f.type.canonicalName ∧
      ∀ element ∈ f.type.elements, t.Knows element) ∧
      (∀ name ∈ fields.map fun f => f.name.name, name ∉ seen) ∧
      (fields.map fun f => f.name.name).Nodup := by
  induction fields generalizing seen with
  | nil => exact ⟨(clean_pure.mp h).2.symm, by simp, by simp, List.nodup_nil⟩
  | cons field rest ih =>
    rw [validateFields, clean_ite] at h
    split at h
    · obtain ⟨_, _, hnote, -⟩ := clean_bind.mp h
      exact (clean_note.mp hnote).elim
    · rename_i hnew
      obtain ⟨_, v, htype, hrest⟩ := clean_bind.mp h
      obtain ⟨name, -, htype⟩ := clean_attempt field.type.candid_resolve htype
      obtain ⟨rfl, hfield⟩ := resolve_clean (hf field List.mem_cons_self) htype.yields
      obtain ⟨rfl, hfields, hunseen, hnodup⟩ :=
        ih (fun f hmem => hf f (List.mem_cons_of_mem _ hmem)) hrest
      exact ⟨rfl, List.forall_mem_cons.mpr ⟨hfield, hfields⟩, unseen_cons hnew hunseen hnodup⟩

/-- Without an error, the second look changes nothing. -/
theorem validate_clean {d : TypeDecl} {a : Unit} (hd : ∀ e ∈ d.mentioned, e.Interned t)
    (h : d.validate.Clean t a u) : u = t ∧ d.Valid t := by
  obtain ⟨name, definition⟩ := d
  cases definition with
  | simple | real =>
    exact ⟨(clean_pure.mp h).2.symm, by simp [mentioned], by simp [toDataType, DataType.isAlias],
      by simp, List.nodup_nil⟩
  | «alias» target =>
    obtain ⟨_, v, hresolve, hrest⟩ := clean_bind.mp h
    obtain ⟨rfl, htarget⟩ := resolve_clean (hd target List.mem_cons_self) hresolve.yields
    obtain ⟨cyclic, w, hlook, hrest⟩ := clean_bind.mp hrest
    obtain ⟨hcyclic, rfl⟩ := clean_liftM hlook
    rw [Check.yields_look] at hcyclic
    rw [clean_ite] at hrest
    split at hrest
    · exact (Check.yields_fail.mp (clean_liftM hrest).1).elim
    · rename_i hfalse
      refine ⟨(clean_pure.mp hrest).2.symm, by simpa [mentioned] using htarget, fun _ => ?_, by simp,
        List.nodup_nil⟩
      rw [hcyclic]
      simpa using hfalse
  | structured fields =>
    obtain ⟨hsame, hfields, -, hnodup⟩ :=
      validateFields_clean (fun f hf => hd _ (List.mem_map_of_mem hf)) h
    refine ⟨hsame, ?_, by simp [toDataType, DataType.isAlias], by simp, hnodup⟩
    exact List.forall_mem_map.mpr hfields
  | enum members =>
    obtain ⟨hsame, -, hnodup⟩ := noteRepeated_clean h
    refine ⟨hsame, by simp [mentioned], by simp [toDataType, DataType.isAlias], by simp, ?_⟩
    rw [List.map_map] at hnodup
    exact hnodup
  | enumLike underlying backing =>
    obtain ⟨isEnum, v, hlook, hrest⟩ := clean_bind.mp h
    obtain ⟨henum, rfl⟩ := clean_liftM hlook
    rw [Check.yields_look] at henum
    rw [clean_ite] at hrest
    split at hrest
    · obtain ⟨_, _, hnote, -⟩ := clean_bind.mp hrest
      exact (clean_note.mp hnote).elim
    · rename_i hbase
      obtain ⟨_, w, hresolve, hend⟩ := clean_bind.mp hrest
      obtain ⟨rfl, hbacking⟩ := resolve_clean (hd backing List.mem_cons_self) hresolve.yields
      refine ⟨(clean_pure.mp hend).2.symm, by simpa [mentioned] using hbacking,
        by simp [toDataType, DataType.isAlias], ?_, List.nodup_nil⟩
      rintro _ _ ⟨⟩
      cases ht : SymbolTable.type? _ underlying.name with
      | none => simp [← henum, ht] at hbase
      | some type => exact ⟨type, rfl, by simpa [← henum, ht] using hbase⟩

end SyntaxTree.TypeDecl

/-! ## Registered types -/

namespace SyntaxTree.TypeDecl

theorem name_toDataType (d : TypeDecl) : d.toDataType.name = d.name.name := by
  unfold toDataType
  split <;> rfl

variable {t : SymbolTable} {d : TypeDecl}

theorem Valid.mentions (h : d.Valid t) : ∀ name ∈ d.toDataType.mentions, t.Knows name := by
  rcases d with ⟨name, _ | _ | target | fields | members | ⟨underlying, backing⟩⟩
  · exact List.forall_mem_nil _
  · exact List.forall_mem_nil _
  · intro n hn
    rw [List.mem_singleton.mp hn]
    exact (h.mentioned target List.mem_cons_self).1
  · intro n hn
    obtain ⟨k, hk⟩ := OrderedMap.mem_values.mp hn
    obtain ⟨f, hf, heq⟩ := List.mem_map.mp (OrderedMap.mem_of_get?_ofList hk)
    cases heq
    exact (h.mentioned f.type (List.mem_map_of_mem hf)).1
  · exact List.forall_mem_nil _
  · intro n hn
    obtain ⟨type, htype, -⟩ := h.underlying underlying backing rfl
    rcases List.mem_cons.mp hn with rfl | hn
    · exact ⟨type, htype⟩
    · rw [List.mem_singleton.mp hn]
      exact (h.mentioned backing List.mem_cons_self).1

theorem Valid.base (h : d.Valid t) (name underlying backing : String)
    (heq : d.toDataType = .enumLike name underlying backing) :
    ∃ enumName members, t.type? underlying = some (.enum enumName members) := by
  rcases d with ⟨_, _ | _ | target | fields | members | ⟨base, backing⟩⟩ <;> cases heq
  obtain ⟨type, htype, henum⟩ := h.underlying base backing rfl
  cases type <;> cases henum
  exact ⟨_, _, htype⟩

end SyntaxTree.TypeDecl

namespace SymbolTable.DeclaresTypes

variable {t : SymbolTable} {ds : List TypeDecl}

/-- A registered type is declared, or it is an array that is mentioned in a declaration. -/
theorem type?_cases (h : t.DeclaresTypes ds) {name : String} {type : DataType}
    (ht : t.type? name = some type) :
    (∃ d ∈ ds, d.toDataType = type) ∨
      ∃ element, type = .array element ∧ ∃ d ∈ ds, ∃ e ∈ d.mentioned, element ∈ e.elements := by
  cases harray : type.isArray with
  | true =>
    cases type <;> cases harray
    exact Or.inr ⟨_, rfl, h.arrays name _ ht⟩
  | false =>
    have hmem : type ∈ t.namedTypes := by
      rw [namedTypes, List.mem_filter, harray]
      exact ⟨OrderedMap.mem_values.mpr ⟨name, ht⟩, rfl⟩
    rw [h.named] at hmem
    exact Or.inl (List.mem_map.mp hmem)

theorem type?_toDataType (h : t.DeclaresTypes ds) (hw : t.WellFormed) {d : TypeDecl} (hd : d ∈ ds) :
    t.type? d.toDataType.name = some d.toDataType := by
  have hmem : d.toDataType ∈ t.namedTypes := by
    rw [h.named]
    exact List.mem_map_of_mem hd
  obtain ⟨name, hname⟩ := OrderedMap.mem_values.mp (List.mem_filter.mp hmem).1
  rw [hw.type_name name _ hname]
  exact hname

/-- Valid declarations register closed types. -/
theorem closed (h : t.DeclaresTypes ds) (hw : t.WellFormed) (hv : ∀ d ∈ ds, d.Valid t)
    {name : String} {type : DataType} (ht : t.type? name = some type) : type.Closed t := by
  have halias : ∀ n name target, t.types.get? n = some (.alias name target) →
      t.types.contains target = true := by
    intro n name target hget
    rw [← SymbolTable.knows_iff_contains]
    rcases h.type?_cases hget with ⟨d, hd, heq⟩ | ⟨_, heq, -⟩
    · exact (hv d hd).mentions target (by rw [heq]; exact List.mem_singleton_self target)
    · cases heq
  rcases h.type?_cases ht with ⟨d, hd, rfl⟩ | ⟨element, rfl, d, hd, e, he, helement⟩
  · refine ⟨(hv d hd).mentions, (hv d hd).base, ?_⟩
    cases hun : t.types.unaliased d.toDataType with
    | ok target => exact ⟨target, rfl⟩
    | error e =>
      cases e with
      | unresolved n =>
        refine (TypeRegistry.follow_ne_unresolved halias (fun name target heq => ?_) hun).elim
        exact halias _ name target (by rw [← heq]; exact ht)
      | cycle n =>
        have hcyclic : t.types.isCyclic d.name.name = true := by
          unfold TypeRegistry.isCyclic
          rw [← d.name_toDataType, show t.types.get? _ = _ from h.type?_toDataType hw hd,
            Option.map_some, hun]
        cases hisalias : d.toDataType.isAlias with
        | true =>
          rw [(hv d hd).acyclic hisalias] at hcyclic
          cases hcyclic
        | false =>
          rw [TypeRegistry.unaliased, TypeRegistry.follow_of_not_alias] at hun
          · cases hun
          · intro name target heq
            rw [heq] at hisalias
            cases hisalias
  · refine ⟨?_, by simp, ⟨.array element, rfl⟩⟩
    intro name hname
    rw [List.mem_singleton.mp hname]
    exact ((hv d hd).mentioned e he).2 element helement

end SymbolTable.DeclaresTypes

namespace Run

variable {options : Options} {library : SyntaxTree.Library}

theorem withTypes_wellFormed (library : SyntaxTree.Library) : (withTypes library).table.WellFormed :=
  keeps_of_reflTransGen (registerTypes_declares library.types start)
    (fun _ _ => Declares.wellFormed) .empty

/-- The second look finds all declarations valid. -/
theorem DeclaresCleanly.declaresTypes (h : DeclaresCleanly library) :
    (withTypes library).table.DeclaresTypes library.types ∧
      ∀ d ∈ library.types, d.Valid (withTypes library).table := by
  obtain ⟨t, done, checked, hdeclared, hchecked⟩ := h.types
  have ht : t.DeclaresTypes library.types :=
    clean_mapM_invariant (I := fun ds _ t => SymbolTable.DeclaresTypes ds t)
      (fun d _ ds _ t _ u ht hd => TypeDecl.declaresTypes ht hd.yields) hdeclared .empty
  have hall : (withTypes library).table = t ∧ ∀ d ∈ library.types, d.Valid t := by
    refine clean_mapM_invariant (I := fun ds _ u => u = t ∧ ∀ d ∈ ds, d.Valid t) ?_ hchecked ?_
    · rintro d hd ds _ _ _ u ⟨rfl, hds⟩ hclean
      obtain ⟨hsame, hvalid⟩ := TypeDecl.validate_clean (ht.interned d hd) hclean
      refine ⟨hsame, fun d' hd' => ?_⟩
      rcases List.mem_append.mp hd' with hd' | hd'
      · exact hds d' hd'
      · rw [List.mem_singleton.mp hd']
        exact hvalid
    · exact ⟨rfl, List.forall_mem_nil _⟩
  rw [hall.1]
  exact ⟨ht, hall.2⟩

/-- Apart from arrays, the registered types are the declared ones, in order. -/
theorem DeclaresCleanly.withTypes_named (h : DeclaresCleanly library) :
    (withTypes library).table.namedTypes = library.types.map TypeDecl.toDataType := h.declaresTypes.1.named

/-- Every registered type is closed. -/
theorem DeclaresCleanly.withTypes_closed (h : DeclaresCleanly library) {name : String}
    {type : DataType} (ht : (withTypes library).table.type? name = some type) :
    type.Closed (withTypes library).table :=
  h.declaresTypes.1.closed (withTypes_wellFormed library) h.declaresTypes.2 ht

end Run

end LibraryContract
