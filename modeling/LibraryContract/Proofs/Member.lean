import LibraryContract.Proofs.Growth

/-!
# What the members of a type are

A member is searched for in a type, and behind the aliases of it when the type is one. The relations
here say what is found without a search: `SymbolTable.Denotes` leads from a name to the type that is
meant in the end, and `DataType.HasField` and `DataType.HasElement` say what such a type has.

* `yields_fieldOf_iff`, `yields_elementOf_iff`: a search in a type that is no alias ends with its
  members;
* `fieldType_yields`, `elementType_yields`: what a search finds is a member of the type;
* `SymbolTable.HasField.mono`, `SymbolTable.HasElement.mono`: types that come later change nothing.
-/

namespace LibraryContract

open SyntaxTree

/-- The name stands for the type, after all aliases. -/
inductive SymbolTable.Denotes (t : SymbolTable) : String → DataType → Prop
  | named {name : String} {type : DataType} (h : t.type? name = some type)
      (hbase : type.isAlias = false) : Denotes t name type
  | aliased {name other target : String} {type : DataType}
      (h : t.type? name = some (.alias other target)) (htarget : Denotes t target type) :
      Denotes t name type

/-- A location of the type `surface`, which stands for this type, has a field of this name. What is
behind an opaque type or an array is not described, so its fields have the type `surface` again. -/
inductive DataType.HasField (t : SymbolTable) (surface field : String) : DataType → String → Prop
  | structured {name type : String} {fields : OrderedMap String String}
      (h : fields.get? field = some type) : HasField t surface field (.structured name fields) type
  | enum {name : String} {members : OrderedMap String (Option Int64)}
      (h : members.contains field = true) : HasField t surface field (.enum name members) name
  | enumLike {name underlying backing other : String} {members : OrderedMap String (Option Int64)}
      (hunderlying : t.type? underlying = some (.enum other members))
      (h : members.contains field = true) :
      HasField t surface field (.enumLike name underlying backing) backing
  | real {name : String} : HasField t surface field (.real name) surface
  | array {element : String} : HasField t surface field (.array element) surface

/-- A location of the type `surface`, which stands for this type, has elements. -/
inductive DataType.HasElement (surface : String) : DataType → String → Prop
  | array {element : String} : HasElement surface (.array element) element
  | real {name : String} : HasElement surface (.real name) surface

/-- Locations of the type `current` have a field of this name and type. -/
def SymbolTable.HasField (t : SymbolTable) (current field type : String) : Prop :=
  ∃ base, t.Denotes current base ∧ base.HasField t current field type

/-- Locations of the type `current` have elements of this type. -/
def SymbolTable.HasElement (t : SymbolTable) (current type : String) : Prop :=
  ∃ base, t.Denotes current base ∧ base.HasElement current type

variable {t u : SymbolTable}

/-! ## The fields of each kind of type -/

namespace DataType

variable {surface field result name : String}

theorem hasField_structured {fields : OrderedMap String String} :
    (structured name fields).HasField t surface field result ↔ fields.get? field = some result :=
  ⟨fun | .structured h => h, .structured⟩

theorem hasField_enum {members : OrderedMap String (Option Int64)} :
    (enum name members).HasField t surface field result ↔
      members.contains field = true ∧ result = name :=
  ⟨fun | .enum h => ⟨h, rfl⟩, fun | ⟨h, rfl⟩ => .enum h⟩

theorem hasField_enumLike {underlying backing : String} :
    (enumLike name underlying backing).HasField t surface field result ↔
      ∃ other members, t.type? underlying = some (.enum other members) ∧
        members.contains field = true ∧ result = backing := by
  constructor
  · rintro (_ | _ | ⟨hunderlying, h⟩)
    exact ⟨_, _, hunderlying, h, rfl⟩
  · rintro ⟨other, members, hunderlying, h, rfl⟩
    exact .enumLike hunderlying h

theorem hasField_real : (real name).HasField t surface field result ↔ result = surface :=
  ⟨fun | .real => rfl, fun | rfl => .real⟩

theorem hasField_array : (array name).HasField t surface field result ↔ result = surface :=
  ⟨fun | .array => rfl, fun | rfl => .array⟩

end DataType

/-! ## Types that come later -/

theorem SymbolTable.Denotes.mono {name : String} {type : DataType} (h : t.Denotes name type)
    (hu : t.GrowsTo u) : u.Denotes name type := by
  induction h with
  | named h hbase => exact .named (hu.type? h) hbase
  | aliased h _ ih => exact .aliased (hu.type? h) ih

theorem SymbolTable.HasField.mono {current field type : String}
    (h : t.HasField current field type) (hu : t.GrowsTo u) : u.HasField current field type := by
  obtain ⟨base, hbase, hfield⟩ := h
  refine ⟨base, hbase.mono hu, ?_⟩
  cases hfield with
  | structured h => exact .structured h
  | enum h => exact .enum h
  | enumLike hunderlying h => exact .enumLike (hu.type? hunderlying) h
  | real => exact .real
  | array => exact .array

theorem SymbolTable.HasElement.mono {current type : String} (h : t.HasElement current type)
    (hu : t.GrowsTo u) : u.HasElement current type := by
  obtain ⟨base, hbase, helement⟩ := h
  exact ⟨base, hbase.mono hu, helement⟩

/-! ## Searches -/

theorem yields_reachedType {name : String} {span : Span} {type : DataType} :
    (reachedType name span).Yields t type ↔ t.type? name = some type := by
  rw [reachedType]
  simp only [Check.yields_bind, Check.yields_look, SymbolTable.resolveType]
  constructor
  · rintro ⟨found, rfl, h⟩
    cases htype : t.type? name with
    | none => simp [htype] at h
    | some type' => simpa [htype] using h
  · intro h
    refine ⟨_, rfl, ?_⟩
    simp [h]

/-- The search for a field ends at a type that is no alias. -/
theorem yields_fieldOf_iff {surface : String} {field : Identifier} {depth : Nat} {base : DataType}
    {result : String} (hbase : base.isAlias = false) :
    (fieldOf surface field depth base).Yields t result ↔
      base.HasField t surface field.name result := by
  cases base with
  | «alias» => cases hbase
  | structured name fields =>
    rw [fieldOf, DataType.hasField_structured]
    cases fields.get? field.name with
    | none => simp
    | some type => exact Check.yields_pure.trans Option.some_inj.symm
  | enum name members =>
    rw [fieldOf, DataType.hasField_enum, Check.yields_ite]
    split
    · rename_i hmember
      simp [hmember, eq_comm]
    · rename_i hmember
      simp [hmember]
  | enumLike name underlying backing =>
    rw [fieldOf, DataType.hasField_enumLike, Check.yields_bind]
    simp only [yields_reachedType]
    constructor
    · rintro ⟨enum, henum, h⟩
      split at h
      · rename_i other members
        rw [Check.yields_ite] at h
        split at h
        · rename_i hmember
          exact ⟨other, members, henum, hmember, (Check.yields_pure.mp h).symm⟩
        · exact (Check.yields_fail.mp h).elim
      · exact (Check.yields_fail.mp h).elim
    · rintro ⟨other, members, henum, hmember, rfl⟩
      refine ⟨_, henum, ?_⟩
      simp only [hmember, if_true, Check.yields_pure]
  | real name => rw [fieldOf, DataType.hasField_real, Check.yields_pure, eq_comm]
  | array element => rw [fieldOf, DataType.hasField_array, Check.yields_pure, eq_comm]
  | simple name =>
    rw [fieldOf, Check.yields_fail]
    refine iff_of_false not_false ?_
    rintro (_ | _)

/-- Along the aliases of a name, the search for a field ends at what the name stands for. -/
theorem fieldOf_yields {surface : String} {field : Identifier} {depth : Nat} {type : DataType}
    {name result : String} (h : (fieldOf surface field depth type).Yields t result)
    (hname : t.type? name = some type) :
    ∃ base, t.Denotes name base ∧ base.HasField t surface field.name result := by
  induction depth generalizing name type with
  | zero =>
    cases type with
    | «alias» => exact (Check.yields_fail.mp h).elim
    | _ => exact ⟨_, .named hname rfl, (yields_fieldOf_iff rfl).mp h⟩
  | succ depth ih =>
    cases type with
    | «alias» =>
      obtain ⟨next, hnext, h⟩ := Check.yields_bind.mp h
      obtain ⟨base, hbase, hfield⟩ := ih h (yields_reachedType.mp hnext)
      exact ⟨base, .aliased hname hbase, hfield⟩
    | _ => exact ⟨_, .named hname rfl, (yields_fieldOf_iff rfl).mp h⟩

/-- The search for elements ends at a type that is no alias. -/
theorem yields_elementOf_iff {surface : String} {span : Span} {depth : Nat} {base : DataType}
    {result : String} (hbase : base.isAlias = false) :
    (elementOf surface span depth base).Yields t result ↔ base.HasElement surface result := by
  cases base with
  | «alias» => cases hbase
  | real name =>
    rw [elementOf, Check.yields_pure]
    exact ⟨fun h => h ▸ .real, fun | .real => rfl⟩
  | array element =>
    rw [elementOf, Check.yields_pure]
    exact ⟨fun h => h ▸ .array, fun | .array => rfl⟩
  | _ =>
    rw [elementOf, Check.yields_fail]
    · exact iff_of_false not_false nofun
    all_goals exact nofun

theorem elementOf_yields {surface : String} {span : Span} {depth : Nat} {type : DataType}
    {name result : String} (h : (elementOf surface span depth type).Yields t result)
    (hname : t.type? name = some type) :
    ∃ base, t.Denotes name base ∧ base.HasElement surface result := by
  induction depth generalizing name type with
  | zero =>
    cases type with
    | «alias» => exact (Check.yields_fail.mp h).elim
    | _ => exact ⟨_, .named hname rfl, (yields_elementOf_iff rfl).mp h⟩
  | succ depth ih =>
    cases type with
    | «alias» =>
      obtain ⟨next, hnext, h⟩ := Check.yields_bind.mp h
      obtain ⟨base, hbase, helement⟩ := ih h (yields_reachedType.mp hnext)
      exact ⟨base, .aliased hname hbase, helement⟩
    | _ => exact ⟨_, .named hname rfl, (yields_elementOf_iff rfl).mp h⟩

theorem fieldType_yields {current result : String} {field : Identifier}
    (h : (fieldType current field).Yields t result) : t.HasField current field.name result := by
  obtain ⟨type, htype, h⟩ := Check.yields_bind.mp h
  exact fieldOf_yields h (yields_reachedType.mp htype)

theorem elementType_yields {current result : String} {span : Span}
    (h : (elementType current span).Yields t result) : t.HasElement current result := by
  obtain ⟨type, htype, h⟩ := Check.yields_bind.mp h
  exact elementOf_yields h (yields_reachedType.mp htype)

end LibraryContract
