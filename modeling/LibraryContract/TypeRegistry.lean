import LibraryContract.DataType

/-!
# The registry of types

Types under their names, in the order in which they were registered. The first type of a name
stays; a later one is refused. Array types have no declaration: the first mention of one
registers it (`internArray`).

Aliases are followed to the type that they finally name (`unaliased`). A chain of aliases that
does not leave the registry meets a name twice within as many steps as there are names, so the
number of registered types bounds the search.
-/

namespace LibraryContract

/-- Why a chain of aliases leads to no type. -/
inductive AliasError
  /-- The chain reaches a name that is not registered. -/
  | unresolved (name : String)
  /-- The chain comes back to an alias. -/
  | cycle (name : String)
deriving DecidableEq, Repr

/-- The registered types, by name. -/
structure TypeRegistry where
  types : OrderedMap String DataType

namespace TypeRegistry

def empty : TypeRegistry := ⟨.empty⟩

instance : Inhabited TypeRegistry := ⟨empty⟩

def get? (r : TypeRegistry) (name : String) : Option DataType := r.types.get? name

def contains (r : TypeRegistry) (name : String) : Bool := r.types.contains name

def size (r : TypeRegistry) : Nat := r.types.size

def isEmpty (r : TypeRegistry) : Bool := r.types.isEmpty

/-- The types, in order of registration. -/
def toList (r : TypeRegistry) : List DataType := r.types.values

/-- The registry with a type more, unless its name is taken. -/
def insert? (r : TypeRegistry) (t : DataType) : Option TypeRegistry :=
  if r.contains t.name then none else some ⟨r.types.insert t.name t⟩

/-- The registry with the arrays of `element`. -/
def internArray (r : TypeRegistry) (element : String) : TypeRegistry :=
  (r.insert? (.array element)).getD r

/-- Follows aliases from `t`, whose names `visited` were met before, through at most `steps`
aliases. -/
def follow (r : TypeRegistry) (visited : List String) : Nat → DataType → Except AliasError DataType
  | steps, .alias name target =>
    if name ∈ visited then .error (.cycle name)
    else
      match steps, r.get? target with
      | _, none => .error (.unresolved target)
      | 0, some _ => .error (.cycle name)
      | steps + 1, some t => r.follow (name :: visited) steps t
  | _, t => .ok t

/-- The type that `t` stands for after all aliases are followed. The names met before a
repetition are those of `t` and of registered aliases, hence at most one more than there are
types, and the search never runs out of steps. -/
def unaliased (r : TypeRegistry) (t : DataType) : Except AliasError DataType :=
  r.follow [] (r.size + 1) t

/-- Whether the chain of aliases that starts at `name` never ends. -/
def isCyclic (r : TypeRegistry) (name : String) : Bool :=
  match (r.get? name).map r.unaliased with
  | some (.error (.cycle _)) => true
  | _ => false

end TypeRegistry

end LibraryContract
