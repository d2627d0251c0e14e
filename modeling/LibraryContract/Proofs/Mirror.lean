import LibraryContract.Proofs.Declarations
import LibraryContract.Proofs.Ledger

/-!
# What a table keeps of a tree

A symbol table mirrors a library when every declaration of the tree has its counterpart in the table,
in the same place, and the table has nothing else. The relations below say this for each kind of
declaration, from single contracts and statements up to whole libraries (`Mirrors`). They compare
what can be seen without resolving a name again: names, kinds, places, and how many parts there
are.

Operations are the exception to one counterpart for each declaration, since a definition completes
an earlier declaration. There the accepted declarations are listed with what became of them
(`Accepted`), and an operation mirrors the last one of its own.
-/

namespace LibraryContract

open SyntaxTree Build

namespace SyntaxTree

/-- The type is the declared one, and no field or member was merged with another. -/
structure TypeDecl.Mirrors (d : TypeDecl) (type : DataType) : Prop where
  declared : type = d.toDataType
  fields : ∀ (name : String) (fields : OrderedMap String String), type = .structured name fields →
    ∃ ds, d.definition = .structured ds ∧
      fields.entries = ds.map fun f => (f.name.name, f.type.canonicalName)
  members : ∀ (name : String) (members : OrderedMap String (Option Int64)),
    type = .enum name members →
      ∃ ds, d.definition = .enum ds ∧ members.entries = ds.map fun m => (m.name.name, m.value)

structure VariableDecl.Mirrors (home : VariableScope) (d : VariableDecl) (v : Variable) : Prop where
  name : v.name = d.name.name
  type : v.type = d.type.canonicalName
  scope : v.scope = home
  span : v.span = d.name.span
  initial : v.initial.isSome = d.initializer.isSome

/-- The start that a name stands for. -/
def Identifier.toSource (name : Identifier) : Endpoint :=
  if name.name = Endpoint.anyWord then .any else .state name.name

/-- The end that a name stands for. -/
def Identifier.toTarget (name : Identifier) : Endpoint :=
  if name.name = Endpoint.stayWord then .stay else .state name.name

/-- The single shifts of a declaration, one from each source. -/
def ShiftDecl.parts (d : ShiftDecl) : List (ShiftDecl × Identifier) :=
  d.sources.map fun source => (d, source)

structure ShiftDecl.Mirrors (d : ShiftDecl) (source : Identifier) (s : Shift) : Prop where
  source : s.source = source.toSource
  target : d.target.map Identifier.toTarget = some s.target
  functions : s.functions.length = d.functions.length
  span : s.span = d.span

structure AutomatonDecl.Mirrors (d : AutomatonDecl) (a : Automaton) : Prop where
  name : a.name = d.name.name
  type : a.type = d.type.canonicalName
  span : a.span = d.span
  states : a.states.values = d.states.map StateDecl.toState
  constructorVariables : List.Forall₂ (VariableDecl.Mirrors (.constructorParameter a.id))
    d.constructorVariables a.constructorVariables.values
  instanceVariables : List.Forall₂ (VariableDecl.Mirrors (.automaton a.id))
    d.instanceVariables a.instanceVariables.values
  shifts : List.Forall₂ (fun part s => part.1.Mirrors part.2 s)
    (d.shifts.flatMap ShiftDecl.parts) a.shifts

structure ContractDecl.Mirrors (d : ContractDecl) (c : Contract) : Prop where
  name : c.name = d.name.map Identifier.name
  kind : c.kind = d.kind
  span : c.span = d.span

/-- A statement of the body of the operation `id`, and what it becomes. -/
inductive Statement.Mirrors (id : OperationId) : Statement → LibraryContract.Statement → Prop
  | assignment {target : Chain} {e : Expr} {span : Span} (location : Access) (value : Value) :
      Mirrors id (.assignment target (some e) none span) (.assignment location (.value value) span)
  | construction {target : Chain} {c : ConstructorCall} {span : Span} (location : Access)
      (call : LibraryContract.ConstructorCall) :
      Mirrors id (.assignment target none (some c) span)
        (.assignment location (.constructed call) span)
  | action {name : Identifier} {arguments : List Expr} {values : List Value} {span : Span}
      (h : values.length = arguments.length) :
      Mirrors id (.action name arguments span) (.action name.name values span)
  | declaration {d : VariableDecl} {v : Variable} (h : d.Mirrors (.body id) v) :
      Mirrors id (.variable d) (.declaration v)

/-- The contracts and the body of an operation are those of the declaration. -/
structure FunctionDecl.Mirrors (d : FunctionDecl) (o : Operation) : Prop where
  contracts : List.Forall₂ ContractDecl.Mirrors d.contracts o.contracts
  statements : List.Forall₂ (Statement.Mirrors o.id) (d.body.getD []) o.statements

/-- The declarations of operations, each with the number of the automaton around it: first those
inside of automata, then those outside. -/
def Library.placed (l : Library) : List Placed :=
  (l.automata.mapIdx fun i d => d.functions.map fun f => (f, some ⟨i⟩)).flatten ++
    l.functions.map fun f => (f, none)

theorem Library.mem_placed {l : Library} {item : Placed} :
    item ∈ l.placed ↔ (∃ i d, l.automata[i]? = some d ∧ ∃ f ∈ d.functions, item = (f, some ⟨i⟩)) ∨
      ∃ f ∈ l.functions, item = (f, none) := by
  rw [placed, List.mem_append, List.mem_flatten, List.mem_map]
  refine or_congr ?_ (exists_congr fun f => and_congr_right fun _ => eq_comm)
  constructor
  · rintro ⟨items, hitems, hitem⟩
    obtain ⟨i, hi, rfl⟩ := List.mem_mapIdx.mp hitems
    obtain ⟨f, hf, rfl⟩ := List.mem_map.mp hitem
    exact ⟨i, _, List.getElem?_eq_getElem hi, f, hf, rfl⟩
  · rintro ⟨i, d, hd, f, hf, rfl⟩
    obtain ⟨hi, rfl⟩ := List.getElem?_eq_some_iff.mp hd
    exact ⟨_, List.mem_mapIdx.mpr ⟨i, hi, rfl⟩, List.mem_map_of_mem hf⟩

end SyntaxTree

theorem Run.DeclaresCleanly.placed_eq {library : SyntaxTree.Library}
    (h : Run.DeclaresCleanly library) : Run.placed library = library.placed := by
  have hpending : (library.pendingAutomata.map fun a => a.declaration.functions.map fun d =>
      (d, some a.id)) = library.automata.mapIdx fun i d => d.functions.map fun f => (f, some ⟨i⟩) := by
    refine List.ext_getElem (by simp [SyntaxTree.Library.pendingAutomata]) fun i hi hj => ?_
    simp [SyntaxTree.Library.pendingAutomata, AutomatonDecl.pending]
  rw [Run.placed, operationDeclarations, h.registers.2, SyntaxTree.Library.placed, ← hpending,
    List.flatMap_def]

/-- What became of an accepted declaration, after those before it: it created an operation, or it
completed one that had the same key and no body. -/
inductive Accepted (t : SymbolTable) (before : List LedgerEntry) : LedgerEntry → Prop
  | created {item : Placed} {o : Operation} (ho : t.operation? o.id = some o)
      (key : item.HasKey t o.toSignature) (fresh : declarationsOf before o.id = []) :
      Accepted t before (.new o.id, item)
  | completed {first item : Placed} {o : Operation} (ho : t.operation? o.id = some o)
      (firstKey : first.HasKey t o.toSignature) (key : item.HasKey t o.toSignature)
      (declared : declarationsOf before o.id = [first]) (firstBody : first.1.body = none)
      (body : item.1.body.isSome = true) : Accepted t before (.completed o.id, item)

/-- The table keeps the whole tree; `entries` are the declarations of operations with what became
of them. -/
structure Mirrors (library : SyntaxTree.Library) (entries : List LedgerEntry) (t : SymbolTable) :
    Prop where
  types : List.Forall₂ TypeDecl.Mirrors library.types t.namedTypes
  annotations : t.annotations.values =
    SymbolTable.builtinTarget :: library.annotations.map AnnotationDecl.toAnnotation
  globals : List.Forall₂ (VariableDecl.Mirrors .global) library.globals t.globals.values
  automata : List.Forall₂ AutomatonDecl.Mirrors library.automata t.automata
  functions : entries.map Prod.snd = library.placed
  accepted : ∀ before e after, entries = before ++ e :: after → Accepted t before e
  operations : ∀ o ∈ t.operations, ∃ item, (declarationsOf entries o.id).getLast? = some item ∧
    item.1.Mirrors o

end LibraryContract
