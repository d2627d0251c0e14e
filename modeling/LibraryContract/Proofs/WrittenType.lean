import LibraryContract.Proofs.Mirror

/-!
# The types that a library writes

A library declares types and mentions types: in other types, as types of variables and arguments, as
what operations return, and to pick one of several overloads. A parameter that is marked as the
target of an operation mentions an automaton instead.

* `Library.typeExprs`: all type expressions of a library, wherever they stand;
* `Library.BracketFree`: none of the types that it declares or mentions has the name of an array;
* `Library.Reorders`: the same declarations in another order.
-/

namespace LibraryContract

/-- A name that cannot be that of an array: it does not end in brackets. -/
def BracketFree (name : String) : Prop := ∀ element, name ≠ DataType.arrayName element

theorem bracketFree_iff {name : String} : BracketFree name ↔ ¬"[]".toList <:+ name.toList := by
  rw [← not_iff_not, not_not]
  simp only [BracketFree, not_forall, not_not, DataType.arrayName]
  constructor
  · rintro ⟨element, rfl⟩
    exact ⟨element.toList, String.toList_append.symm⟩
  · rintro ⟨front, hfront⟩
    refine ⟨String.ofList front, String.toList_inj.mp ?_⟩
    rw [String.toList_append, String.toList_ofList, hfront]

instance : DecidablePred BracketFree := fun _ => decidable_of_iff _ bracketFree_iff.symm

namespace SyntaxTree

open Build in
/-- A type expression is known when its innermost name is, and nothing else can be wrong with it. -/
theorem TypeExpr.clean_resolve_iff {e : TypeExpr} {t : SymbolTable} :
    (∃ name u, e.resolve.Clean t name u) ↔ t.Knows e.innermost.name := by
  induction e generalizing t with
  | named name =>
    rw [SymbolTable.knows_iff_contains]
    constructor
    · rintro ⟨result, u, h⟩
      exact SymbolTable.knows_iff_contains.mp (yields_resolve_named.mp h.yields).1
    · intro h
      refine ⟨name.name, t, clean_bind.mpr ⟨true, t, ⟨⟨congrArg _ h, rfl⟩, rfl⟩, ?_⟩⟩
      exact clean_pure.mpr ⟨rfl, rfl⟩
  | array element ih =>
    rw [TypeExpr.innermost, ← ih]
    constructor
    · rintro ⟨result, u, h⟩
      obtain ⟨inner, s, hinner, -⟩ := clean_bind.mp h
      exact ⟨inner, s, hinner⟩
    · rintro ⟨inner, s, hinner⟩
      refine ⟨DataType.arrayName inner, s.internArray inner,
        clean_bind.mpr ⟨inner, s, hinner, clean_bind.mpr ⟨(), s.internArray inner, ?_, ?_⟩⟩⟩
      · exact clean_modify.mpr rfl
      · exact clean_pure.mpr ⟨rfl, rfl⟩

/-- The enum that an enum-like type is based on. -/
def TypeDecl.underlying? (d : TypeDecl) : Option String :=
  match d.definition with
  | .enumLike underlying _ => some underlying.name
  | _ => none

def Parameter.typeExprs (p : Parameter) : List TypeExpr := if p.isTarget then [] else [p.type]

def Statement.typeExprs : Statement → List TypeExpr
  | .variable d => [d.type]
  | .assignment .. | .action .. => []

def FunctionDecl.typeExprs (d : FunctionDecl) : List TypeExpr :=
  d.parameters.flatMap Parameter.typeExprs ++ d.returnType.toList

def FunctionDecl.bodyTypeExprs (d : FunctionDecl) : List TypeExpr :=
  (d.body.getD []).flatMap Statement.typeExprs

def Trigger.typeExprs (trigger : Trigger) : List TypeExpr := trigger.argumentTypes.getD []

def ShiftDecl.typeExprs (d : ShiftDecl) : List TypeExpr := d.functions.flatMap Trigger.typeExprs

def AnnotationDecl.typeExprs (d : AnnotationDecl) : List TypeExpr := d.parameters.map Parameter.type

/-- The type expressions in the head of an automaton: its own type and those of its variables. -/
def AutomatonDecl.headTypeExprs (d : AutomatonDecl) : List TypeExpr :=
  d.type :: (d.constructorVariables.map VariableDecl.type ++
    d.instanceVariables.map VariableDecl.type)

namespace Library

/-- All operations that a library declares: those inside of its automata, then those outside. -/
def allFunctions (l : Library) : List FunctionDecl :=
  l.automata.flatMap AutomatonDecl.functions ++ l.functions

theorem mem_allFunctions {l : Library} {d : FunctionDecl} :
    d ∈ l.allFunctions ↔ ∃ item ∈ l.placed, item.1 = d := by
  rw [allFunctions, List.mem_append, List.mem_flatMap]
  constructor
  · rintro (⟨a, ha, hd⟩ | hd)
    · obtain ⟨i, hi⟩ := List.mem_iff_getElem?.mp ha
      exact ⟨_, mem_placed.mpr (.inl ⟨i, a, hi, d, hd, rfl⟩), rfl⟩
    · exact ⟨_, mem_placed.mpr (.inr ⟨d, hd, rfl⟩), rfl⟩
  · rintro ⟨item, hitem, rfl⟩
    rcases mem_placed.mp hitem with ⟨i, a, ha, f, hf, rfl⟩ | ⟨f, hf, rfl⟩
    · exact .inl ⟨a, List.mem_of_getElem? ha, hf⟩
    · exact .inr hf

/-- The type expressions of a library, grouped by the pieces of work that look at them. -/
def typeExprs (l : Library) : List TypeExpr :=
  l.types.flatMap TypeDecl.mentioned ++ (l.annotations.flatMap AnnotationDecl.typeExprs ++
    (l.globals.map VariableDecl.type ++ (l.automata.flatMap AutomatonDecl.headTypeExprs ++
      (l.allFunctions.flatMap FunctionDecl.typeExprs ++
        (l.automata.flatMap fun d => d.shifts.flatMap ShiftDecl.typeExprs) ++
          l.allFunctions.flatMap FunctionDecl.bodyTypeExprs))))

/-- The names of types that a library declares or mentions. -/
def typeNames (l : Library) : List String :=
  l.types.map (fun d => d.name.name) ++ (l.types.filterMap TypeDecl.underlying? ++
    l.typeExprs.map fun e => e.innermost.name)

theorem mem_typeExprs {l : Library} {e : TypeExpr} :
    e ∈ l.typeExprs ↔ (∃ d ∈ l.types, e ∈ d.mentioned) ∨ (∃ d ∈ l.annotations, e ∈ d.typeExprs) ∨
      (∃ d ∈ l.globals, d.type = e) ∨ (∃ d ∈ l.automata, e ∈ d.headTypeExprs) ∨
        (∃ d ∈ l.allFunctions, e ∈ d.typeExprs) ∨
          (∃ d ∈ l.automata, ∃ s ∈ d.shifts, e ∈ s.typeExprs) ∨
            ∃ d ∈ l.allFunctions, e ∈ d.bodyTypeExprs := by
  simp only [typeExprs, List.mem_append, List.mem_flatMap, List.mem_map, or_assoc]

/-- No type that is declared or mentioned has the name of an array. -/
def BracketFree (l : Library) : Prop := ∀ name ∈ l.typeNames, LibraryContract.BracketFree name

theorem BracketFree.declared {l : Library} (h : l.BracketFree) {d : TypeDecl} (hd : d ∈ l.types) :
    LibraryContract.BracketFree d.name.name :=
  h _ (List.mem_append_left _ (List.mem_map_of_mem hd))

theorem BracketFree.mentioned {l : Library} (h : l.BracketFree) {e : TypeExpr}
    (he : e ∈ l.typeExprs) : LibraryContract.BracketFree e.innermost.name :=
  h _ (List.mem_append_right _ (List.mem_append_right _ (List.mem_map_of_mem he)))

theorem BracketFree.signature {l : Library} (h : l.BracketFree) {item : Placed}
    (hitem : item ∈ l.placed) :
    ∀ e ∈ item.1.typeExprs, LibraryContract.BracketFree e.innermost.name := fun _ he =>
  h.mentioned (mem_typeExprs.mpr (.inr (.inr (.inr (.inr (.inl
    ⟨item.1, mem_allFunctions.mpr ⟨item, hitem, rfl⟩, he⟩))))))

theorem BracketFree.body {l : Library} (h : l.BracketFree) {item : Placed}
    (hitem : item ∈ l.placed) :
    ∀ e ∈ item.1.bodyTypeExprs, LibraryContract.BracketFree e.innermost.name := fun _ he =>
  h.mentioned (mem_typeExprs.mpr (.inr (.inr (.inr (.inr (.inr (.inr
    ⟨item.1, mem_allFunctions.mpr ⟨item, hitem, rfl⟩, he⟩)))))))

theorem BracketFree.shifts {l : Library} (h : l.BracketFree) {d : AutomatonDecl}
    (hd : d ∈ l.automata) :
    ∀ e ∈ d.shifts.flatMap ShiftDecl.typeExprs, LibraryContract.BracketFree e.innermost.name := by
  intro e he
  obtain ⟨s, hs, he⟩ := List.mem_flatMap.mp he
  exact h.mentioned (mem_typeExprs.mpr (.inr (.inr (.inr (.inr (.inr (.inl ⟨d, hd, s, hs, he⟩)))))))

/-- The same declarations in another order; the operations outside of automata keep theirs. -/
structure Reorders (l l' : Library) : Prop where
  declarations : l.declarations.Perm l'.declarations
  functions : l.functions = l'.functions

namespace Reorders

variable {l l' : Library}

theorem symm (h : l.Reorders l') : l'.Reorders l := ⟨h.declarations.symm, h.functions.symm⟩

theorem types (h : l.Reorders l') : l.types.Perm l'.types := h.declarations.filterMap _

theorem annotations (h : l.Reorders l') : l.annotations.Perm l'.annotations :=
  h.declarations.filterMap _

theorem globals (h : l.Reorders l') : l.globals.Perm l'.globals := h.declarations.filterMap _

theorem automata (h : l.Reorders l') : l.automata.Perm l'.automata := h.declarations.filterMap _

theorem allFunctions (h : l.Reorders l') : l.allFunctions.Perm l'.allFunctions := by
  rw [Library.allFunctions, Library.allFunctions, h.functions]
  exact (h.automata.flatMap_right _).append_right _

theorem typeExprs (h : l.Reorders l') : l.typeExprs.Perm l'.typeExprs := by
  refine (h.types.flatMap_right _).append ((h.annotations.flatMap_right _).append
    ((h.globals.map _).append ((h.automata.flatMap_right _).append ?_)))
  exact ((h.allFunctions.flatMap_right _).append (h.automata.flatMap_right _)).append
    (h.allFunctions.flatMap_right _)

theorem typeNames (h : l.Reorders l') : l.typeNames.Perm l'.typeNames :=
  (h.types.map _).append ((h.types.filterMap _).append (h.typeExprs.map _))

end Reorders

end Library

end SyntaxTree

end LibraryContract
