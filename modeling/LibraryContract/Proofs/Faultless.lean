import LibraryContract.Proofs.Candid
import LibraryContract.Proofs.Ledger

/-!
# Analyses without errors

An analysis that reports no error has come to the end of each piece of its work. Its phases are then
plain programs that end well, one after the other, and nothing of the library has been left out.

* `Run.clean_withAutomata`, `Run.clean_analyze`: all phases of a faultless analysis have run cleanly;
* `Run.clean_of_compile`: so have those of a library that compiles.
-/

namespace LibraryContract

open SyntaxTree Build

namespace Run

/-- The initial values and the shifts of an automaton, as one piece of work. -/
def completeAutomaton (a : PendingAutomaton) : Build Unit := do
  let _ ← a.initializers.mapM (PendingInitializer.elaborate (.inAutomaton a.id))
  let _ ← a.declaration.shifts.mapM fun shift => shift.elaborate a.id

/-- The phases that register types, annotations, variables and automata have come to their end and
have found no error. -/
structure DeclaresCleanly (library : SyntaxTree.Library) : Prop where
  types : ∃ t done checked, (library.types.mapM TypeDecl.declare).Clean .empty done t ∧
    (library.types.mapM TypeDecl.validate).Clean t checked (withTypes library).table
  annotations : ∃ done, (library.annotations.mapM AnnotationDecl.declare).Clean
    (withTypes library).table done (withAnnotations library).table
  globals : ∃ done, (library.globals.mapM (VariableDecl.declare .global)).Clean
    (withAnnotations library).table done (withGlobals library).2.table
  pendingGlobals : (withGlobals library).1 = library.globals.filterMap (VariableDecl.pending .global)
  automata : (library.automata.mapM AutomatonDecl.declare).Clean (withGlobals library).2.table
    (withAutomata library).1 (withAutomata library).2.table

/-- Every phase has come to its end and has found no error. -/
structure RunsCleanly (options : Options) (library : SyntaxTree.Library) : Prop
    extends DeclaresCleanly library where
  signatures : ((placed library).mapM (enter options)).Clean (withAutomata library).2.table
    (ledger options library) (withSignatures options library).2.table
  pendingOperations : (withSignatures options library).1 =
    (ledger options library).foldl (fun operations e => recordOperation operations e.1 e.2.1) []
  initials : ∃ done, ((withGlobals library).1.mapM (PendingInitializer.elaborate .global)).Clean
    (withSignatures options library).2.table done (withInitials options library).table
  shifts : ∃ done, ((withAutomata library).1.mapM completeAutomaton).Clean
    (withInitials options library).table done (withShifts options library).table
  bodies : ∃ done, ((withSignatures options library).1.mapM fun o : PendingOperation =>
      o.declaration.elaborate o.id).Clean
    (withShifts options library).table done (analyze options library).table

theorem candid_enter (options : Options) (item : Placed) : (enter options item).Candid :=
  candid_bind (item.1.candid_register options item.2) fun _ => candid_pure _

theorem clean_elaborateAutomaton {r : Run} {a : PendingAutomaton}
    (h : (elaborateAutomaton r a).Faultless) :
    r.Faultless ∧ (completeAutomaton a).Clean r.table () (elaborateAutomaton r a).table := by
  obtain ⟨hmiddle, shifts, hshifts⟩ :=
    clean_performAll (fun shift : ShiftDecl => shift.candid_elaborate a.id) h
  obtain ⟨hr, values, hvalues⟩ :=
    clean_performAll (fun p : PendingInitializer => p.candid_elaborate (.inAutomaton a.id)) hmiddle
  refine ⟨hr, clean_bind.mpr ⟨values, _, hvalues, clean_bind.mpr ⟨shifts, _, hshifts, ?_⟩⟩⟩
  exact clean_pure.mpr ⟨rfl, rfl⟩

theorem clean_elaborateAutomata {automata : List PendingAutomaton} {r : Run}
    (h : (automata.foldl elaborateAutomaton r).Faultless) :
    r.Faultless ∧ ∃ done, (automata.mapM completeAutomaton).Clean r.table done
      (automata.foldl elaborateAutomaton r).table := by
  induction automata generalizing r with
  | nil => exact ⟨h, [], clean_mapM_nil.mpr ⟨rfl, rfl⟩⟩
  | cons a rest ih =>
    obtain ⟨ha, done, hdone⟩ := ih h
    obtain ⟨hr, hclean⟩ := clean_elaborateAutomaton ha
    exact ⟨hr, () :: done, clean_mapM_cons.mpr ⟨(), _, done, hclean, hdone, rfl⟩⟩

/-- The phases up to the registration of the automata have all run cleanly. -/
theorem clean_withAutomata {library : SyntaxTree.Library} (h : (withAutomata library).2.Faultless) :
    DeclaresCleanly library := by
  obtain ⟨hglobals, hautomata⟩ := clean_collect (fun d => AutomatonDecl.candid_declare d) h
  have hkeep : ∀ d : VariableDecl, (d.declare .global >>= fun _ => Pure.pure d).Candid :=
    fun d => candid_bind (d.candid_declare _) fun _ => candid_pure _
  obtain ⟨hannotations, hglobals⟩ := clean_collect hkeep hglobals
  obtain ⟨hpending, globals, hglobals⟩ := clean_mapM_return hglobals
  obtain ⟨htypes, annotations, hannotations⟩ :=
    clean_performAll (fun d => AnnotationDecl.candid_declare d) hannotations
  obtain ⟨hdeclared, checked, hchecked⟩ :=
    clean_performAll (fun d => TypeDecl.candid_validate d) htypes
  have hkeep : ∀ d : TypeDecl, (d.declare >>= fun _ => Pure.pure d).Candid :=
    fun d => candid_bind d.candid_declare fun _ => candid_pure _
  obtain ⟨-, hdeclared⟩ := clean_collect hkeep hdeclared
  obtain ⟨haccepted, types, htypes⟩ := clean_mapM_return hdeclared
  have hchecked : (List.mapM TypeDecl.validate _).Clean _ checked (withTypes library).table := hchecked
  rw [haccepted] at hchecked
  refine ⟨⟨_, types, checked, htypes, hchecked⟩, ⟨annotations, hannotations⟩, ⟨globals, hglobals⟩,
    ?_, hautomata⟩
  exact congrArg (List.filterMap (VariableDecl.pending .global)) hpending

/-- The phases of an analysis without errors have all run cleanly. -/
theorem clean_analyze {options : Options} {library : SyntaxTree.Library}
    (h : (analyze options library).Faultless) : RunsCleanly options library := by
  rw [analyze_eq] at h
  obtain ⟨hshifts, bodies, hbodies⟩ :=
    clean_performAll (fun o : PendingOperation => o.declaration.candid_elaborate o.id) h
  obtain ⟨hinitials, shifts, hshifts⟩ := clean_elaborateAutomata hshifts
  obtain ⟨hsignatures, initials, hinitials⟩ :=
    clean_performAll (fun p : PendingInitializer => p.candid_elaborate .global) hinitials
  have hledger : withSignatures options library = _ := registerSignatures_eq _ _ _ _
  rw [hledger] at hsignatures
  obtain ⟨hautomata, hsignatures⟩ := clean_collect (candid_enter options) hsignatures
  refine ⟨clean_withAutomata hautomata, ?_, ?_, ⟨initials, hinitials⟩, ⟨shifts, hshifts⟩,
    ⟨bodies, hbodies⟩⟩
  · rw [hledger]
    exact hsignatures
  · rw [hledger]
    rfl

/-- The phases of the analysis of a library that compiles have all run cleanly. -/
theorem clean_of_compile {options : Options} {library : SyntaxTree.Library} {l : Library}
    (h : ((Session.start options).compile library).1 = .ok l) :
    RunsCleanly options library ∧ l = .ofTree library (analyze options library).table := by
  obtain ⟨hfaultless, hl⟩ := Session.compile_eq_ok h
  exact ⟨clean_analyze hfaultless, hl⟩

end Run

/-! ## A library without errors -/

namespace Sample

/-- A location on a line. -/
def path (names : List String) (line : UInt64) : Chain :=
  ⟨names.map fun name => .name (.onLine name line), .onLine line⟩

/-- The value of a location. -/
def read (names : List String) (line : UInt64) : Expr := .access (path names line) (.onLine line)

def lock : AutomatonDecl where
  name := .onLine "Lock" 10
  type := .onLine "Int" 10
  constructorVariables := [⟨.onLine "owner" 11, .onLine "Int" 11, none⟩]
  states := [⟨.onLine "Idle" 12, .initial⟩]
  instanceVariables := []
  shifts := []
  functions := []
  span := .onLine 10

/-- A function `turn` that takes and returns a number. -/
def turn (automaton : Option Identifier) (contracts : List ContractDecl)
    (body : Option (List SyntaxTree.Statement)) (line : UInt64) : FunctionDecl where
  kind := .function
  automaton := automaton
  name := some (.onLine "turn" line)
  parameters := [⟨.onLine "times" line, .onLine "Int" line, [⟨.onLine "unit" line, [read ["limit"] line]⟩]⟩]
  returnType := some (.onLine "Count" line)
  annotations := []
  contracts := contracts
  body := body
  span := .onLine line

def door : AutomatonDecl where
  name := .onLine "Door" 20
  type := .onLine "Handle" 20
  constructorVariables := []
  states := [⟨.onLine "Open" 21, .initial⟩, ⟨.onLine "Shut" 21, .finish⟩]
  instanceVariables :=
    [⟨.onLine "count" 22, .onLine "Int" 22, some (read ["limit"] 22)⟩,
      ⟨.onLine "place" 23, .onLine "Point" 23, none⟩]
  shifts :=
    [⟨[.onLine "Open" 24, .onLine "Shut" 24], some (.onLine "self" 24),
      [⟨.onLine "turn" 24, none⟩], .onLine 24⟩]
  functions := [turn none [] none 25]
  span := .onLine 20

/-- The contract and the body that `turn` gets after its declaration. -/
def turning : FunctionDecl :=
  turn (some (.onLine "Door" 30))
    [⟨some (.onLine "bounded" 31), .ensures,
      .binary "<=" (.old (path ["count"] 31) (.onLine 31)) (read ["result"] 31) (.onLine 31),
      .onLine 31⟩]
    (some
      [.variable ⟨.onLine "next" 32, .onLine "Int" 32, some (read ["times"] 32)⟩,
        .assignment (path ["place", "x"] 33) (some (read ["next"] 33)) none (.onLine 33),
        .assignment (path ["count"] 34) none
          (some ⟨.onLine "Lock" 34,
            [⟨.onLine "state" 34, read ["Idle"] 34⟩, ⟨.onLine "owner" 34, read ["next"] 34⟩],
            .onLine 34⟩)
          (.onLine 34),
        .action (.onLine "wait" 35) [read ["count"] 35] (.onLine 35)])
    30

/-- A library with a declaration of every kind, and a function that is declared before it is
defined. -/
def library : SyntaxTree.Library :=
  .ofDeclarations "Door"
    [.typeDecl ⟨.onLine "Int" 2, .simple⟩,
      .typeDecl ⟨.onLine "Handle" 3, .real⟩,
      .typeDecl ⟨.onLine "Count" 4, .alias (.onLine "Int" 4)⟩,
      .typeDecl ⟨.onLine "Point" 5, .structured
        [⟨.onLine "x" 5, .onLine "Int" 5⟩, ⟨.onLine "more" 5, .array (.onLine "Count" 5)⟩]⟩,
      .annotationDecl ⟨.onLine "unit" 6, [⟨.onLine "scale" 6, .onLine "Int" 6, []⟩]⟩,
      .variableDecl ⟨.onLine "limit" 7, .onLine "Int" 7,
        some (.literal (.integer 3) (.onLine 7))⟩,
      .automatonDecl lock,
      .automatonDecl door,
      .functionDecl turning]

theorem library_compiles : ∃ l, ((Session.start .standard).compile library).1 = .ok l := by
  have hok : ((Session.start .standard).compile library).1.isOk = true := by decide +kernel
  cases hl : ((Session.start .standard).compile library).1 with
  | error e =>
    rw [hl] at hok
    cases hok
  | ok l => exact ⟨l, rfl⟩

theorem library_analyzes : ((Session.start .standard).analyze library).1 =
    .ok (.ofTree library (Run.analyze .standard library).table) :=
  Session.analyze_eq_ok.mpr ⟨by decide +kernel, rfl⟩

end Sample

end LibraryContract
