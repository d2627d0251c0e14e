import LibraryContract.Analysis.Run

/-!
# Sessions

A session analyses one library after another and keeps all diagnostics. Each analysis starts from
an empty symbol table, so libraries do not see each other; but all of them add to the one list of
diagnostics, so once an error has been found, every later `compile` in the session fails.
-/

namespace LibraryContract

/-- A library after its analysis. -/
structure Library where
  name : String
  lslVersion : Option String
  libraryVersion : Option String
  language : Option String
  url : Option String
  imports : List String
  includes : List String
  table : SymbolTable

/-- What a library says about itself, with the table of its names. -/
def Library.ofTree (l : SyntaxTree.Library) (table : SymbolTable) : Library where
  name := l.name.name
  lslVersion := l.lslVersion
  libraryVersion := l.libraryVersion
  language := l.language
  url := l.url
  imports := l.imports
  includes := l.includes
  table := table

/-- Why a library was not compiled. -/
inductive CompileError
  | malformed (error : Malformed)
  /-- Errors have been reported. -/
  | semantic
deriving DecidableEq, Repr

def CompileError.message : CompileError → String
  | .malformed error => error.text
  | .semantic => "Semantic analysis failed"

/-- The options of a session and everything that was found in it. -/
structure Session where
  options : Options
  diagnostics : Diagnostics

namespace Session

/-- A session in which nothing has been analysed. -/
def start (options : Options) : Session := ⟨options, []⟩

/-- Analyses a library. It comes out even with errors, unless its tree is malformed. -/
def analyze (s : Session) (library : SyntaxTree.Library) : Except Malformed Library × Session :=
  let r := Run.analyzeAfter s.diagnostics s.options library
  let s := { s with diagnostics := r.diagnostics }
  match r.malformed with
  | some m => (.error m, s)
  | none => (.ok (.ofTree library r.table), s)

/-- Analyses a library and fails when there is any error in the session. -/
def compile (s : Session) (library : SyntaxTree.Library) : Except CompileError Library × Session :=
  let (result, s) := s.analyze library
  match result with
  | .error m => (.error (.malformed m), s)
  | .ok library =>
    if s.diagnostics.hasErrors then (.error .semantic, s) else (.ok library, s)

end Session

end LibraryContract
