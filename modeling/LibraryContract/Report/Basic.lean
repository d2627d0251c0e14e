import LibraryContract.Report.Excerpt
import LibraryContract.Session

/-!
# Reports

What a user gets to read: a diagnostic with its place in the source, and a library in short form.
-/

namespace LibraryContract

namespace Report

/-- The source line of a place. -/
def lineAt? (source : List (List Char)) (span : Span) : Option (List Char) :=
  if span.line = 0 then none else source[span.line.toNat - 1]?

/-- Where a place is; a place without a line says nothing. -/
def locationText (path : String) (span : Span) : String :=
  if span.line = 0 then "" else s!"  --> {path}:{span.line}:{span.column}\n"

/-- The source line under a diagnostic, with its place underlined, when the source has that line. -/
def excerptText (source : List (List Char)) (span : Span) : String :=
  ((lineAt? source span).map fun line => Excerpt.render line span).getD ""

/-- A diagnostic about the file `path`, without an excerpt. -/
def headText (path : String) (d : Diagnostic) : String :=
  s!"{d.level.describe}[{d.kind.describe}]: {d.message}\n" ++
    (d.span.map (locationText path)).getD ""

/-- A diagnostic about the file `path` with the lines `source`. -/
def diagnosticText (path : String) (source : List (List Char)) (d : Diagnostic) : String :=
  headText path d ++ (d.span.map (excerptText source)).getD ""

/-- Whether the excerpt of a diagnostic, if there is one, can be written. -/
def isWritable (source : List (List Char)) (d : Diagnostic) : Bool :=
  ((d.span.bind fun span => (lineAt? source span).map fun line => Excerpt.fits line span)).getD true

/-- A shift with the operations that cause it. -/
def shiftText (t : SymbolTable) (s : Shift) : String :=
  let functions := s.functions.map fun id => ((t.operation? id).map fun o => o.displayName).getD ""
  s!"  {s.source.describe} -> {s.target.describe} (" ++ ", ".intercalate functions ++ ")\n"

/-- An automaton with its shifts. -/
def automatonText (t : SymbolTable) (a : Automaton) : String :=
  s!"automaton {a.name} : {a.type} (states: {a.states.size}, shifts: {a.shifts.length}, " ++
    s!"functions: {a.functions.length}, constructors: {a.constructors.length}, " ++
    s!"destructors: {a.destructors.length}, procedures: {a.procedures.length})\n" ++
    String.join (a.shifts.map (shiftText t))

/-- A library in short form: its name and version, then its automata. -/
def summary (l : Library) : String :=
  let version :=
    match l.libraryVersion with
    | some version => " " ++ version
    | none => ""
  s!"library {l.name}{version}\n" ++ String.join (l.table.automata.map (automatonText l.table))

/-- The names in a library: every type in words, then annotations, global variables, automata and
operations. -/
def names (l : Library) : List String :=
  let t := l.table
  t.types.toList.map DataType.describe ++ t.annotations.keys ++ t.globals.keys ++
    t.automata.map Automaton.name ++ t.operations.map fun o => o.displayName

/-- A library as a list of its names. -/
def listing (l : Library) : String := String.join ((names l).map fun name => name ++ "\n")

end Report

end LibraryContract
