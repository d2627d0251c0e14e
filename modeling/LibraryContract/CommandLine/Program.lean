import LibraryContract.CommandLine.Arguments
import LibraryContract.CommandLine.Outcome
import LibraryContract.Report.Basic
import LibraryContract.Text.Lines
import LibraryContract.SyntaxTree.Decode
import LibraryContract.SyntaxTree.Outline

/-!
# The command line program

The work of one call, as a function of its arguments and of the texts of the files that it reads:
read the input, read the tree in it, read the source, analyse, print the diagnostics, and print
what was asked for when there are no errors.
-/

namespace LibraryContract

namespace CommandLine

/-- What is printed for a library. -/
def emit (l : Library) : Emission → String
  | .summary => Report.summary l
  | .debug => Report.listing l

/-- What is said about a library that was not compiled, after `count` errors. -/
def failureText (e : CompileError) (count : Nat) : String :=
  if 0 < count then s!"{e.message} with {count} error(s)" else e.message

/-- Analyses a tree and reports about it. Messages name the file `path`, whose lines are
`source`. The call stops at a diagnostic whose underline no text can hold. -/
def report (a : Arguments) (path : String) (source : List (List Char)) (tree : SyntaxTree.Library) :
    Outcome :=
  let (result, session) := (Session.start ⟨!a.lenientOwnership⟩).compile tree
  let dump := if a.dumpSyntax then tree.outline.render else ""
  let written := session.diagnostics.takeWhile (Report.isWritable source)
  let diagnostics := String.join (written.map (Report.diagnosticText path source))
  match session.diagnostics.dropWhile (Report.isWritable source), result with
  | d :: _, _ => .stopped dump (diagnostics ++ Report.headText path d)
  | [], .ok l => ⟨0, dump ++ String.join (a.emissions.map (emit l)), diagnostics⟩
  | [], .error e =>
    let count := Diagnostics.errorCount session.diagnostics
    ⟨1, dump, diagnostics ++ s!"Error: {failureText e count}\n"⟩

/-- The source of a tree, with the path that messages name: the source file when one is given,
and otherwise the input without its lines. A source that cannot be read ends the call. -/
def sourceOf (read : String → Except String String) (input : String) :
    Option String → Except Outcome (String × List (List Char))
  | none => .ok (input, [])
  | some path =>
    match read path with
    | .ok text => .ok (path, Text.lines text)
    | .error cause => .error (.unreadable s!"failed to read {path}" cause)

/-- Checks the input file. -/
def check (read : String → Except String String) (a : Arguments) (input : String) : Outcome :=
  match read input with
  | .error cause => .unreadable s!"failed to read {input}" cause
  | .ok text =>
    match SyntaxTree.Library.ofText text with
    | .error e => .unreadable s!"failed to parse syntax tree {input}" e.message
    | .ok tree =>
      match sourceOf read input a.source with
      | .error outcome => outcome
      | .ok (path, source) => report a path source tree

/-- A whole call. A file has a text, or there is a cause why it cannot be read. -/
def run (read : String → Except String String) (arguments : List String) : Outcome :=
  match Arguments.ofList? arguments with
  | none => .usage
  | some a =>
    match a.input with
    | none => .usage
    | some input => check read a input

end CommandLine

end LibraryContract
