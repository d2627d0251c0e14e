import LibraryContract.CommandLine.Directory
import LibraryContract.CommandLine.Program

/-!
# Entry point of the command line program

Reads the files that the arguments name and hands their texts to `CommandLine.run`.
-/

open LibraryContract

/-- The text of a file, or the cause why it cannot be read. -/
def LibraryContract.CommandLine.readFile (path : String) : IO (Except String String) := do
  try
    return .ok (← IO.FS.readFile path)
  catch e => return .error (toString e)

/-- Runs the program with the arguments of the process. -/
def main (arguments : List String) : IO UInt32 := do
  let paths :=
    match CommandLine.Arguments.ofList? arguments with
    | some a => a.input.toList ++ a.source.toList
    | none => []
  let files ← paths.mapM fun path => return (path, ← CommandLine.readFile path)
  let read path := (files.lookup path).getD (.error "it was not looked for")
  let outcome := CommandLine.run read arguments
  IO.print outcome.stdout
  IO.eprint outcome.stderr
  return outcome.code.toUInt32
