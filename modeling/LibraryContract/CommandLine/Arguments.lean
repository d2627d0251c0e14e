/-!
# Arguments of the command line

`<input> [--source PATH] [--dump-syntax] [--emit summary|debug]... [--lenient-ownership]`

Options may stand before or after the input, a value may follow its option after `=`, and all
arguments after `--` are inputs. Everything else is bad usage, and so are a missing input, a second
one, and an option other than `--emit` given twice.
-/

namespace LibraryContract

namespace CommandLine

/-- What is printed after a successful run. -/
inductive Emission
  /-- The automata, each with its shifts. -/
  | summary
  /-- The names of everything that was declared. -/
  | debug
deriving DecidableEq, Repr

/-- The arguments read so far. -/
structure Arguments where
  input : Option String
  source : Option String
  dumpSyntax : Bool
  lenientOwnership : Bool
  emissions : List Emission
deriving DecidableEq, Repr

namespace Arguments

def none : Arguments := ⟨.none, .none, false, false, []⟩

/-- Whether an argument is a value and not an option. A single dash is a value. -/
def isValue (argument : String) : Bool := !argument.startsWith "-" || argument == "-"

/-- One more input. -/
def addInput? (a : Arguments) (path : String) : Option Arguments :=
  if a.input.isSome || path.isEmpty then .none else some { a with input := some path }

/-- The path of the source. -/
def addSource? (a : Arguments) (path : String) : Option Arguments :=
  if a.source.isSome || path.isEmpty then .none else some { a with source := some path }

/-- One more thing to print. -/
def addEmission? (a : Arguments) (word : String) : Option Arguments :=
  match word with
  | "summary" => some { a with emissions := a.emissions ++ [.summary] }
  | "debug" => some { a with emissions := a.emissions ++ [.debug] }
  | _ => .none

/-- An option without a value. -/
def addFlag? (a : Arguments) (name : String) : Option Arguments :=
  match name with
  | "--dump-syntax" => if a.dumpSyntax then .none else some { a with dumpSyntax := true }
  | "--lenient-ownership" =>
    if a.lenientOwnership then .none else some { a with lenientOwnership := true }
  | _ => .none

/-- An option with its value. -/
def addOption? (a : Arguments) (name value : String) : Option Arguments :=
  match name with
  | "--source" => a.addSource? value
  | "--emit" => a.addEmission? value
  | _ => .none

/-- The name of an option that is written together with its value, and the value. -/
def splitOption? (argument : String) : Option (String × String) :=
  let cs := argument.toList
  match cs.dropWhile fun c => c != '=' with
  | [] => .none
  | _ :: value => some (String.ofList (cs.takeWhile fun c => c != '='), String.ofList value)

/-- The arguments after `--`. -/
def addInputs? (a : Arguments) : List String → Option Arguments
  | [] => some a
  | path :: rest => (a.addInput? path).bind fun a => a.addInputs? rest

/-- Reads arguments after those that gave `a`. -/
def readMore? (a : Arguments) : List String → Option Arguments
  | [] => some a
  | "--" :: rest => a.addInputs? rest
  | argument :: rest =>
    if isValue argument then (a.addInput? argument).bind fun a => a.readMore? rest
    else
      match splitOption? argument with
      | some (name, value) => (a.addOption? name value).bind fun a => a.readMore? rest
      | .none =>
        if argument = "--source" ∨ argument = "--emit" then
          match rest with
          | value :: rest =>
            if isValue value then (a.addOption? argument value).bind fun a => a.readMore? rest
            else .none
          | [] => .none
        else (a.addFlag? argument).bind fun a => a.readMore? rest

def ofList? (arguments : List String) : Option Arguments := none.readMore? arguments

end Arguments

end CommandLine

end LibraryContract
