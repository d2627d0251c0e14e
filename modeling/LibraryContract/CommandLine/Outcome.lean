/-!
# Outcomes of a call

What one call of the program leaves behind: its exit code and what it printed. An error that comes
with a cause names it after a blank line and a mark. Causes are told in the words of the system at
hand, so an outcome also has a form without them, which is the same on every system.
-/

namespace LibraryContract

namespace CommandLine

/-- What a call leaves behind. -/
structure Outcome where
  code : Nat
  stdout : String
  stderr : String
deriving DecidableEq, Repr

namespace Outcome

/-- The blank line and the words that stand between an error and its cause. -/
def causeMark : String := "\n\nCaused by:"

/-- The outcome of bad usage. -/
def usage : Outcome := ⟨2, "", "usage"⟩

/-- The outcome of a problem with a file, which is told with its cause. -/
def unreadable (message cause : String) : Outcome :=
  ⟨1, "", s!"Error: {message}{causeMark}\n    {cause}\n"⟩

/-- The outcome of a call that stopped in the middle of its reports. -/
def stopped (stdout stderr : String) : Outcome := ⟨101, stdout, stderr⟩

/-- The characters before the first place where a mark begins, or all of them when it begins
nowhere, after those that have been read in reverse. -/
def readUpTo (mark reversed : List Char) : List Char → List Char
  | [] => reversed.reverse
  | c :: rest =>
    if mark.isPrefixOf (c :: rest) then reversed.reverse else readUpTo mark (c :: reversed) rest

/-- An outcome whose errors end where the first cause would be told. -/
def withoutCauses (o : Outcome) : Outcome :=
  { o with stderr := String.ofList (readUpTo causeMark.toList [] o.stderr.toList) }

end Outcome

end CommandLine

end LibraryContract
