/-!
# Directories

A directory of texts under relative paths, and how a path finds its way into it: empty steps and
single dots lead nowhere.
-/

namespace LibraryContract

namespace CommandLine

/-- Texts under their paths. -/
structure Directory where
  files : List (String × String)
deriving DecidableEq, Repr

namespace Directory

/-- The steps of a path. -/
def steps (path : String) : List String :=
  (path.splitOn "/").filter fun s => !s.isEmpty && s != "."

/-- Whether a path leads from here to a file: it does not start at the root, and it does not end
like the path of a directory. -/
def isFilePath (path : String) : Bool :=
  !path.startsWith "/" && !path.endsWith "/" && !path.endsWith "/." && path != "."

/-- The text of the file at a path, if there is one. -/
def text? (d : Directory) (path : String) : Option String :=
  if isFilePath path then (d.files.find? fun f => decide (steps f.1 = steps path)).map Prod.snd
  else none

/-- The text of the file at a path, or the cause why there is none. -/
def read (d : Directory) (path : String) : Except String String :=
  match d.text? path with
  | some text => .ok text
  | none => .error "there is no such file"

end Directory

end CommandLine

end LibraryContract
