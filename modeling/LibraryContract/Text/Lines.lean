/-!
# Lines of a text

A line ends at a line feed, and a carriage return before the line feed belongs to the line end.
Nothing follows a line feed at the end of a text, not even an empty line.
-/

namespace LibraryContract

namespace Text

/-- Characters in reverse without the carriage return that came last. -/
def dropReturn : List Char → List Char
  | '\r' :: rest => rest
  | cs => cs

/-- The lines of a text of which `reversed` has been read since the last line feed. -/
def splitLines (reversed : List Char) : List Char → List (List Char)
  | [] => if reversed.isEmpty then [] else [reversed.reverse]
  | '\n' :: rest => (dropReturn reversed).reverse :: splitLines [] rest
  | c :: rest => splitLines (c :: reversed) rest

def lines (text : String) : List (List Char) := splitLines [] text.toList

end Text

end LibraryContract
