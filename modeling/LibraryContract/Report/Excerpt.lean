import LibraryContract.Span

/-!
# Excerpts of a source

A line of a source text under its number, with a place in it underlined. Columns count characters,
while the line is shown with four spaces for a tab.

A place that ends on its own line is underlined by the difference of its columns; a place that
goes on to another line is underlined to the end of this one. At least one cell is underlined.
-/

namespace LibraryContract

namespace Excerpt

/-- Characters as they are shown: a tab takes four cells. -/
def expandTabs (cs : List Char) : List Char :=
  cs.flatMap fun c => if c = '\t' then [' ', ' ', ' ', ' '] else [c]

/-- The number of characters before a place. -/
def offset (span : Span) : Nat := span.column.toNat - 1

/-- The number of cells before the underline. -/
def indentWidth (line : List Char) (span : Span) : Nat :=
  (expandTabs (line.take (offset span))).length

/-- The number of columns of a place that ends on its own line, counted in 64 bits: both ends
belong to it, and of all places only the one from column zero to the last column there is has more
columns than can be counted, so that the count comes back to zero. -/
def columnCount (span : Span) : UInt64 :=
  UInt64.ofNat (span.endColumn.toNat - span.column.toNat) + 1

/-- The number of cells in the underline. -/
def underlineWidth (line : List Char) (span : Span) : Nat :=
  let width :=
    if span.endLine = span.line then (columnCount span).toNat else line.length - offset span
  max width 1

/-- A number of cells that no text can have, two to the sixty-third. -/
def cellLimit : Nat := 0x8000000000000000

/-- Whether the underline can be written at all. -/
def fits (line : List Char) (span : Span) : Bool := decide (underlineWidth line span < cellLimit)

/-- The text of `n` times the same character. -/
def repeated (c : Char) (n : Nat) : String := String.ofList (List.replicate n c)

/-- A source line with the place in it underlined. -/
def render (line : List Char) (span : Span) : String :=
  let number := toString span.line.toNat
  let gutter := repeated ' ' number.length
  let underline := repeated ' ' (indentWidth line span) ++ repeated '^' (underlineWidth line span)
  gutter ++ " |\n" ++ number ++ " | " ++ String.ofList (expandTabs line) ++ "\n" ++
    gutter ++ " | " ++ underline ++ "\n"

end Excerpt

end LibraryContract
