/-!
# Places in a source text

Every node of a syntax tree may carry the place it was read from. Lines and columns count from
one; a node without a place has zeros everywhere.
-/

namespace LibraryContract

/-- The first and the last character of a piece of source text. -/
structure Span where
  line : UInt64
  column : UInt64
  endLine : UInt64
  endColumn : UInt64
deriving DecidableEq, Repr

namespace Span

/-- The place of a node that came without one. -/
def unknown : Span := ⟨0, 0, 0, 0⟩

/-- The place of a single character. -/
def point (line column : UInt64) : Span := ⟨line, column, line, column⟩

instance : Inhabited Span := ⟨unknown⟩

end Span

end LibraryContract
