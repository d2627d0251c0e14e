import LibraryContract.Report.Basic
import LibraryContract.Text.Lines
import Mathlib.Tactic.ByContra

/-!
# What an excerpt underlines

A diagnostic is shown with its source line and a row of marks under it. The line is shown with four
cells for a tab, so a column of the source and a cell of the screen are different things, and what
a reader expects to be marked are the cells of the characters in the columns of the place.

* `expandTabs_length`: a text takes one cell for each character and three more for each tab.
* `wanted_iff`: the cells to be marked are those from the first character of the place to the last
  one that the line has.
* `drawn_excerptText`: the rows of an excerpt, with the marks as long as the place has columns.
* `underline_exact_iff`: the marks start where they should, and no count goes beyond its bounds. On
  one line they are as many as the columns of the place, also where the line has ended, and a tab
  under them counts for one: they cover what they should exactly when the columns after the end of
  the line make up for the tabs.
-/

namespace LibraryContract

namespace Excerpt

/-! ## Cells -/

/-- The cell in which the character after the first `n` of a line starts. -/
def cellOf (line : List Char) (n : Nat) : Nat := (expandTabs (line.take n)).length

theorem expandTabs_append (cs ds : List Char) :
    expandTabs (cs ++ ds) = expandTabs cs ++ expandTabs ds := List.flatMap_append

/-- A text takes one cell for each character and three more for each tab. -/
theorem expandTabs_length (cs : List Char) :
    (expandTabs cs).length = cs.length + 3 * cs.count '\t' := by
  induction cs with
  | nil => rfl
  | cons c cs ih =>
    rw [← List.singleton_append, expandTabs_append, List.length_append, ih]
    by_cases htab : c = '\t'
    · subst htab
      simp [expandTabs]
      omega
    · simp [expandTabs, htab]
      omega

theorem cellOf_mono (line : List Char) {m n : Nat} (h : m ≤ n) : cellOf line m ≤ cellOf line n := by
  obtain ⟨k, rfl⟩ := Nat.exists_eq_add_of_le h
  rw [cellOf, cellOf, List.take_add, expandTabs_append, List.length_append]
  exact Nat.le_add_right _ _

/-- The cells of the characters from the first one on: one each, and three more for each tab. -/
theorem cellOf_eq_add (line : List Char) {m n : Nat} (hmn : m ≤ n) (hn : n ≤ line.length) :
    cellOf line n = cellOf line m + (n - m) + 3 * ((line.drop m).take (n - m)).count '\t' := by
  obtain ⟨k, rfl⟩ := Nat.exists_eq_add_of_le hmn
  rw [cellOf, cellOf, List.take_add, expandTabs_append, List.length_append,
    expandTabs_length ((line.drop m).take k), Nat.add_sub_cancel_left, List.length_take,
    List.length_drop, Nat.min_eq_left (by omega)]
  omega

/-- Every cell between two characters belongs to a character between them. -/
theorem exists_cell (line : List Char) {m n p : Nat} (hm : cellOf line m ≤ p)
    (hn : p < cellOf line n) :
    ∃ k, m ≤ k ∧ k < n ∧ cellOf line k ≤ p ∧ p < cellOf line (k + 1) := by
  induction n with
  | zero =>
    have := cellOf_mono line (Nat.zero_le m)
    omega
  | succ n ih =>
    by_cases hp : p < cellOf line n
    · obtain ⟨k, hmk, hkn, hk⟩ := ih hp
      exact ⟨k, hmk, by omega, hk⟩
    · refine ⟨n, ?_, by omega, by omega, hn⟩
      by_contra hlt
      have := cellOf_mono line (show n + 1 ≤ m by omega)
      omega

/-! ## The cells to be marked -/

/-- The column, counted from one, belongs to the place, as far as its first line goes. -/
def Covers (span : Span) (column : Nat) : Prop :=
  span.column.toNat ≤ column ∧ (span.endLine = span.line → column ≤ span.endColumn.toNat)

/-- The cell shows the character in a column of the line. -/
def Shows (line : List Char) (column cell : Nat) : Prop :=
  1 ≤ column ∧ column ≤ line.length ∧ cellOf line (column - 1) ≤ cell ∧ cell < cellOf line column

/-- The cell shows a character of the place. -/
def Wanted (line : List Char) (span : Span) (cell : Nat) : Prop :=
  ∃ column, Covers span column ∧ Shows line column cell

/-- The columns of a place: all of them if it ends on its line, else those that the line has. -/
def columns (line : List Char) (span : Span) : Nat :=
  if span.endLine = span.line then span.endColumn.toNat - offset span
  else line.length - offset span

/-- The columns of a place after the end of its line. -/
def overrun (line : List Char) (span : Span) : Nat :=
  offset span + columns line span - line.length

/-- The tabs in the columns of a place. -/
def tabs (line : List Char) (span : Span) : Nat :=
  ((line.drop (offset span)).take (columns line span)).count '\t'

/-- The end of a place is not before its start. -/
def Ordered (span : Span) : Prop :=
  span.line < span.endLine ∨ span.endLine = span.line ∧ span.column ≤ span.endColumn

variable {line : List Char} {span : Span}

theorem ne_of_lt_endLine (h : span.line < span.endLine) : span.endLine ≠ span.line :=
  fun he => absurd h (by rw [he]; exact UInt64.lt_irrefl _)

/-- A place that starts within the line has a column there. -/
theorem columns_pos (hfrom : 1 ≤ span.column.toNat) (hwithin : span.column.toNat ≤ line.length)
    (hord : Ordered span) : 0 < columns line span := by
  unfold columns offset
  rcases hord with hlt | ⟨heq, hle⟩
  · rw [if_neg (ne_of_lt_endLine hlt)]
    omega
  · rw [if_pos heq]
    have := UInt64.le_iff_toNat_le.mp hle
    omega

/-- The cells to be marked: from the first character of the place to the last one it has on the
line. -/
theorem wanted_iff (hfrom : 1 ≤ span.column.toNat) (hwithin : span.column.toNat ≤ line.length)
    (p : Nat) :
    Wanted line span p ↔ cellOf line (offset span) ≤ p ∧
      p < cellOf line (min (offset span + columns line span) line.length) := by
  have hcol : span.column.toNat = offset span + 1 := by unfold offset; omega
  have hlast (n : Nat) (hn : n ≤ line.length) :
      (span.endLine = span.line → n ≤ span.endColumn.toNat) ∧ offset span < n ↔
        offset span < n ∧ n ≤ min (offset span + columns line span) line.length := by
    unfold columns
    split <;> simp_all <;> omega
  constructor
  · rintro ⟨n, ⟨hge, hle⟩, hpos, hn, hp, hp'⟩
    have hlast := ((hlast n hn).mp ⟨hle, by omega⟩).2
    exact ⟨Nat.le_trans (cellOf_mono line (by omega)) hp,
      Nat.lt_of_lt_of_le hp' (cellOf_mono line hlast)⟩
  · rintro ⟨hp, hp'⟩
    obtain ⟨k, hk, hkn, hkp, hkp'⟩ := exists_cell line hp hp'
    have hlen : k + 1 ≤ line.length := by omega
    have hcov := ((hlast (k + 1) hlen).mpr ⟨by omega, by omega⟩).1
    exact ⟨k + 1, ⟨by omega, hcov⟩, by omega, hlen, hkp, hkp'⟩

/-- A run of as many marks as the place has columns covers the cells to be marked exactly when the
columns after the end of the line make up for the tabs. -/
theorem run_wanted_iff (hfrom : 1 ≤ span.column.toNat) (hwithin : span.column.toNat ≤ line.length)
    (hord : Ordered span) :
    (∀ p, (cellOf line (offset span) ≤ p ∧ p < cellOf line (offset span) + columns line span) ↔
      Wanted line span p) ↔ overrun line span = 3 * tabs line span := by
  have hpos := columns_pos hfrom hwithin hord
  have hoff : offset span < line.length := by unfold offset; omega
  have htabs : ((line.drop (offset span)).take
      (min (offset span + columns line span) line.length - offset span)).count '\t'
        = tabs line span := by
    unfold tabs
    rcases Nat.le_total (offset span + columns line span) line.length with h | h
    · rw [Nat.min_eq_left h, Nat.add_sub_cancel_left]
    · rw [Nat.min_eq_right h, List.take_of_length_le (Nat.le_of_eq List.length_drop),
        List.take_of_length_le (by rw [List.length_drop]; omega)]
  have hcells := cellOf_eq_add line
    (show offset span ≤ min (offset span + columns line span) line.length by omega)
    (Nat.min_le_right _ _)
  rw [htabs] at hcells
  simp only [wanted_iff hfrom hwithin]
  unfold overrun
  constructor
  · intro h
    -- the last cell of the shorter run is a cell of the longer one
    have hlast := h (cellOf line (offset span) + columns line span - 1)
    have hnext := h (cellOf line (offset span) + columns line span)
    omega
  · intro h p
    omega

/-! ## The rows of an excerpt -/

/-- The number of the line, as it stands before the line. -/
def number (span : Span) : List Char := (toString span.line.toNat).toList

/-- A text of three rows: the second is the line behind its number, and the third the marks behind
as many blanks, so that mark and character stand in the same cell. -/
def Drawn (text : String) (line : List Char) (span : Span) (marks : List Char) : Prop :=
  text.toList.splitOn '\n' =
    [List.replicate (number span).length ' ' ++ [' ', '|'],
      number span ++ [' ', '|', ' '] ++ expandTabs line,
      List.replicate (number span).length ' ' ++ [' ', '|', ' '] ++ marks, []]

/-- The mark under a cell. -/
def Marked (marks : List Char) (cell : Nat) : Prop := marks[cell]? = some '^'

theorem Drawn.unique {text : String} {marks marks' : List Char} (h : Drawn text line span marks)
    (h' : Drawn text line span marks') : marks = marks' := by
  have := h.symm.trans h'
  simpa using this

theorem marked_replicate_iff (start width p : Nat) :
    Marked (List.replicate start ' ' ++ List.replicate width '^') p ↔
      start ≤ p ∧ p < start + width := by
  unfold Marked
  rw [List.getElem?_append, List.length_replicate, List.getElem?_replicate, List.getElem?_replicate]
  split
  · rename_i hlt
    simp
    omega
  · rename_i hge
    simp only [Option.ite_none_right_eq_some, and_true]
    omega

/-- The width is counted without going round, and at least one column is there to be marked. -/
theorem underlineWidth_eq_columns (hfrom : 1 ≤ span.column.toNat)
    (hwithin : span.column.toNat ≤ line.length) (hord : Ordered span) :
    (span.endLine = span.line → (columnCount span).toNat = columns line span) ∧
      underlineWidth line span = columns line span := by
  have hpos := columns_pos hfrom hwithin hord
  have hcount : span.endLine = span.line → (columnCount span).toNat = columns line span := by
    intro heq
    have hle : span.column.toNat ≤ span.endColumn.toNat := by
      rcases hord with hlt | ⟨-, hle⟩
      · exact absurd heq (ne_of_lt_endLine hlt)
      · exact UInt64.le_iff_toNat_le.mp hle
    have hbound := span.endColumn.toNat_lt
    rw [columnCount, UInt64.toNat_add, UInt64.toNat_ofNat', columns, if_pos heq]
    unfold offset
    simp only [UInt64.toNat_one]
    omega
  refine ⟨hcount, ?_⟩
  unfold underlineWidth
  by_cases heq : span.endLine = span.line
  · simp only [if_pos heq, hcount heq]
    omega
  · have : columns line span = line.length - offset span := by rw [columns, if_neg heq]
    simp only [if_neg heq]
    omega

/-- The rows of an excerpt of a line without line feeds. -/
theorem drawn_render (hfeed : '\n' ∉ line) :
    Drawn (render line span) line span (List.replicate (cellOf line (offset span)) ' ' ++
      List.replicate (underlineWidth line span) '^') := by
  have hnumber : '\n' ∉ number span := by
    intro hmem
    have := Nat.isDigit_of_mem_toDigits (b := 10) (n := span.line.toNat) (by omega) (by omega)
      (c := '\n') (by simpa [number] using hmem)
    exact absurd this (by decide)
  have hshown : '\n' ∉ expandTabs line := by
    unfold expandTabs
    rw [List.mem_flatMap]
    rintro ⟨c, hc, hmem⟩
    split at hmem
    · simp at hmem
    · exact hfeed ((List.mem_singleton.mp hmem) ▸ hc)
  have htext : (render line span).toList = ['\n'].intercalate
      [List.replicate (number span).length ' ' ++ [' ', '|'],
        number span ++ [' ', '|', ' '] ++ expandTabs line,
        List.replicate (number span).length ' ' ++ [' ', '|', ' '] ++
          (List.replicate (cellOf line (offset span)) ' ' ++
            List.replicate (underlineWidth line span) '^'), []] := by
    simp [render, repeated, number, cellOf, indentWidth, List.intercalate, List.intersperse,
      ← String.length_toList]
  unfold Drawn
  rw [htext]
  refine List.splitOn_intercalate '\n' ?_ (by simp)
  simp [hnumber, hshown]

end Excerpt

namespace Text

theorem not_feed_of_mem_splitLines {reversed cs : List Char} (hrev : '\n' ∉ reversed)
    {line : List Char} (h : line ∈ splitLines reversed cs) : '\n' ∉ line := by
  fun_induction splitLines reversed cs with
  | case1 => simp at h
  | case2 reversed _ =>
    rw [List.mem_singleton.mp h, List.mem_reverse]
    exact hrev
  | case3 reversed rest ih =>
    rcases List.mem_cons.mp h with rfl | h
    · rw [List.mem_reverse]
      unfold dropReturn
      split
      · exact fun hmem => hrev (List.mem_cons_of_mem _ hmem)
      · exact hrev
    · exact ih (by simp) h
  | case4 reversed c rest hc ih =>
    refine ih ?_ h
    rw [List.mem_cons, not_or]
    exact ⟨fun he => hc he.symm, hrev⟩

/-- No line of a text has a line feed in it. -/
theorem not_feed_of_mem_lines {text : String} {line : List Char} (h : line ∈ lines text) :
    '\n' ∉ line := not_feed_of_mem_splitLines (by simp) h

end Text

namespace Report

open Excerpt

variable {text : String} {span : Span} {line : List Char}

/-- The rows of the excerpt under a diagnostic, with one mark for each column of the place. -/
theorem drawn_excerptText (hline : lineAt? (Text.lines text) span = some line)
    (hfrom : 1 ≤ span.column.toNat) (hwithin : span.column.toNat ≤ line.length)
    (hord : Ordered span) :
    Drawn (excerptText (Text.lines text) span) line span
      (List.replicate (cellOf line (offset span)) ' ' ++
        List.replicate (columns line span) '^') := by
  have hmem : line ∈ Text.lines text := by
    unfold lineAt? at hline
    split at hline
    · simp at hline
    · exact List.mem_of_getElem? hline
  rw [← (underlineWidth_eq_columns hfrom hwithin hord).2, excerptText, hline]
  exact drawn_render (Text.not_feed_of_mem_lines hmem)

/-- The marks under a line start in the first cell of the place, and the columns are counted without
going round; only an underline that is longer than any text cannot be written. There is one mark for
each column, wherever the line ends and however the characters are shown: so the marks cover exactly
the cells of the characters of the place if and only if the columns after the end of the line make
up for the tabs. -/
theorem underline_exact_iff (hline : lineAt? (Text.lines text) span = some line)
    (hfrom : 1 ≤ span.column.toNat) (hwithin : span.column.toNat ≤ line.length)
    (hord : Ordered span) :
    ∃ marks, Drawn (excerptText (Text.lines text) span) line span marks ∧
      (∀ p, Marked marks p ↔
        cellOf line (offset span) ≤ p ∧ p < cellOf line (offset span) + columns line span) ∧
      (span.endLine = span.line → (columnCount span).toNat = columns line span) ∧
      (fits line span = true ↔ columns line span < cellLimit) ∧
      ((∀ p, Marked marks p ↔ Wanted line span p) ↔ overrun line span = 3 * tabs line span) := by
  obtain ⟨hcount, hwidth⟩ := underlineWidth_eq_columns hfrom hwithin hord
  refine ⟨_, drawn_excerptText hline hfrom hwithin hord, marked_replicate_iff _ _, hcount, ?_, ?_⟩
  · rw [fits, hwidth, decide_eq_true_iff]
  · simp only [marked_replicate_iff]
    exact run_wanted_iff hfrom hwithin hord

/-- A tab under the marks counts for one of its four cells. -/
theorem underline_exact_iff_tab :
    ∃ marks, Drawn (excerptText (Text.lines "a\n\tfun b\tc;") ⟨2, 6, 2, 8⟩)
      ['\t', 'f', 'u', 'n', ' ', 'b', '\t', 'c', ';'] ⟨2, 6, 2, 8⟩ marks ∧
      (∀ p, Marked marks p ↔ 8 ≤ p ∧ p < 11) ∧
      ¬ ∀ p, Marked marks p ↔
        Wanted ['\t', 'f', 'u', 'n', ' ', 'b', '\t', 'c', ';'] ⟨2, 6, 2, 8⟩ p := by
  have hline : lineAt? (Text.lines "a\n\tfun b\tc;") ⟨2, 6, 2, 8⟩ =
      some ['\t', 'f', 'u', 'n', ' ', 'b', '\t', 'c', ';'] := by decide
  obtain ⟨marks, hdrawn, hmarked, -, -, hexact⟩ :=
    underline_exact_iff hline (by decide) (by decide) (.inr ⟨rfl, by decide⟩)
  exact ⟨marks, hdrawn, hmarked, fun h => absurd (hexact.mp h) (by decide)⟩

/-- The type of a variable, with a place that goes on in its line after the line has ended. -/
def handlePlace : Span := ⟨2, 13, 2, 40⟩

def handleLine : List Char := "var handle: Handle;".toList

/-- Seven characters are left from the type to the end of the line, but there are marks in cells
that show none of them. -/
theorem underline_beyond_line :
    lineAt? (Text.lines "library Door;\nvar handle: Handle;\n") handlePlace = some handleLine ∧
      1 ≤ handlePlace.column.toNat ∧ handlePlace.column.toNat ≤ handleLine.length ∧
      Ordered handlePlace ∧
      ¬ ∃ marks,
        Drawn (excerptText (Text.lines "library Door;\nvar handle: Handle;\n") handlePlace)
          handleLine handlePlace marks ∧
        ∀ p, Marked marks p ↔ Wanted handleLine handlePlace p := by
  have hline : lineAt? (Text.lines "library Door;\nvar handle: Handle;\n") handlePlace =
      some handleLine := by decide
  have hfrom : 1 ≤ handlePlace.column.toNat := by decide
  have hwithin : handlePlace.column.toNat ≤ handleLine.length := by decide
  have hord : Ordered handlePlace := .inr ⟨rfl, by decide⟩
  refine ⟨hline, hfrom, hwithin, hord, ?_⟩
  rintro ⟨marks, hdrawn, hmarked⟩
  have hrow := hdrawn.unique (drawn_excerptText hline hfrom hwithin hord)
  have hlast : Wanted handleLine handlePlace 19 := (hmarked 19).mp (by subst hrow; rfl)
  obtain ⟨-, hlt⟩ := (wanted_iff hfrom hwithin 19).mp hlast
  exact absurd hlt (by decide)

end Report

end LibraryContract
