import LibraryContract.Proofs.Repetition
import LibraryContract.Proofs.Run
import LibraryContract.Proofs.SpelledTree

/-!
# Trees as documents

What a tree becomes when it is written and read again.

* `written_tree_read_back`: the same tree comes back when its numbers are finite and its document does
  not nest too deep;
* `spellings_read_alike`: the same tree comes back from every other spelling of the document, and none
  comes back when a known member of a record is given twice;
* `written_infinity_not_read`: a tree with an infinite number is written, but not as a document that
  gives it back.
-/

namespace LibraryContract

open Binary64 (AllFinite)

namespace SyntaxTree

/-- A whole record spells itself when its members do. -/
theorem Row.spells_whole {kind : NodeKind} {rows : List (Slot × Json)} {n : Nat}
    (hkind : kind.layout = .record (rows.map Prod.fst))
    (h : ∀ row ∈ rows, row.1.shape.Spells n row.2 row.2) :
    (Shape.node kind).Spells (n + 1) (.ofMembers (rows.map fun row => (row.1.name, row.2)))
      (.ofMembers (rows.map fun row => (row.1.name, row.2))) := by
  let whole (row : Slot × Json) : Row := ⟨row.1, row.2, some row.2⟩
  have hslots : (rows.map whole).map Row.slot = rows.map Prod.fst := List.map_map
  have hspelled : Row.spelledMembers (rows.map whole) = rows.map fun row => (row.1.name, row.2) := by
    rw [Row.spelledMembers, List.filterMap_map]
    exact congrFun List.filterMap_eq_map rows
  have hwritten : (rows.map whole).map Row.writtenMember = rows.map fun row => (row.1.name, row.2) :=
    List.map_map
  rw [← hwritten]
  refine @Shape.Spells.object kind n (rows.map whole) [] _ (hslots ▸ hkind) ?_ ?_ ?_ ?_
  · intro r hr value hvalue
    obtain ⟨row, hrow, rfl⟩ := List.mem_map.mp hr
    cases hvalue
    exact h row hrow
  · intro r hr hnone
    obtain ⟨row, -, rfl⟩ := List.mem_map.mp hr
    cases hnone
  · exact fun m hm => absurd hm List.not_mem_nil
  · rw [List.append_nil, hspelled, hwritten]

/-- What is written in full spells itself, within as many levels as it has. -/
theorem Shape.Fits.spells {s : Shape} {value : Json} {n : Nat} (h : s.Fits value)
    (hdepth : value.depth ≤ n) : s.Spells n value value := by
  induction h generalizing n with
  | scalar => exact .scalar
  | null => exact .null
  | present _ ih => exact .present (ih hdepth)
  | @list item items h ih =>
    obtain ⟨m, rfl⟩ : ∃ m, n = m + 1 := ⟨n - 1, by rw [Json.depth] at hdepth; omega⟩
    have hpairs : (Shape.list item).Spells (m + 1)
        (.array ((items.map fun value => (value, value)).map Prod.fst))
        (.array ((items.map fun value => (value, value)).map Prod.snd)) := by
      refine .list fun pair hpair => ?_
      obtain ⟨value, hvalue, rfl⟩ := List.mem_map.mp hpair
      exact ih value hvalue (by have := Json.depth_lt_array hvalue; omega)
    simpa [Function.comp_def] using hpairs
  | @record kind rows hkind h ih =>
    obtain ⟨m, rfl⟩ : ∃ m, n = m + 1 :=
      ⟨n - 1, by rw [Json.ofMembers, Json.depth] at hdepth; omega⟩
    refine Row.spells_whole hkind fun row hrow => ih row hrow ?_
    have hlt := Json.depth_lt_ofMembers (List.mem_map_of_mem (f := fun row : Slot × Json =>
      (row.1.name, row.2)) hrow)
    exact Nat.le_of_lt_succ (Nat.lt_of_lt_of_le hlt hdepth)
  | @content _ _ tag _ value hkind htag _ ih =>
    have hlt : value.depth < (taggedJson tag value).depth :=
      Json.depth_lt_ofMembers (m := (tag, value)) (List.mem_singleton_self _)
    obtain ⟨m, rfl⟩ : ∃ m, n = m + 1 := ⟨n - 1, by omega⟩
    exact .content hkind htag (ih (by omega))
  | tag hkind htag => exact .tag hkind htag

/-- A tree with finite numbers comes back from its document, unless this nests too deep. -/
theorem written_tree_read_back {l : Library} (hfinite : AllFinite l.floats)
    (hdepth : l.toJson.depth ≤ maxLevels) : Library.ofJson? l.toJson = some l :=
  Library.read_of_spells hfinite (l.fits.spells hdepth)

/-- A library with a single variable, which starts from a number. -/
def numberLibrary (x : Binary64) : Library :=
  .ofDeclarations "Numbers"
    [.typeDecl ⟨.onLine "Float" 2, .simple⟩,
      .variableDecl ⟨.onLine "x" 3, .onLine "Float" 3, some (.literal (.float x) (.onLine 3))⟩]

/-- What `written_tree_read_back` asks for is there: a library with a finite number. -/
theorem written_zero_read_back :
    AllFinite (numberLibrary .zero).floats ∧ (numberLibrary .zero).toJson.depth ≤ maxLevels ∧
      Library.ofJson? (numberLibrary .zero).toJson = some (numberLibrary .zero) := by
  have hfinite : AllFinite (numberLibrary .zero).floats := by
    unfold AllFinite
    decide +kernel
  have hdepth : (numberLibrary .zero).toJson.depth ≤ maxLevels := by decide +kernel
  exact ⟨hfinite, hdepth, written_tree_read_back hfinite hdepth⟩

/-- A tree with finite numbers comes back from every spelling of its document that does not nest too
deep. Nothing comes back from a document that gives a known member of some record twice. -/
theorem spellings_read_alike :
    (∀ (l : Library) (document : Json), AllFinite l.floats →
      (Shape.node .library).Spells maxLevels l.toJson document →
        Library.ofJson? document = some l) ∧
    ∀ document : Json, (Shape.node .library).Repeats document → Library.ofJson? document = none := by
  constructor
  · exact fun l document hfinite hspells => Library.read_of_spells hfinite hspells
  · intro document hrepeats
    refine Option.eq_none_iff_forall_ne_some.mpr fun l hl => ?_
    exact hrepeats.not_reads maxLevels ⟨l, hl⟩

/-- A library without declarations. -/
def emptyLibrary : Library := .ofDeclarations "Empty" []

/-- The shortest spelling of the empty library: an array with nothing but its name. -/
def emptyDocument : Json := .array [(Identifier.onLine "Empty" 1).toJson]

theorem emptyDocument_spells :
    (Shape.node .library).Spells maxLevels emptyLibrary.toJson emptyDocument := by
  let name := (Identifier.onLine "Empty" 1).toJson
  have hname : (Shape.node .identifier).Spells 126 name name :=
    (Identifier.fits _).spells (by decide +kernel)
  let left (slot : Slot) (missing : Json) : Row := ⟨slot, missing, none⟩
  refine @Shape.Spells.array .library 126
    [⟨.required "name" (.node .identifier), name, some name⟩,
      left (.optional "lsl_version" .scalar) .null, left (.optional "library_version" .scalar) .null,
      left (.optional "language" .scalar) .null, left (.optional "url" .scalar) .null,
      left (.items "imports" .scalar) (.array []), left (.items "includes" .scalar) (.array []),
      left (.items "declarations" (.node .declaration)) (.array [])] rfl ?_ ?_ (by decide)
  · simp only [List.forall_mem_cons]
    refine ⟨fun value hvalue => ?_, nofun, nofun, nofun, nofun, nofun, nofun, nofun, nofun⟩
    cases hvalue
    exact hname
  · simp only [List.forall_mem_cons]
    exact ⟨nofun, fun _ => rfl, fun _ => rfl, fun _ => rfl, fun _ => rfl, fun _ => rfl,
      fun _ => rfl, fun _ => rfl, nofun⟩

/-- What `spellings_read_alike` asks for is there: a short spelling, and a name that is given twice. -/
theorem spellings_read_alike_empty :
    Library.ofJson? emptyDocument = some emptyLibrary ∧
      Library.ofJson? (.ofMembers [("name", emptyDocument), ("name", emptyDocument)]) = none := by
  have hfinite : AllFinite emptyLibrary.floats := nofun
  have hrepeats : (Shape.node .library).Repeats
      (.ofMembers [("name", emptyDocument), ("name", emptyDocument)]) :=
    @Shape.Repeats.here .library _ (.required "name" (.node .identifier)) _ rfl List.mem_cons_self
      (by decide)
  exact ⟨spellings_read_alike.1 _ _ hfinite emptyDocument_spells, spellings_read_alike.2 _ hrepeats⟩

/-- A number that is not finite is written as null and does not come back. -/
theorem written_infinity_not_read :
    ¬∀ (l : Library) (document : Json),
      (Shape.node .library).Spells maxLevels l.toJson document →
        Library.ofJson? document = some l := by
  intro hall
  have hdepth : (numberLibrary .infinity).toJson.depth ≤ maxLevels := by decide +kernel
  have hread := hall _ _ ((numberLibrary .infinity).fits.spells hdepth)
  have hnone : (Library.ofJson? (numberLibrary .infinity).toJson).isNone = true := by decide +kernel
  rw [hread] at hnone
  cases hnone

end SyntaxTree

end LibraryContract
