import LibraryContract.Proofs.Accounting
import LibraryContract.Proofs.KnownTypes
import LibraryContract.Proofs.SameBodies

/-!
# The order of declarations

Libraries that differ in the order of their declarations compile alike, as long as the operations
outside of automata keep their order: these may complete each other, and the first of two decides.
Numbers may differ, but under each name there is the same.

Types need a condition. A declaration of a type `A[]` is refused when the arrays of `A` are known
already, and those become known when something mentions them; so names that are written for types must
not be names of arrays.

* `Run.RunsCleanly.sameContents`: the tables of both orders have the same contents;
* `Session.declaration_order_irrelevant`: the statement for whole compilations.
-/

namespace LibraryContract

open SyntaxTree

variable {t t' : SymbolTable}

/-- Where the shifts of an automaton start and end, in order. -/
def Automaton.endpoints (a : Automaton) : List (Endpoint × Endpoint) :=
  a.shifts.map fun s => (s.source, s.target)

/-- The tables have the same entities under the same names. What is numbered may have other numbers. -/
structure SymbolTable.SameContents (t t' : SymbolTable) : Prop where
  types : ∀ name, t.type? name = t'.type? name
  annotations : ∀ name, t.annotation? name = t'.annotation? name
  globals : ∀ name, (t.global? name).map (fun v => (v.name, v.type)) =
    (t'.global? name).map fun v => (v.name, v.type)
  /-- Type, states, names and types of variables, and the ends of shifts in order. -/
  automata : ∀ name, (t.automatonNamed? name).map (fun a => (a.face, a.endpoints)) =
    (t'.automatonNamed? name).map fun a => (a.face, a.endpoints)
  /-- Kind, name, owner and types of arguments, with the type that is returned and the target. -/
  operations : (t.operations.map fun o => (o.key, o.returnType, o.target)).Perm
    (t'.operations.map fun o => (o.key, o.returnType, o.target))

theorem SyntaxTree.AutomatonDecl.Mirrors.endpoints_eq {d : AutomatonDecl} {a a' : Automaton}
    (h : d.Mirrors a) (h' : d.Mirrors a') : a.endpoints = a'.endpoints := by
  have hend : ∀ {a : Automaton}, d.Mirrors a → a.endpoints =
      (d.shifts.flatMap ShiftDecl.parts).map fun part =>
        (part.2.toSource, (part.1.target.map Identifier.toTarget).getD .any) := by
    intro a h
    rw [Automaton.endpoints, ← List.forall₂_eq_eq_eq, List.forall₂_map_left_iff,
      List.forall₂_map_right_iff]
    refine h.shifts.flip.imp fun s part hs => ?_
    rw [hs.source, hs.target, Option.getD_some]
  rw [hend h, hend h']

/-! ## Operations -/

/-- Tables that answer alike about every key have operations of the same faces. -/
theorem SymbolTable.KeysDistinct.faces_perm (h : t.KeysDistinct) (h' : t'.KeysDistinct)
    (hface : ∀ key, t.face? key = t'.face? key) :
    (t.operations.map fun o => o.face).Perm (t'.operations.map fun o => o.face) := by
  have hkeys : ∀ {t : SymbolTable}, t.KeysDistinct → (t.operations.map fun o => o.face).Nodup := by
    intro t h
    refine List.Nodup.of_map Signature.Face.key ?_
    rw [List.map_map, Function.comp_def]
    simp only [Signature.key_face]
    exact h
  have hmem : ∀ {t : SymbolTable}, t.KeysDistinct → ∀ f : Signature.Face,
      f ∈ t.operations.map (fun o => o.face) ↔ t.face? f.key = some f := by
    intro t h f
    rw [h.face?_iff, List.mem_map]
    exact exists_congr fun o => and_congr_right fun _ =>
      ⟨fun hf => ⟨hf ▸ (Signature.key_face _).symm, hf⟩, And.right⟩
  refine (List.perm_ext_iff_of_nodup (hkeys h) (hkeys h')).mpr fun f => ?_
  rw [hmem h, hmem h', hface]

namespace Run

variable {l l' : SyntaxTree.Library} {options : Options}

/-! ## Runs -/

/-- A library without errors has none in the other order. -/
theorem RunsCleanly.reorders_faultless (h : RunsCleanly options l) (hl : l.Reorders l')
    (hfree : l.BracketFree) : (analyze options l').Faultless :=
  h.counterparts_faultless (h.counterparts (h.reorders hl hfree) hl) hfree

theorem RunsCleanly.automaton_mirrors (h : RunsCleanly options l) {name : String} {a : Automaton}
    (ha : (analyze options l).table.automatonNamed? name = some a) :
    ∃ d ∈ l.automata, d.name.name = name ∧ d.Mirrors a := by
  obtain ⟨id, hid, ha⟩ := Option.bind_eq_some_iff.mp ha
  obtain ⟨b, hb, hname⟩ := ((analyze_wellFormed options l).automatonId?_iff _ _).mp hid
  rw [ha] at hb
  cases hb
  obtain ⟨d, hd, hmirrors⟩ := forall₂_exists_left h.mirrors_automata (List.mem_of_getElem? ha)
  exact ⟨d, hd, hmirrors.name.symm.trans hname, hmirrors⟩

theorem RunsCleanly.shows (h : RunsCleanly options l) :
    (analyze options l).table.Shows (interface l) :=
  h.entered.signed.shows.elaborates (analyze_elaborates options l)

/-- What the operations look like does not change once they are registered. -/
theorem analyze_faces (options : Options) (l : SyntaxTree.Library) :
    ((analyze options l).table.operations.map fun o => o.face) =
      (withSignatures options l).2.table.operations.map fun o => o.face := by
  have hfaces := congrArg (List.map Signature.face)
    (signatures_of_elaborates (analyze_elaborates options l))
  rwa [List.map_map, List.map_map] at hfaces

section Orders

variable (h : RunsCleanly options l) (h' : RunsCleanly options l') (hl : l.Reorders l')

include h h' hl

omit h' in
theorem RunsCleanly.shows_reordered (h' : DeclaresCleanly l') :
    (analyze options l).table.Shows (interface l') :=
  h.interface_eq h' hl ▸ h.shows

theorem RunsCleanly.type?_eq (name : String) :
    (analyze options l).table.type? name = (analyze options l').table.type? name := by
  have hshows := h.shows_reordered hl h'.toDeclaresCleanly
  have hknows : (analyze options l).table.Knows name ↔ (analyze options l').table.Knows name := by
    simp only [h.knows_iff, h'.knows_iff, hl.types.mem_iff, hl.typeExprs.mem_iff]
  refine Option.ext fun type => ⟨fun htype => ?_, fun htype => ?_⟩
  · exact hshows.type?_of_knows h'.shows htype (hknows.mp ⟨type, htype⟩)
  · exact h'.shows.type?_of_knows hshows htype (hknows.mpr ⟨type, htype⟩)

theorem RunsCleanly.automatonNamed?_eq (name : String) :
    ((analyze options l).table.automatonNamed? name).map (fun a => (a.face, a.endpoints)) =
      ((analyze options l').table.automatonNamed? name).map fun a => (a.face, a.endpoints) := by
  have hshows := h.shows_reordered hl h'.toDeclaresCleanly
  have hface := hshows.automatonNamed?_face h'.shows name
  cases ha : (analyze options l).table.automatonNamed? name with
  | none =>
    rw [ha, Option.map_none, eq_comm, Option.map_eq_none_iff] at hface
    rw [hface]
  | some a =>
    rw [ha, Option.map_some, eq_comm, Option.map_eq_some_iff] at hface
    obtain ⟨a', ha', hface⟩ := hface
    -- both mirror the declaration of this name
    obtain ⟨d, hd, hname, hmirrors⟩ := h.automaton_mirrors ha
    obtain ⟨d', hd', hname', hmirrors'⟩ := h'.automaton_mirrors ha'
    obtain rfl : d = d' := List.inj_on_of_nodup_map h.namesDistinct.automata hd
      (hl.automata.mem_iff.mpr hd') (hname.trans hname'.symm)
    rw [ha', Option.map_some, Option.map_some, hface, hmirrors.endpoints_eq hmirrors']

theorem RunsCleanly.operations_perm :
    ((analyze options l).table.operations.map fun o => (o.key, o.returnType, o.target)).Perm
      ((analyze options l').table.operations.map fun o => (o.key, o.returnType, o.target)) := by
  have hinterface := h.interface_eq h'.toDeclaresCleanly hl
  have hentered' := h'.entered
  rw [← hinterface] at hentered'
  have hcounterparts := h.counterparts h'.toDeclaresCleanly hl
  have hfaces := h.entered.signed.tallies.distinct.faces_perm hentered'.signed.tallies.distinct
    (h.entered.face?_eq hentered' hcounterparts.keyed_placed)
  rw [← analyze_faces, ← analyze_faces] at hfaces
  have hparts := hfaces.map fun f => (f.key, f.returnType, f.target)
  rw [List.map_map, List.map_map] at hparts
  simp only [Function.comp_def, Signature.key_face] at hparts
  exact hparts

/-- The order of the declarations decides about numbers only. -/
theorem RunsCleanly.sameContents :
    (analyze options l).table.SameContents (analyze options l').table where
  types := h.type?_eq h' hl
  annotations := (h.shows_reordered hl h'.toDeclaresCleanly).annotation?_eq h'.shows
  globals name := by
    have hshows := h.shows_reordered hl h'.toDeclaresCleanly
    have htype := hshows.global?_eq h'.shows name
    have hname : ∀ {t : SymbolTable} {V : Interface}, t.Shows V →
        (t.global? name).map (fun v => (v.name, v.type)) =
          ((t.global? name).map Variable.type).map fun type => (name, type) := by
      intro t V ht
      rw [Option.map_map]
      refine Option.map_congr fun v hv => ?_
      rw [Function.comp_apply, (ht.housed .global name v hv).1]
    rw [hname hshows, hname h'.shows, htype]
  automata := h.automatonNamed?_eq h' hl
  operations := h.operations_perm h' hl

end Orders

end Run

/-! ## Compilations -/

/-- The sample with its declarations in reverse. -/
def Sample.reversed : SyntaxTree.Library :=
  { Sample.library with declarations := Sample.library.declarations.reverse }

namespace Session

/-- The order of declarations does not matter. Libraries that differ in nothing else, with the
operations outside of automata in one order, both compile or both fail; and when they compile, there is
the same under each name. -/
theorem declaration_order_irrelevant (options : Options) {l l' : SyntaxTree.Library}
    (hdeclarations : l.declarations.Perm l'.declarations) (hfunctions : l.functions = l'.functions)
    (hfree : ∀ name ∈ l.typeNames, BracketFree name) :
    ((∃ result, ((start options).compile l).1 = .ok result) ↔
      ∃ result, ((start options).compile l').1 = .ok result) ∧
    ∀ result result', ((start options).compile l).1 = .ok result →
      ((start options).compile l').1 = .ok result' → result.table.SameContents result'.table := by
  have hl : l.Reorders l' := ⟨hdeclarations, hfunctions⟩
  have hfree' : l'.BracketFree := fun name hname => hfree name (hl.typeNames.mem_iff.mpr hname)
  refine ⟨?_, fun result result' hresult hresult' => ?_⟩
  · rw [compile_succeeds_iff, compile_succeeds_iff]
    exact ⟨fun h => (Run.clean_analyze h).reorders_faultless hl hfree,
      fun h => (Run.clean_analyze h).reorders_faultless hl.symm hfree'⟩
  · obtain ⟨h, rfl⟩ := Run.clean_of_compile hresult
    obtain ⟨h', rfl⟩ := Run.clean_of_compile hresult'
    exact h.sameContents h' hl

/-- There is a library that compiles in both orders. -/
theorem declaration_order_irrelevant_sample :
    ∃ result result', ((start .standard).compile Sample.library).1 = .ok result ∧
      ((start .standard).compile Sample.reversed).1 = .ok result' ∧
        result.table.SameContents result'.table := by
  have hdeclarations : Sample.library.declarations.Perm Sample.reversed.declarations :=
    (List.reverse_perm _).symm
  have hfunctions : Sample.library.functions = Sample.reversed.functions := rfl
  have hfree : ∀ name ∈ Sample.library.typeNames, BracketFree name := by decide
  obtain ⟨hiff, hsame⟩ :=
    declaration_order_irrelevant .standard hdeclarations hfunctions hfree
  obtain ⟨result, hresult⟩ := Sample.library_compiles
  obtain ⟨result', hresult'⟩ := hiff.mp ⟨result, hresult⟩
  exact ⟨result, result', hresult, hresult', hsame result result' hresult hresult'⟩

end Session

end LibraryContract
