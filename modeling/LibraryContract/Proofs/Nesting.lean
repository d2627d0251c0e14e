import LibraryContract.Proofs.SameSignatures

/-!
# Operations inside and outside of their automata

An operation may stand inside of its automaton, or outside of all automata with the name of its
automaton as a qualifier. Moving operations out of their automata changes where declarations stand,
and nothing about what they declare and for whom.

* `Library.MovesOut`: some nested operations become qualified ones at the end of the library;
* `Library.Rehouses`: two libraries that declare the same operations for the same automata, wherever
  they stand;
* `Library.MovesOut.rehouses`: moving operations out is such a change.
-/

namespace LibraryContract

open SyntaxTree

namespace SyntaxTree

/-! ## Moving out -/

/-- Some of the operations of an automaton stay, and the others leave it, qualified with its name. Both
keep their order. -/
inductive FunctionDecl.Leave (automaton : String) :
    List FunctionDecl → List FunctionDecl → List FunctionDecl → Prop
  | nil : Leave automaton [] [] []
  | stays {d : FunctionDecl} {ds staying leaving : List FunctionDecl}
      (h : Leave automaton ds staying leaving) : Leave automaton (d :: ds) (d :: staying) leaving
  | leaves {d : FunctionDecl} {ds staying leaving : List FunctionDecl} {qualifier : Identifier}
      (hq : qualifier.name = automaton) (h : Leave automaton ds staying leaving) :
      Leave automaton (d :: ds) staying ({ d with automaton := some qualifier } :: leaving)

/-- Operations leave their automata, and everything else stays where it is. -/
inductive Declaration.Leave : List Declaration → List Declaration → List FunctionDecl → Prop
  | nil : Leave [] [] []
  | automaton {d : AutomatonDecl} {functions leaving : List FunctionDecl} {ds rest : List Declaration}
      {others : List FunctionDecl} (hd : FunctionDecl.Leave d.name.name d.functions functions leaving)
      (h : Leave ds rest others) :
      Leave (.automatonDecl d :: ds) (.automatonDecl { d with functions := functions } :: rest)
        (leaving ++ others)
  | other {d : Declaration} {ds rest : List Declaration} {others : List FunctionDecl}
      (h : Leave ds rest others) : Leave (d :: ds) (d :: rest) others

namespace Library

/-- The library `l'` is `l` with some of the operations moved out of their automata, to the end of the
library and in the same order. -/
def MovesOut (l l' : Library) : Prop :=
  ∃ declarations functions, Declaration.Leave l.declarations declarations functions ∧
    l' = { l with declarations := declarations ++ functions.map .functionDecl }

/-- No operation inside of an automaton has a qualifier. -/
def NestsPlainly (l : Library) : Prop :=
  ∀ a ∈ l.automata, ∀ d ∈ a.functions, d.automaton = none

instance (l : Library) : Decidable l.NestsPlainly :=
  inferInstanceAs (Decidable (∀ a ∈ l.automata, ∀ d ∈ a.functions, d.automaton = none))

end Library

/-! ## Declarations and their owners -/

/-- The declaration without its qualifier, with the qualifying name. -/
def FunctionDecl.settle (d : FunctionDecl) : FunctionDecl × Option String :=
  (d.unqualified, d.automaton.map Identifier.name)

/-- The declarations of the operations of an automaton, without qualifiers. -/
def AutomatonDecl.settled (d : AutomatonDecl) : List (FunctionDecl × Option String) :=
  d.functions.map fun f => (f.unqualified, some d.name.name)

/-- The declarations of operations without qualifiers, with the names of the automata that they are
for. -/
def Library.settled (l : Library) : List (FunctionDecl × Option String) :=
  l.automata.flatMap AutomatonDecl.settled ++ l.functions.map FunctionDecl.settle

/-- The same declarations, but that operations may stand inside or outside of their automata and in
another order. -/
structure Library.Rehouses (l l' : Library) : Prop where
  types : l.types = l'.types
  annotations : l.annotations = l'.annotations
  globals : l.globals = l'.globals
  automata : l.automata.map AutomatonDecl.withoutFunctions =
    l'.automata.map AutomatonDecl.withoutFunctions
  settled : l.settled.Perm l'.settled
  left : l.NestsPlainly
  right : l'.NestsPlainly

theorem Library.mem_settled {l : Library} {item : FunctionDecl × Option String} :
    item ∈ l.settled ↔
      (∃ a ∈ l.automata, ∃ d ∈ a.functions, item = (d.unqualified, some a.name.name)) ∨
        ∃ d ∈ l.functions, item = d.settle := by
  simp only [settled, List.mem_append, List.mem_flatMap, AutomatonDecl.settled, List.mem_map, eq_comm]

theorem Library.owned_eq (l : Library) :
    l.owned = l.settled.map fun item => (item.1, item.2.getD "") := by
  simp only [owned, settled, AutomatonDecl.settled, List.map_append, List.map_flatMap, List.map_map]
  rfl

namespace Library.Rehouses

variable {l l' : Library}

theorem symm (h : l.Rehouses l') : l'.Rehouses l :=
  ⟨h.types.symm, h.annotations.symm, h.globals.symm, h.automata.symm, h.settled.symm, h.right, h.left⟩

theorem owned (h : l.Rehouses l') : l.owned.Perm l'.owned := by
  rw [owned_eq, owned_eq]
  exact h.settled.map _

/-- The automata stand at the same places. -/
theorem getElem?_automata (h : l.Rehouses l') {i : Nat} {d' : AutomatonDecl}
    (hi : l'.automata[i]? = some d') :
    ∃ d, l.automata[i]? = some d ∧ d.withoutFunctions = d'.withoutFunctions := by
  have hmap := congrArg (fun ds => ds[i]?) h.automata
  simp only [List.getElem?_map, hi, Option.map_some] at hmap
  exact Option.map_eq_some_iff.mp hmap

theorem mem_automata (h : l.Rehouses l') {d' : AutomatonDecl} (hd : d' ∈ l'.automata) :
    ∃ d ∈ l.automata, d.withoutFunctions = d'.withoutFunctions := by
  obtain ⟨i, hi⟩ := List.mem_iff_getElem?.mp hd
  obtain ⟨d, hi, heq⟩ := h.getElem?_automata hi
  exact ⟨d, List.mem_of_getElem? hi, heq⟩

/-! ## Type expressions -/

/-- What automata mention apart from their operations. -/
theorem flatMap_automata (h : l.Rehouses l') {α : Type} {g : AutomatonDecl → List α}
    (hg : ∀ d : AutomatonDecl, g d.withoutFunctions = g d) :
    l.automata.flatMap g = l'.automata.flatMap g := by
  have hmap : ∀ l : Library,
      (l.automata.map AutomatonDecl.withoutFunctions).flatMap g = l.automata.flatMap g := by
    intro l
    simp only [List.flatMap_map, hg]
  rw [← hmap, h.automata, hmap]

/-- What operations mention apart from their qualifiers. -/
theorem flatMap_functions (h : l.Rehouses l') {α : Type} {g : FunctionDecl → List α}
    (hg : ∀ d : FunctionDecl, g d.unqualified = g d) :
    (l.allFunctions.flatMap g).Perm (l'.allFunctions.flatMap g) := by
  have hmap : ∀ l : Library, (l.settled.map Prod.fst).flatMap g = l.allFunctions.flatMap g := by
    intro l
    simp only [Library.settled, allFunctions, AutomatonDecl.settled, FunctionDecl.settle,
      List.flatMap_append, List.flatMap_map, List.flatMap_assoc, hg]
  rw [← hmap, ← hmap]
  exact (h.settled.map _).flatMap_right _

theorem typeNames (h : l.Rehouses l') : l.typeNames.Perm l'.typeNames := by
  have hexprs : l.typeExprs.Perm l'.typeExprs := by
    rw [typeExprs, typeExprs, h.types, h.annotations, h.globals, h.flatMap_automata fun _ => rfl,
      h.flatMap_automata (g := fun d => d.shifts.flatMap ShiftDecl.typeExprs) fun _ => rfl]
    refine ((((((h.flatMap_functions fun _ => rfl).append_right _).append ?_).append_left
      _).append_left _).append_left _).append_left _
    exact h.flatMap_functions fun _ => rfl
  rw [Library.typeNames, Library.typeNames, h.types]
  exact ((hexprs.map _).append_left _).append_left _

theorem bracketFree (h : l.Rehouses l') (hfree : l.BracketFree) : l'.BracketFree :=
  fun name hname => hfree name (h.typeNames.mem_iff.mpr hname)

end Library.Rehouses

/-! ## Moving out rehouses -/

namespace FunctionDecl.Leave

variable {automaton : String} {ds staying leaving : List FunctionDecl}

theorem staying_sublist (h : Leave automaton ds staying leaving) : staying.Sublist ds := by
  induction h with
  | nil => exact .slnil
  | stays _ ih => exact ih.cons_cons _
  | leaves _ _ ih => exact ih.cons _

/-- Those that leave and those that stay are still for the same automaton. -/
theorem settled_perm (h : Leave automaton ds staying leaving) :
    (ds.map fun d => (d.unqualified, some automaton)).Perm
      ((staying.map fun d => (d.unqualified, some automaton)) ++ leaving.map FunctionDecl.settle) := by
  induction h with
  | nil => exact .refl _
  | stays _ ih => exact ih.cons _
  | @leaves d ds staying leaving qualifier hq _ ih =>
    have hsettle : FunctionDecl.settle { d with automaton := some qualifier } =
        (d.unqualified, some automaton) := by
      rw [settle, ← hq]
      rfl
    rw [List.map_cons, List.map_cons, hsettle]
    exact (ih.cons _).trans List.perm_middle.symm

end FunctionDecl.Leave

namespace Declaration.Leave

variable {ds rest : List Declaration} {leaving : List FunctionDecl}

/-- Declarations that are no automata stay where they are. -/
theorem filterMap_eq (h : Leave ds rest leaving) {α : Type} {g : Declaration → Option α}
    (hg : ∀ d, g (.automatonDecl d) = none) : rest.filterMap g = ds.filterMap g := by
  induction h with
  | nil => rfl
  | automaton _ _ ih => rw [List.filterMap_cons_none (hg _), List.filterMap_cons_none (hg _), ih]
  | other _ ih => rw [List.filterMap_cons, List.filterMap_cons, ih]

/-- The declarations of automata among the declarations. -/
theorem automata (h : Leave ds rest leaving) :
    List.Forall₂ (fun d d' => d'.withoutFunctions = d.withoutFunctions ∧
        ∀ f ∈ d'.functions, f ∈ d.functions)
      (ds.filterMap fun | .automatonDecl d => some d | _ => none)
      (rest.filterMap fun | .automatonDecl d => some d | _ => none) := by
  induction h with
  | nil => exact .nil
  | automaton hd _ ih => exact .cons ⟨rfl, fun f hf => hd.staying_sublist.subset hf⟩ ih
  | @other d _ _ _ _ ih =>
    cases d with
    | automatonDecl d => exact .cons ⟨rfl, fun f hf => hf⟩ ih
    | _ => exact ih

theorem settled_perm (h : Leave ds rest leaving) :
    ((ds.filterMap fun | .automatonDecl d => some d | _ => none).flatMap
        AutomatonDecl.settled).Perm
      (((rest.filterMap fun | .automatonDecl d => some d | _ => none).flatMap
        AutomatonDecl.settled) ++ leaving.map FunctionDecl.settle) := by
  induction h with
  | nil => exact .refl _
  | @automaton d functions leaving ds rest others hd _ ih =>
    show (d.settled ++ _).Perm
      ((AutomatonDecl.settled { d with functions := functions } ++ _) ++ (leaving ++ others).map _)
    rw [List.map_append, List.append_assoc]
    have hown : d.settled.Perm (AutomatonDecl.settled { d with functions := functions } ++
        leaving.map FunctionDecl.settle) := hd.settled_perm
    refine (hown.append ih).trans ?_
    rw [List.append_assoc]
    refine List.Perm.append_left _ ?_
    rw [← List.append_assoc, ← List.append_assoc]
    exact List.perm_append_comm.append_right _
  | @other d ds rest others _ ih =>
    cases d with
    | automatonDecl d =>
      show (d.settled ++ _).Perm ((d.settled ++ _) ++ _)
      rw [List.append_assoc]
      exact ih.append_left _
    | _ => exact ih

end Declaration.Leave

namespace Library.MovesOut

variable {l l' : Library}

/-- Operations that move out are declared for the same automata as before. -/
theorem rehouses (h : l.MovesOut l') (hnested : l.NestsPlainly) : l.Rehouses l' := by
  obtain ⟨declarations, functions, hleave, rfl⟩ := h
  generalize hl' : ({ l with declarations := declarations ++ functions.map .functionDecl } : Library) = l'
  have hdeclarations : l'.declarations = declarations ++ functions.map .functionDecl := hl' ▸ rfl
  have hadded : ∀ {α : Type} (g : Declaration → Option α) (_ : ∀ d, g (.functionDecl d) = none),
      l'.declarations.filterMap g = declarations.filterMap g := by
    intro α g hf
    have hnone : (functions.map Declaration.functionDecl).filterMap g = [] := by
      rw [List.filterMap_map, List.filterMap_eq_nil_iff]
      exact fun d _ => hf d
    rw [hdeclarations, List.filterMap_append, hnone, List.append_nil]
  have hautomata := hleave.automata
  refine {
    types := ((hadded _ fun _ => rfl).trans (hleave.filterMap_eq fun _ => rfl)).symm
    annotations := ((hadded _ fun _ => rfl).trans (hleave.filterMap_eq fun _ => rfl)).symm
    globals := ((hadded _ fun _ => rfl).trans (hleave.filterMap_eq fun _ => rfl)).symm
    automata := ?automata
    settled := ?settled
    left := hnested
    right := ?right }
  case automata =>
    rw [Library.automata, Library.automata, hadded _ fun _ => rfl, ← List.forall₂_eq_eq_eq,
      List.forall₂_map_left_iff, List.forall₂_map_right_iff]
    exact hautomata.imp fun _ _ hd => hd.1.symm
  case settled =>
    have hfunctions : l'.functions = l.functions ++ functions := by
      rw [Library.functions, hdeclarations, List.filterMap_append, hleave.filterMap_eq fun _ => rfl,
        List.filterMap_map]
      exact congrArg _ List.filterMap_some
    rw [Library.settled, Library.settled, Library.automata, Library.automata, hadded _ fun _ => rfl,
      hfunctions, List.map_append]
    refine (hleave.settled_perm.append_right _).trans ?_
    rw [List.append_assoc]
    exact List.perm_append_comm.append_left _
  case right =>
    intro a ha f hf
    rw [Library.automata, hadded _ fun _ => rfl] at ha
    obtain ⟨d, hd, -, hsub⟩ := forall₂_exists_left hautomata ha
    exact hnested d hd f (hsub f hf)

end Library.MovesOut

end SyntaxTree

end LibraryContract
