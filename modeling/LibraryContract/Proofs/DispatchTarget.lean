import LibraryContract.Proofs.Ledger

/-!
# The automaton that an operation works on

A definition may name another target than the declaration that it completes, since operations are
told apart by the types of their arguments and two automata may share a type. The arguments are then
those of the definition. The target follows the definition too, with one exception: a definition
that names the owner itself, or nothing, leaves a declared target in force.

* `target_follows_iff`: the target is the one of the declaration in force exactly when that exception
  does not arise;
* `target_left_behind`: it can arise.
-/

namespace LibraryContract

open SyntaxTree

/-- The arguments of an operation are those of the last of its declarations. Its target is the one
which that declaration wants, unless it wants the owner and an earlier declaration does not. -/
theorem target_follows_iff {s : Session} {library : SyntaxTree.Library} {l : Library}
    (h : (s.analyze library).1 = .ok l) {o : Operation} (ho : o ∈ l.table.operations) :
    ∃ first last : Placed,
      (declarationsOf (Run.ledger s.options library) o.id = [last] ∧ first = last ∨
        declarationsOf (Run.ledger s.options library) o.id = [first, last] ∧
          first.1.body = none ∧ last.1.body.isSome = true) ∧
      List.Forall₂ (Parameter.Gives l.table) last.1.parameters o.arguments ∧
      (o.target = last.1.targetName o.owner ↔
        (last.1.targetName o.owner = o.owner → first.1.targetName o.owner = o.owner)) := by
  obtain ⟨-, rfl⟩ := Session.analyze_eq_ok.mp h
  have hstems := Run.analyze_stems s.options library o ho
  generalize declarationsOf (Run.ledger s.options library) o.id = items at hstems ⊢
  cases hstems with
  | @created item key describes =>
    refine ⟨item, item, Or.inl ⟨rfl, rfl⟩, describes.arguments, ?_⟩
    exact iff_of_true describes.target fun hown => hown
  | @completed first last firstKey lastKey firstBody lastBody arguments target hasBody =>
    refine ⟨first, last, Or.inr ⟨rfl, firstBody, lastBody⟩, arguments, ?_⟩
    rw [target]
    by_cases hown : last.1.targetName o.owner = o.owner
    · rw [if_pos hown, hown]
      exact ⟨fun hfirst _ => hfirst, fun hfirst => hfirst rfl⟩
    · rw [if_neg hown]
      exact iff_of_true rfl fun hown' => (hown hown').elim

/-! ## A definition that names the owner -/

namespace DispatchTarget

/-- A function `open` whose argument `subject` names a target. -/
def opening (target : String) (body : Option (List SyntaxTree.Statement)) (line : UInt64) :
    FunctionDecl where
  kind := .function
  automaton := none
  name := some (.onLine "open" line)
  parameters := [⟨.onLine "subject" line, .onLine target line, [⟨.onLine "target" 7, []⟩]⟩]
  returnType := none
  annotations := []
  contracts := []
  body := body
  span := .onLine line

/-- An automaton whose values are handles. -/
def handled (name : String) (functions : List FunctionDecl) (line : UInt64) : AutomatonDecl where
  name := .onLine name line
  type := .onLine "Handle" line
  constructorVariables := []
  states := []
  instanceVariables := []
  shifts := []
  functions := functions
  span := .onLine line

/-- The automaton `Door` declares that `open` works on a `Lock` and defines it for a `Door`. -/
def doorLibrary : SyntaxTree.Library :=
  .ofDeclarations "Door"
    [.typeDecl ⟨.onLine "Handle" 2, .simple⟩,
      .automatonDecl (handled "Lock" [] 3),
      .automatonDecl (handled "Door" [opening "Lock" none 5, opening "Door" (some []) 6] 4)]

theorem doorLibrary_target :
    ∃ l, ((Session.start .standard).analyze doorLibrary).1 = .ok l ∧ ∃ o ∈ l.table.operations,
      ∃ last ∈ (declarationsOf (Run.ledger .standard doorLibrary) o.id).getLast?,
        o.target ≠ last.1.targetName o.owner := by
  refine ⟨_, Session.analyze_eq_ok.mpr ⟨by decide +kernel, rfl⟩, ?_⟩
  have hleft : ∃ o ∈ (Run.analyze .standard doorLibrary).table.operations,
      ∃ last ∈ (declarationsOf (Run.ledger .standard doorLibrary) o.id).getLast?,
        o.target ≠ last.1.targetName o.owner := by
    decide +kernel
  exact hleft

end DispatchTarget

/-- What `target_follows_iff` asks for is there: a library with an operation. -/
theorem target_follows_iff_door :
    ∃ l, ((Session.start .standard).analyze DispatchTarget.doorLibrary).1 = .ok l ∧
      ∃ o ∈ l.table.operations, ∃ first last : Placed,
        (declarationsOf (Run.ledger .standard DispatchTarget.doorLibrary) o.id = [last] ∧
            first = last ∨
          declarationsOf (Run.ledger .standard DispatchTarget.doorLibrary) o.id = [first, last] ∧
            first.1.body = none ∧ last.1.body.isSome = true) ∧
        List.Forall₂ (Parameter.Gives l.table) last.1.parameters o.arguments ∧
        (o.target = last.1.targetName o.owner ↔
          (last.1.targetName o.owner = o.owner → first.1.targetName o.owner = o.owner)) := by
  obtain ⟨l, hl, o, ho, -⟩ := DispatchTarget.doorLibrary_target
  exact ⟨l, hl, o, ho, target_follows_iff hl ho⟩

/-- The target does not always follow the last declaration. -/
theorem target_left_behind :
    ¬∀ (s : Session) (library : SyntaxTree.Library) (l : Library),
      (s.analyze library).1 = .ok l → ∀ o ∈ l.table.operations,
        ∀ last ∈ (declarationsOf (Run.ledger s.options library) o.id).getLast?,
          o.target = last.1.targetName o.owner := by
  intro hall
  obtain ⟨l, hl, o, ho, last, hlast, hne⟩ := DispatchTarget.doorLibrary_target
  exact hne (hall _ _ l hl o ho last hlast)

end LibraryContract
