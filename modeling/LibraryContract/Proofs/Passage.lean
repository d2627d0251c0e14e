import LibraryContract.Proofs.Persistence
import Mathlib.Data.List.Chain
import Mathlib.Data.List.Range

/-!
# The tables that some work goes through

Work on a table is done piece by piece and leaves a table after each; a piece that fails leaves one
as well. An automaton is registered in several pieces, its head, its states and its variables, and an
operation is looked at contract by contract and statement by statement: here the tables in between
are those that the same work leaves on a declaration that is cut off. From there it goes on as it
does on the whole declaration (`elaborateContracts_append`, `elaborateBody_append`,
`declareVariables_append`).

* `Passage`: the tables that some work goes through;
* `Passage.Follows`: each of them is related to the one before it;
* `AutomatonDecl.declare_upTo`, `FunctionDecl.elaborate_upTo`: a longer declaration takes the table
  further.
-/

namespace LibraryContract

open SyntaxTree Build

variable {α β : Type}

/-- The tables that some work goes through, in order, after the table that it starts with. -/
abbrev Passage := SymbolTable → List SymbolTable

namespace Passage

/-- A piece of work. -/
def once (b : Build α) : Passage := fun t => [(b.run t).2]

/-- Work that consists of `n` parts, after the work that all share. The first `k` parts are done by
`upTo k`. -/
def stepwise (n : Nat) (upTo : Nat → Build α) : Passage :=
  fun t => (List.range (n + 1)).map fun k => ((upTo k).run t).2

/-- The table at the end. -/
def last (p : Passage) (t : SymbolTable) : SymbolTable := (p t).getLastD t

/-- One passage after the other. -/
def all : List Passage → Passage
  | [], _ => []
  | p :: rest, t => p t ++ all rest (p.last t)

end Passage

/-! ## Where passages end -/

namespace Passage

variable {t : SymbolTable}

theorem getLastD_append (l m : List SymbolTable) (t : SymbolTable) :
    (l ++ m).getLastD t = m.getLastD (l.getLastD t) := by
  simp only [List.getLastD_eq_getLast?, List.getLast?_append, Option.getD_or]

theorem last_stepwise (n : Nat) (upTo : Nat → Build α) (t : SymbolTable) :
    (stepwise n upTo).last t = ((upTo n).run t).2 := by
  rw [last, stepwise, List.range_succ, List.map_append, getLastD_append]
  rfl

theorem last_all_cons (p : Passage) (rest : List Passage) (t : SymbolTable) :
    (all (p :: rest)).last t = (all rest).last (p.last t) := by
  rw [last, all, getLastD_append]
  rfl

theorem all_append (ps qs : List Passage) (t : SymbolTable) :
    all (ps ++ qs) t = all ps t ++ all qs ((all ps).last t) := by
  induction ps generalizing t with
  | nil => rfl
  | cons p rest ih => rw [List.cons_append, last_all_cons, all, ih, all, List.append_assoc]

theorem last_all_append (ps qs : List Passage) (t : SymbolTable) :
    (all (ps ++ qs)).last t = (all qs).last ((all ps).last t) := by
  rw [last, all_append, getLastD_append]
  rfl

/-- Passages lead to the table of a run if each leads from one piece of work to the next. -/
theorem last_all_map {f : α → Passage} {g : β → α → β} {table : β → SymbolTable}
    (h : ∀ b a, (f a).last (table b) = table (g b a)) (items : List α) (b : β) :
    (all (items.map f)).last (table b) = table (items.foldl g b) := by
  induction items generalizing b with
  | nil => rfl
  | cons a rest ih => rw [List.map_cons, last_all_cons, h, ih, List.foldl_cons]

end Passage

/-! ## Steps of passages -/

instance : Trans SymbolTable.Leads SymbolTable.Leads SymbolTable.Leads := ⟨.trans⟩

instance : Trans SymbolTable.LeadsOn SymbolTable.LeadsOn SymbolTable.LeadsOn := ⟨.trans⟩

section Chains

variable {R : SymbolTable → SymbolTable → Prop} {t u : SymbolTable}

namespace Passage

/-- Each table that the passage goes through is related to the one before it. -/
def Follows (R : SymbolTable → SymbolTable → Prop) (p : Passage) (t : SymbolTable) : Prop :=
  List.IsChain R (t :: p t)

theorem follows_once {b : Build α} (h : R t (b.run t).2) : (once b).Follows R t :=
  .cons_cons h (.singleton _)

theorem follows_stepwise {n : Nat} {upTo : Nat → Build α} (hfirst : R t ((upTo 0).run t).2)
    (hnext : ∀ k < n, R ((upTo k).run t).2 ((upTo (k + 1)).run t).2) :
    (stepwise n upTo).Follows R t := by
  have hchain : List.IsChain R ((List.range (n + 1)).map fun k => ((upTo k).run t).2) := by
    rw [List.isChain_map]
    exact (List.isChain_range_succ _ n).mpr hnext
  refine hchain.cons fun u hu => ?_
  rw [List.range_succ_eq_map, List.map_cons, List.head?_cons, Option.mem_some_iff] at hu
  rw [← hu]
  exact hfirst

/-- Chains that meet are one chain. -/
theorem isChain_cons_append {l m : List SymbolTable} (hl : List.IsChain R (t :: l))
    (hm : List.IsChain R (l.getLastD t :: m)) : List.IsChain R (t :: (l ++ m)) := by
  induction l generalizing t with
  | nil => exact hm
  | cons u l ih =>
    obtain ⟨htu, hu⟩ := List.isChain_cons_cons.mp hl
    rw [List.getLastD_cons] at hm
    exact List.isChain_cons_cons.mpr ⟨htu, ih hu hm⟩

theorem follows_all_cons {p : Passage} {rest : List Passage} (hp : p.Follows R t)
    (hrest : (all rest).Follows R (p.last t)) : (all (p :: rest)).Follows R t :=
  isChain_cons_append hp hrest

theorem follows_all_append {ps qs : List Passage} (hps : (all ps).Follows R t)
    (hqs : (all qs).Follows R ((all ps).last t)) : (all (ps ++ qs)).Follows R t := by
  rw [Follows, all_append]
  exact isChain_cons_append hps hqs

theorem follows_all {ps : List Passage} (h : ∀ p ∈ ps, ∀ t, p.Follows R t) (t : SymbolTable) :
    (all ps).Follows R t := by
  induction ps generalizing t with
  | nil => exact .singleton t
  | cons p rest ih =>
    refine follows_all_cons (h p List.mem_cons_self t) (ih (fun q hq => ?_) _)
    exact h q (List.mem_cons_of_mem p hq)

end Passage

/-- A value that is worked out at the end changes nothing. -/
theorem run_bind_pure_snd (b : Build α) (f : α → β) (t : SymbolTable) :
    ((b >>= fun a => (Pure.pure (f a) : Build β)).run t).2 = (b.run t).2 := by
  show ((Build.bind b fun a => Build.pure (f a)).run t).2 = (b.run t).2
  cases h : (b.run t).1.result with
  | error e => rw [run_bind_of_error h]
  | ok a =>
    rw [run_bind_of_ok h]
    rfl

/-- Programs that begin in the same way leave related tables if they do so from there on. -/
theorem related_bind {γ : Type} (hR : ∀ t, R t t) {b : Build α} {f : α → Build β} {g : α → Build γ}
    (h : ∀ a u, b.Yields t a u → R ((f a).run u).2 ((g a).run u).2) :
    R ((b >>= f).run t).2 ((b >>= g).run t).2 := by
  show R ((Build.bind b f).run t).2 ((Build.bind b g).run t).2
  cases hr : (b.run t).1.result with
  | error e =>
    rw [run_bind_of_error hr, run_bind_of_error hr]
    exact hR _
  | ok a =>
    rw [run_bind_of_ok hr, run_bind_of_ok hr]
    exact h a _ ⟨hr, rfl⟩

/-- A program that goes on leaves a table related to the one that it would leave otherwise. -/
theorem related_of_bind (hR : ∀ t, R t t) {b : Build α} {f : α → Build β}
    (h : ∀ a u, b.Yields t a u → R u ((f a).run u).2) : R (b.run t).2 ((b >>= f).run t).2 := by
  have hrun := related_bind hR (f := fun a => (Pure.pure a : Build α)) h
  rwa [bind_pure] at hrun

end Chains

/-! ## Declarations that are cut off -/

namespace SyntaxTree

/-- How many parts an automaton has besides its head. -/
def AutomatonDecl.parts (d : AutomatonDecl) : Nat :=
  d.states.length + d.constructorVariables.length + d.instanceVariables.length

/-- The automaton with its first parts only. -/
def AutomatonDecl.upTo (d : AutomatonDecl) (k : Nat) : AutomatonDecl :=
  { d with
    states := d.states.take k
    constructorVariables := d.constructorVariables.take (k - d.states.length)
    instanceVariables :=
      d.instanceVariables.take (k - d.states.length - d.constructorVariables.length) }

/-- How many contracts and statements an operation has. -/
def FunctionDecl.parts (d : FunctionDecl) : Nat := d.contracts.length + (d.body.getD []).length

/-- The operation with its first contracts and statements only. -/
def FunctionDecl.upTo (d : FunctionDecl) (k : Nat) : FunctionDecl :=
  { d with
    contracts := d.contracts.take k
    body := d.body.map (List.take (k - d.contracts.length)) }

theorem AutomatonDecl.upTo_parts (d : AutomatonDecl) : d.upTo d.parts = d := by
  have hstates : d.states.take d.parts = d.states := List.take_of_length_le (by unfold parts; omega)
  have hparameters : d.constructorVariables.take (d.parts - d.states.length) =
      d.constructorVariables := List.take_of_length_le (by unfold parts; omega)
  have hmembers : d.instanceVariables.take
      (d.parts - d.states.length - d.constructorVariables.length) = d.instanceVariables :=
    List.take_of_length_le (by unfold parts; omega)
  rw [upTo, hstates, hparameters, hmembers]

theorem FunctionDecl.upTo_parts (d : FunctionDecl) : d.upTo d.parts = d := by
  have hcontracts : d.contracts.take d.parts = d.contracts :=
    List.take_of_length_le (by unfold parts; omega)
  have hbody : d.body.map (List.take (d.parts - d.contracts.length)) = d.body := by
    unfold parts
    cases d.body with
    | none => rfl
    | some body =>
      refine congrArg some (List.take_of_length_le ?_)
      rw [Option.getD_some]
      omega
  rw [upTo, hcontracts, hbody]

namespace FunctionDecl

theorem elaborateContracts_append (scope : Scope) (id : OperationId) (l m : List ContractDecl) :
    elaborateContracts scope id (l ++ m) =
      elaborateContracts scope id l >>= fun _ => elaborateContracts scope id m := by
  induction l with
  | nil => rw [List.nil_append, elaborateContracts, pure_bind]
  | cons d l ih =>
    rw [List.cons_append, elaborateContracts, elaborateContracts, ih, bind_assoc]
    refine congrArg _ (funext fun contract => ?_)
    cases contract with
    | none => rfl
    | some contract => simp only [bind_assoc]

theorem elaborateBody_append (scope : Scope) (id : OperationId) (l m : List Statement) :
    elaborateBody scope id (l ++ m) =
      elaborateBody scope id l >>= fun _ => elaborateBody scope id m := by
  induction l with
  | nil => rw [List.nil_append, elaborateBody, pure_bind]
  | cons d l ih =>
    rw [List.cons_append, elaborateBody, elaborateBody, ih, bind_assoc]
    refine congrArg _ (funext fun statement => ?_)
    cases statement with
    | none => rfl
    | some statement => simp only [bind_assoc]

/-- One contract or statement more leads on. -/
theorem elaborate_upTo (d : FunctionDecl) (id : OperationId) (k : Nat) (t : SymbolTable) :
    (((d.upTo k).elaborate id).run t).2.LeadsOn (((d.upTo (k + 1)).elaborate id).run t).2 := by
  have hbody : ∀ k, (d.upTo k).body.getD [] = (d.body.getD []).take (k - d.contracts.length) := by
    intro k
    unfold upTo
    cases d.body <;> simp
  refine related_bind SymbolTable.LeadsOn.refl fun scope u hu => ?_
  obtain ⟨hs, hc⟩ := bodyScope_inside (yields_liftM.mp hu).1
  rw [hbody, hbody]
  show SymbolTable.LeadsOn
    ((elaborateContracts scope id (d.contracts.take k) >>= fun _ =>
      elaborateBody scope id _).run u).2
    ((elaborateContracts scope id (d.contracts.take (k + 1)) >>= fun _ =>
      elaborateBody scope id _).run u).2
  by_cases hk : k < d.contracts.length
  · -- no statement has been reached
    have hnone : k - d.contracts.length = 0 ∧ k + 1 - d.contracts.length = 0 := by omega
    rw [hnone.1, hnone.2, List.take_zero, elaborateBody, List.take_add_one,
      elaborateContracts_append]
    simp only [bind_pure_unit]
    refine related_of_bind SymbolTable.LeadsOn.refl fun _ v _ => ?_
    exact .of_reflTransGen (elaborateContracts_leadsOn hs _ v) fun _ _ h => h
  · -- all contracts have been looked at
    have hall : ∀ k, d.contracts.length ≤ k → d.contracts.take k = d.contracts :=
      fun k => List.take_of_length_le
    have hnext : k + 1 - d.contracts.length = k - d.contracts.length + 1 := by omega
    rw [hall k (by omega), hall (k + 1) (by omega), hnext, List.take_add_one, elaborateBody_append]
    refine related_bind SymbolTable.LeadsOn.refl fun _ v _ => ?_
    refine related_of_bind SymbolTable.LeadsOn.refl fun _ w _ => ?_
    exact .of_reflTransGen (elaborateBody_leadsOn hs hc _ w) fun _ _ h => h

end FunctionDecl

namespace AutomatonDecl

theorem declareVariables_append (scope : VariableScope) (l m : List VariableDecl) :
    declareVariables scope (l ++ m) =
      declareVariables scope l >>= fun pending =>
        declareVariables scope m >>= fun more => Pure.pure (pending ++ more) := by
  induction l with
  | nil => simp [declareVariables]
  | cons d l ih =>
    simp only [List.cons_append, declareVariables, ih, bind_assoc, pure_bind, List.append_assoc]

/-- More states are added to those that are there. -/
theorem declareStates_append {id : AutomatonId} {automaton : String} (l m : List StateDecl)
    {seen : List String} {t : SymbolTable} (h : HasSeen seen id t) :
    Relation.ReflTransGen Furnishes ((declareStates id automaton seen l).run t).2
      ((declareStates id automaton seen (l ++ m)).run t).2 := by
  induction l generalizing seen t with
  | nil => exact declareStates_within m h
  | cons state rest ih =>
    rw [List.cons_append, declareStates, declareStates]
    dsimp only
    by_cases hmem : state.name.name ∈ seen
    · rw [if_pos hmem, if_pos hmem]
      exact ih (h.cons _)
    · rw [if_neg hmem, if_neg hmem]
      exact ih (h.insert ⟨_, _, _⟩)

theorem declareVariables_leads {scope : VariableScope} (hs : scope.OutsideOperations)
    (ds : List VariableDecl) (t : SymbolTable) :
    t.Leads ((declareVariables scope ds).run t).2 :=
  .of_reflTransGen (declareVariables_within hs ds t) fun _ _ h => Declares.leads (.furnishes h)

/-- One state or variable more leads on. -/
theorem furnish_upTo (d : AutomatonDecl) (k : Nat) {id : AutomatonId} {t : SymbolTable}
    (hseen : HasSeen [] id t) :
    ((furnish id (d.upTo k)).run t).2.Leads ((furnish id (d.upTo (k + 1))).run t).2 := by
  have hparameter : (VariableScope.constructorParameter id).OutsideOperations := trivial
  have hmember : (VariableScope.automaton id).OutsideOperations := trivial
  unfold furnish upTo
  dsimp only
  by_cases hk : k < d.states.length
  · -- no variable has been reached
    have hnone : k - d.states.length = 0 ∧ k + 1 - d.states.length = 0 := by omega
    rw [hnone.1, hnone.2]
    simp only [Nat.zero_sub, List.take_zero, declareVariables, pure_bind, run_bind_pure_snd]
    rw [List.take_add_one]
    exact .of_reflTransGen (declareStates_append _ _ hseen) fun _ _ h =>
      Declares.leads (.furnishes h)
  have hstates : ∀ k, d.states.length ≤ k → d.states.take k = d.states :=
    fun k => List.take_of_length_le
  have hnext : k + 1 - d.states.length = k - d.states.length + 1 := by omega
  rw [hstates k (by omega), hstates (k + 1) (by omega), hnext]
  generalize k - d.states.length = k
  refine related_bind SymbolTable.Leads.refl fun _ u _ => ?_
  by_cases hk : k < d.constructorVariables.length
  · -- the states are there, but no instance variable has been reached
    have hnone : k - d.constructorVariables.length = 0 ∧
        k + 1 - d.constructorVariables.length = 0 := by omega
    rw [hnone.1, hnone.2]
    simp only [List.take_zero, declareVariables, pure_bind, run_bind_pure_snd]
    rw [List.take_add_one, declareVariables_append]
    refine related_of_bind SymbolTable.Leads.refl fun _ v _ => ?_
    rw [run_bind_pure_snd]
    exact declareVariables_leads hparameter _ v
  have hparameters : ∀ k, d.constructorVariables.length ≤ k →
      d.constructorVariables.take k = d.constructorVariables := fun k => List.take_of_length_le
  have hnext : k + 1 - d.constructorVariables.length = k - d.constructorVariables.length + 1 := by
    omega
  rw [hparameters k (by omega), hparameters (k + 1) (by omega), hnext]
  refine related_bind SymbolTable.Leads.refl fun _ v _ => ?_
  rw [run_bind_pure_snd, run_bind_pure_snd, List.take_add_one, declareVariables_append]
  refine related_of_bind SymbolTable.Leads.refl fun _ w _ => ?_
  rw [run_bind_pure_snd]
  exact declareVariables_leads hmember _ w

theorem declare_upTo (d : AutomatonDecl) (k : Nat) (t : SymbolTable) :
    ((d.upTo k).declare.run t).2.Leads ((d.upTo (k + 1)).declare.run t).2 := by
  refine related_bind SymbolTable.Leads.refl fun type u _ => ?_
  refine related_bind SymbolTable.Leads.refl fun id v hv => ?_
  exact d.furnish_upTo k (hasSeen_registered (yields_register.mp hv))

end AutomatonDecl

end SyntaxTree

end LibraryContract
