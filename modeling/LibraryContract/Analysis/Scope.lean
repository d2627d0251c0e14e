import LibraryContract.SymbolTable.Basic

/-!
# Scopes

Where an expression stands decides which variables it can name. The innermost place wins:
arguments, then variables of the body and the result, then variables of the owning automaton,
then those of the automaton that the operation works on, then global variables.
-/

namespace LibraryContract

open SyntaxTree (ContractKind)

/-- Where an expression stands. -/
structure Scope where
  automaton : Option AutomatonId
  target : Option AutomatonId
  operation : Option OperationId
  contract : Option ContractKind
deriving DecidableEq, Repr

namespace Scope

/-- Outside of every automaton. -/
def global : Scope := ⟨none, none, none, none⟩

/-- In an automaton, outside of its operations. -/
def inAutomaton (id : AutomatonId) : Scope := ⟨some id, none, none, none⟩

/-- In the body of an operation. -/
def inOperation (owner target : Option AutomatonId) (id : OperationId) : Scope :=
  ⟨owner, target, some id, none⟩

/-- In a contract of the operation whose body has scope `s`. -/
def inContract (s : Scope) (kind : ContractKind) : Scope := { s with contract := some kind }

/-- Whether the values on entry to the operation can be read: only what holds afterwards can
speak of what held before. -/
def allowsOldValues (s : Scope) : Bool := decide (s.contract = some .ensures)

/-- Whether the returned value can be read. -/
def allowsResult (s : Scope) : Bool := decide (s.contract = none ∨ s.contract = some .ensures)

/-- The automata whose variables can be named: the owner, then the target unless it is the same. -/
def automata (s : Scope) : List AutomatonId :=
  s.automaton.toList ++ (s.target.filter fun t => decide (some t ≠ s.automaton)).toList

/-- The variable of an operation that a name stands for, with its type. -/
def variableOf? (o : Operation) (id : OperationId) (name : String) :
    Option (VariableScope × String) :=
  ((o.argument? name).map fun a => (VariableScope.argument id, a.type)).or
    ((o.locals.get? name).map fun v => (v.scope, v.type))

/-- The variable that a name stands for, with its type. -/
def lookup? (s : Scope) (t : SymbolTable) (name : String) : Option (VariableScope × String) :=
  (s.operation.bind fun id => (t.operation? id).bind fun o => variableOf? o id name).or
    ((s.automata.findSome? fun id => (t.automaton? id).bind fun a => a.variableNamed? name).or
      (t.global? name) |>.map fun v => (v.scope, v.type))

end Scope

end LibraryContract
