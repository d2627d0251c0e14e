import LibraryContract.Proofs.Warnless

/-!
# Nothing is given up in silence

Every step of an analysis is candid: when it gives up on a semantic error, it has reported one. For
most steps this is a matter of how they are built (`Build.Warnless.candid`); the choice of an owner
may also warn and is looked at on its own.
-/

namespace LibraryContract

open Build

namespace SyntaxTree

theorem Identifier.candid_resolveSource (name : Identifier) (id : AutomatonId) :
    (name.resolveSource id).Candid := (name.warnless_resolveSource id).candid

theorem TypeExpr.candid_resolve (e : TypeExpr) : e.resolve.Candid := e.warnless_resolve.candid

theorem TypeDecl.candid_declare (d : TypeDecl) : d.declare.Candid := d.warnless_declare.candid

theorem TypeDecl.candid_validate (d : TypeDecl) : d.validate.Candid := d.warnless_validate.candid

theorem AnnotationDecl.candid_declare (d : AnnotationDecl) : d.declare.Candid :=
  d.warnless_declare.candid

theorem VariableDecl.candid_declare (scope : VariableScope) (d : VariableDecl) :
    (d.declare scope).Candid := (d.warnless_declare scope).candid

theorem AutomatonDecl.candid_declare (d : AutomatonDecl) : d.declare.Candid :=
  d.warnless_declare.candid

theorem ContractDecl.candid_elaborate (scope : Scope) (d : ContractDecl) :
    (d.elaborate scope).Candid := (d.warnless_elaborate scope).candid

theorem Statement.candid_elaborate (scope : Scope) (id : OperationId) (s : Statement) :
    (s.elaborate scope id).Candid := (s.warnless_elaborate scope id).candid

theorem ShiftDecl.candid_elaborate (id : AutomatonId) (d : ShiftDecl) : (d.elaborate id).Candid :=
  (d.warnless_elaborate id).candid

namespace FunctionDecl

theorem candid_resolveOwner (options : Options) (d : FunctionDecl)
    (enclosing : Option AutomatonId) : (d.resolveOwner options enclosing).Candid := by
  unfold resolveOwner
  split
  · refine Check.candid_bind (Check.candid_look _) fun _ => ?_
    refine Check.candid_ite ?_ (Check.candid_fail _ _ _)
    exact Check.candid_bind (Check.candid_warn _ _ _) fun _ => Check.candid_pure _
  · exact (Identifier.warnless_resolveAutomaton _).candid
  · exact Check.candid_pure _
  · exact Check.candid_fail _ _ _

theorem candid_register (options : Options) (d : FunctionDecl) (enclosing : Option AutomatonId) :
    (d.register options enclosing).Candid := by
  refine candid_bind (candid_liftM (d.candid_resolveOwner options enclosing)) fun owner => ?_
  refine candid_bind (d.warnless_signature owner).candid fun s => ?_
  refine candid_bind (Build.candid_register _ _) fun r => ?_
  exact candid_bind (warnless_declareResult _ _).candid fun _ => candid_pure _

theorem candid_elaborate (id : OperationId) (d : FunctionDecl) : (d.elaborate id).Candid :=
  (d.warnless_elaborate id).candid

end FunctionDecl

end SyntaxTree

theorem PendingInitializer.candid_elaborate (scope : Scope) (p : PendingInitializer) :
    (p.elaborate scope).Candid := (p.warnless_elaborate scope).candid

end LibraryContract
