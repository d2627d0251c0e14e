import LibraryContract.Proofs.Nesting
import LibraryContract.Proofs.SameBodies

/-!
# What calls can tell apart

Operations are registered under kind, name, owner and argument types, and looked up without the kind.
The tree tells all of these: the types of arguments are those that are written, but for a target, which
has the type of the automaton that it names.

* `Library.calleeKeys`: the owner, the name and the argument types of each declared operation, as the
  tree tells them;
* `RunsCleanly.calleeKey?_settled`: without errors, each declaration has these, and they are those of
  its operation.
-/

namespace LibraryContract

open SyntaxTree Build

/-- What operations are looked up by: the owner, the name and the types of the arguments. -/
abbrev CalleeKey := String × Option String × List String

def Signature.callee (s : Signature) : CalleeKey := (s.owner, s.name, s.argumentTypes)

def Signature.Face.callee (f : Signature.Face) : CalleeKey :=
  (f.owner, f.name, f.arguments.map Prod.snd)

theorem Signature.callee_face (s : Signature) : s.face.callee = s.callee := by
  simp only [Face.callee, face, callee, argumentTypes, List.map_map, Function.comp_def]

namespace SyntaxTree

namespace Library

/-- The type of an argument, as far as the declarations of a library tell it. A target has the type of
the automaton that it names, and another argument has the written type if that is declared. -/
def parameterType? (l : Library) (p : Parameter) : Option String :=
  if p.isTarget then
    match p.type with
    | .named name =>
      (l.automata.find? fun d => decide (d.name.name = name.name)).map fun d => d.type.canonicalName
    | .array _ => none
  else if p.type.innermost.name ∈ l.types.map fun d => d.name.name then some p.type.canonicalName
  else none

/-- What an operation is looked up by, when it has an owner and its arguments have types. -/
def calleeKey? (l : Library) (item : FunctionDecl × Option String) : Option CalleeKey := do
  let owner ← item.2
  let types ← item.1.parameters.mapM l.parameterType?
  return (owner, item.1.name.map Identifier.name, types)

/-- What the declared operations are looked up by. -/
def calleeKeys (l : Library) : List CalleeKey := l.settled.filterMap l.calleeKey?

end Library

end SyntaxTree

variable {V : Interface} {t u : SymbolTable}

/-! ## What interfaces tell -/

namespace SymbolTable.Shows

theorem automaton?_isSome (ht : t.Shows V) {name : String} {id : AutomatonId}
    (hid : t.automatonId? name = some id) : (V.automaton? name).isSome := by
  obtain ⟨a, ha, -⟩ := (ht.wellFormed.automatonId?_iff name id).mp hid
  rw [← ht.interface_eq]
  simp only [interface, automatonNamed?, hid, Option.bind_some, ha, Option.map_some,
    Option.isSome_some]

theorem type?_isSome (ht : t.Shows V) {name : String} (hname : BracketFree name)
    (hk : t.Knows name) : (V.type? name).isSome := by
  obtain ⟨type, htype⟩ := hk
  have hnot : type.isArray = false := by
    cases type with
    | array element => exact (hname element (ht.wellFormed.type_name name _ htype).symm).elim
    | _ => rfl
  rw [ht.type?_eq_some_iff.mpr ⟨htype, hnot⟩]
  rfl

end SymbolTable.Shows

/-! ## Parameters -/

namespace SyntaxTree

theorem TypeExpr.knows_innermost {e : TypeExpr} {name : String} (h : e.resolve.Yields t name u) :
    t.Knows e.innermost.name := by
  induction e generalizing name u with
  | named identifier => exact (yields_resolve_named.mp h).1
  | array element ih =>
    obtain ⟨inner, s, hs, -⟩ := yields_resolve_array.mp h
    exact ih hs

/-- The name that decides about the type of an argument is known. -/
def Parameter.KnownIn (V : Interface) (p : Parameter) : Prop :=
  if p.isTarget then ∃ name, p.type = .named name ∧ (V.automaton? name.name).isSome
  else (V.type? p.type.innermost.name).isSome

theorem Parameter.knownIn_of_resolve (ht : t.Shows V) {scope : Scope} {index : Nat} {p : Parameter}
    {a : Argument × Option AutomatonId} (hfree : ∀ e ∈ p.typeExprs, BracketFree e.innermost.name)
    (h : (p.resolve scope index).Yields t a u) : p.KnownIn V := by
  obtain ⟨annotations, v, hannotations, h⟩ := yields_bind.mp h
  obtain ⟨hyields, rfl⟩ := yields_liftM.mp hannotations
  rw [isTarget_of_names (resolveAnnotations_names hyields), yields_ite] at h
  rw [KnownIn]
  split at h
  · rename_i hp
    obtain ⟨id, w, hid, -⟩ := yields_bind.mp h
    obtain ⟨hid, -⟩ := yields_liftM.mp hid
    rw [if_pos hp]
    rw [Parameter.resolveTarget] at hid
    rcases htype : p.type with name | element
    · rw [htype] at hid
      exact ⟨name, rfl, ht.automaton?_isSome (Identifier.yields_resolveAutomaton.mp hid)⟩
    · rw [htype] at hid
      exact (Check.yields_fail.mp hid).elim
  · rename_i hp
    obtain ⟨type, w, htype, -⟩ := yields_bind.mp h
    rw [if_neg hp]
    refine ht.type?_isSome (hfree p.type ?_) (TypeExpr.knows_innermost htype)
    rw [Parameter.typeExprs, if_neg hp]
    exact List.mem_singleton_self _

theorem Parameter.knownIn_of_resolveAll (ht : t.Shows V) {scope : Scope} {words : String}
    {seen : List String} {index : Nat} {ps : List Parameter}
    {arguments : List (Argument × Option AutomatonId)}
    (hfree : ∀ p ∈ ps, ∀ e ∈ p.typeExprs, BracketFree e.innermost.name)
    (h : (Parameter.resolveAll scope words seen index ps).Yields t arguments u) :
    ∀ p ∈ ps, p.KnownIn V := by
  induction ps generalizing seen index t arguments with
  | nil => exact List.forall_mem_nil _
  | cons p rest ih =>
    obtain ⟨a, v, others, ha, hothers, -⟩ := Parameter.yields_resolveAll_cons h
    have hv : v.Shows V := ht.interns (ha.reaches (p.resolve_within scope index t))
    have hrest := ih hv (fun q hq => hfree q (List.mem_cons_of_mem p hq)) hothers
    exact List.forall_mem_cons.mpr
      ⟨p.knownIn_of_resolve ht (hfree p List.mem_cons_self) ha, hrest⟩

/-- An operation has a signature only if the types of its arguments are known. -/
theorem FunctionDecl.knownIn_of_signature (ht : t.Shows V) {d : FunctionDecl} {owner : AutomatonId}
    {s : Signature} (hfree : ∀ e ∈ d.typeExprs, BracketFree e.innermost.name)
    (h : (d.signature owner).Yields t s u) : ∀ p ∈ d.parameters, p.KnownIn V := by
  obtain ⟨_, arguments, v, _, _, -, harguments, -⟩ := FunctionDecl.signature_yields h
  refine Parameter.knownIn_of_resolveAll ht (fun p hp e he => hfree e ?_) harguments
  exact List.mem_append_left _ (List.mem_flatMap.mpr ⟨p, hp, he⟩)

end SyntaxTree

/-! ## Clean runs -/

theorem mapM_eq_some_map {α β : Type} {f : α → Option β} {g : α → β} {items : List α}
    (h : ∀ a ∈ items, f a = some (g a)) : items.mapM f = some (items.map g) := by
  induction items with
  | nil => rfl
  | cons a rest ih =>
    obtain ⟨ha, hrest⟩ := List.forall_mem_cons.mp h
    rw [List.mapM_cons, ha, ih hrest]
    rfl

namespace Run

variable {l l' : SyntaxTree.Library} {options : Options}

/-- The tree tells the types that the declared names tell. -/
theorem DeclaresCleanly.parameterType?_eq (h : DeclaresCleanly l) {p : Parameter}
    (hp : p.KnownIn (interface l)) : l.parameterType? p = some (p.typeIn (interface l)) := by
  have ho := withAutomata_orderly l
  have hregisters := h.registers.1
  rw [Library.parameterType?, Parameter.typeIn]
  rw [Parameter.KnownIn] at hp
  split at hp
  · rename_i htarget
    obtain ⟨name, htype, hknown⟩ := hp
    obtain ⟨face, hface⟩ := Option.isSome_iff_exists.mp hknown
    obtain ⟨a, hnamed, rfl⟩ := Option.map_eq_some_iff.mp hface
    obtain ⟨ha, hname⟩ := ho.automatonNamed?_eq_some_iff.mp hnamed
    obtain ⟨d, hd, hd'⟩ := forall₂_exists_left hregisters.automata ha
    have hfind : (l.automata.find? fun d => decide (d.name.name = name.name)) = some d := by
      have hsome : (l.automata.find? fun d => decide (d.name.name = name.name)).isSome :=
        List.find?_isSome.mpr ⟨d, hd, decide_eq_true (hd'.name.symm.trans hname)⟩
      obtain ⟨d', hfound⟩ := Option.isSome_iff_exists.mp hsome
      have hname' : d'.name.name = name.name := by simpa using List.find?_some hfound
      rw [hfound, List.inj_on_of_nodup_map h.namesDistinct.automata
        (List.mem_of_find?_eq_some hfound) hd (hname'.trans (hname.symm.trans hd'.name))]
    rw [if_pos htarget, if_pos htarget, htype]
    simp only [hfind, TypeExpr.canonicalName, hface, Option.map_some, Option.getD_some]
    exact congrArg some hd'.type.symm
  · rename_i htarget
    obtain ⟨type, htype⟩ := Option.isSome_iff_exists.mp hp
    obtain ⟨hmem, hname⟩ := ho.type?_eq_some_iff.mp htype
    rw [hregisters.types] at hmem
    obtain ⟨d, hd, rfl⟩ := List.mem_map.mp hmem
    rw [if_neg htarget, if_neg htarget, if_pos]
    rw [← hname, d.name_toDataType]
    exact List.mem_map_of_mem hd

/-- Each declaration of an operation was looked at in a table that shows the declared names. -/
theorem RunsCleanly.exists_signature (h : RunsCleanly options l) {item : Placed}
    (hitem : item ∈ placed l) : ∃ t owner s u, t.Shows (interface l) ∧
      (item.1.resolveOwner options item.2).Yields t owner ∧
        (item.1.signature owner).Yields t s u := by
  obtain ⟨before, after, hsplit⟩ := List.append_of_mem hitem
  obtain ⟨t, e, v, ht, he⟩ := clean_mapM_split
    (I := fun items t => t.Signed (interface l) (withAutomata l).2.table items)
    (fun done item rest t e u hitems ht he => signed_enter ht (fun _ hid => placed_named
      (hitems ▸ List.mem_append_right done List.mem_cons_self) hid) he)
    h.signatures h.signed_nil before item after hsplit
  obtain ⟨r, w, hr, -⟩ := clean_bind.mp he
  obtain ⟨owner, s, u, -, howner, hs, -, -⟩ := FunctionDecl.register_yields hr.yields
  exact ⟨t, owner, s, u, ht.shows, howner, hs⟩

/-- A settled declaration is one that the run has placed. -/
theorem DeclaresCleanly.exists_placed (h : DeclaresCleanly l) {item : FunctionDecl × Option String}
    (hitem : item ∈ l.settled) : ∃ placedItem ∈ placed l, placedItem.1.unqualified = item.1 ∧
      (item.2 = none → placedItem.1.automaton = none ∧ placedItem.2 = none) := by
  rw [h.placed_eq]
  rcases Library.mem_settled.mp hitem with ⟨a, ha, d, hd, rfl⟩ | ⟨d, hd, rfl⟩
  · obtain ⟨i, hi⟩ := List.mem_iff_getElem?.mp ha
    exact ⟨(d, some ⟨i⟩), Library.mem_placed.mpr (.inl ⟨i, a, hi, d, hd, rfl⟩), rfl, nofun⟩
  · exact ⟨(d, none), Library.mem_placed.mpr (.inr ⟨d, hd, rfl⟩), rfl,
      fun hnone => ⟨Option.map_eq_none_iff.mp hnone, rfl⟩⟩

/-- Without errors, the tree tells for each declaration what its operation is looked up by. -/
theorem RunsCleanly.calleeKey?_settled (h : RunsCleanly options l) (hfree : l.BracketFree)
    {item : FunctionDecl × Option String} (hitem : item ∈ l.settled) :
    l.calleeKey? item = some (Owned.face (interface l) (item.1, item.2.getD "")).callee := by
  obtain ⟨placedItem, hplaced, hdeclaration, hnone⟩ := h.exists_placed hitem
  obtain ⟨t, owner, s, u, ht, howner, hs⟩ := h.exists_signature hplaced
  have hknown : ∀ p ∈ item.1.parameters, p.KnownIn (interface l) := by
    rw [← hdeclaration]
    exact FunctionDecl.knownIn_of_signature ht (hfree.signature (h.placed_eq ▸ hplaced)) hs
  have htypes : item.1.parameters.mapM l.parameterType? =
      some (item.1.parameters.map (Parameter.typeIn (interface l))) :=
    mapM_eq_some_map fun p hp => h.parameterType?_eq (hknown p hp)
  have howned : ∃ name, item.2 = some name := by
    refine Option.ne_none_iff_exists'.mp fun hsecond => ?_
    obtain ⟨hq, henclosing⟩ := hnone hsecond
    rcases FunctionDecl.resolveOwner_yields howner with hid | ⟨-, qualifier, hqualifier, -⟩
    · cases henclosing.symm.trans hid
    · cases hq.symm.trans hqualifier
  obtain ⟨d, owner⟩ := item
  obtain ⟨name, rfl⟩ := howned
  simp only [Library.calleeKey?, htypes, Signature.Face.callee, Owned.face, FunctionDecl.face,
    Option.bind_eq_bind, Option.bind_some, Option.getD_some, Option.pure_def, List.map_map]
  rfl

/-- Without errors, the tree tells what all operations are looked up by. -/
theorem RunsCleanly.calleeKeys_eq (h : RunsCleanly options l) (hfree : l.BracketFree) :
    l.calleeKeys = l.owned.map fun item => (item.face (interface l)).callee := by
  rw [Library.calleeKeys, Library.owned_eq, List.map_map, ← List.filterMap_eq_map]
  exact List.filterMap_congr fun item hitem => h.calleeKey?_settled hfree hitem

end Run

/-! ## Moved operations -/

namespace SyntaxTree.Library.Rehouses

variable {l l' : Library}

theorem parameterType?_eq (h : l.Rehouses l') (p : Parameter) :
    l.parameterType? p = l'.parameterType? p := by
  have hfind : ∀ (l : Library) (name : Identifier),
      (l.automata.find? fun d => decide (d.name.name = name.name)).map
          (fun d => d.type.canonicalName) =
        ((l.automata.map AutomatonDecl.withoutFunctions).find? fun d =>
          decide (d.name.name = name.name)).map fun d => d.type.canonicalName := by
    intro l name
    rw [List.find?_map, Option.map_map]
    rfl
  rw [parameterType?, parameterType?, h.types]
  simp only [hfind, h.automata]

theorem calleeKeys (h : l.Rehouses l') : l.calleeKeys.Perm l'.calleeKeys := by
  have hkey : l.calleeKey? = l'.calleeKey? := by
    funext item
    have htypes : l.parameterType? = l'.parameterType? := funext h.parameterType?_eq
    rw [calleeKey?, calleeKey?, htypes]
  rw [Library.calleeKeys, Library.calleeKeys, hkey]
  exact h.settled.filterMap _

end SyntaxTree.Library.Rehouses

end LibraryContract
