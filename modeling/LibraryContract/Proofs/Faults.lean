import LibraryContract.Proofs.Candid
import LibraryContract.Proofs.Growth

/-!
# What is reported is so

A diagnostic that says that a type or an automaton is unknown is right at the moment at which it is
found. Two relations between a table and a diagnostic say what can be found there:
`DeclarationFault` while names are registered, `Fault` anywhere. Only the lookup of an operation
says that one is missing, and no step says that the tree is malformed: it gives up instead.

`Check.Finds` and `Build.Finds` say that a step finds nothing else. They come with one lemma for
each way of building a step, and with one lemma for each step, from expressions up to whole
declarations.
-/

namespace LibraryContract

/-- Whether a diagnostic of this kind says neither that a type, an automaton or an operation is
missing nor that the tree is malformed. -/
def DiagnosticKind.isPlain : DiagnosticKind → Bool
  | .unresolvedType | .unresolvedAutomaton | .unresolvedFunction | .malformedTree => false
  | _ => true

/-- What can be found while types, annotations, variables and automata are registered. -/
inductive DeclarationFault (t : SymbolTable) : Diagnostic → Prop
  | type {name : String} {span : Span} (h : ¬t.Knows name) :
      DeclarationFault t (.error .unresolvedType s!"unresolved type '{name}'" span)
  | refused {d : Diagnostic} (h : d.kind = .duplicateDeclaration ∨ d.kind = .invalidType) :
      DeclarationFault t d

/-- What can be found anywhere, when `L` holds of what lookups of operations say. -/
inductive Fault (L : Diagnostic → Prop) (t : SymbolTable) : Diagnostic → Prop
  | declaration {d : Diagnostic} (h : DeclarationFault t d) : Fault L t d
  | reference {name : String} {span : Span} (h : ¬t.Knows name) :
      Fault L t (.error .unresolvedType s!"unresolved type reference '{name}'" span)
  | automaton {name : String} {span : Span} (h : t.automatonId? name = none) :
      Fault L t (.error .unresolvedAutomaton s!"unresolved automaton '{name}'" span)
  | owner {name : String} {span : Span} (h : t.automatonId? name = none) :
      Fault L t (.error .unresolvedAutomaton s!"unknown automaton '{name}'" span)
  | operation {d : Diagnostic} (hk : d.kind = .unresolvedFunction) (h : L d) :
      Fault L t d
  | other {d : Diagnostic} (h : d.kind.isPlain = true) : Fault L t d

theorem Fault.mono {L L' : Diagnostic → Prop} {t : SymbolTable} {d : Diagnostic}
    (hl : ∀ d, L d → L' d) (h : Fault L t d) : Fault L' t d := by
  cases h with
  | declaration h => exact .declaration h
  | reference h => exact .reference h
  | automaton h => exact .automaton h
  | owner h => exact .owner h
  | operation hk h => exact .operation hk (hl d h)
  | other h => exact .other h

theorem Fault.not_malformed {L : Diagnostic → Prop} {t : SymbolTable} {d : Diagnostic}
    (h : Fault L t d) : d.kind ≠ .malformedTree := by
  intro hd
  rcases h with (_ | (h | h)) | _ | _ | _ | ⟨h, -⟩ | h
  case other => simp [hd, DiagnosticKind.isPlain] at h
  all_goals first | (rw [hd] at h; cases h) | cases hd

theorem DeclarationFault.not_malformed {t : SymbolTable} {d : Diagnostic}
    (h : DeclarationFault t d) : d.kind ≠ .malformedTree :=
  (Fault.declaration (L := fun _ => False) h).not_malformed

variable {α β : Type} {F G : SymbolTable → Diagnostic → Prop} {t : SymbolTable}

/-! ## Steps that only look -/

namespace Check

/-- What the step reports is found in the table. -/
def Finds (F : SymbolTable → Diagnostic → Prop) (c : Check α) (t : SymbolTable) : Prop :=
  ∀ d ∈ (c.run t).diagnostics, F t d

theorem finds_pure (a : α) : (Pure.pure a : Check α).Finds F t := List.forall_mem_nil _

theorem finds_bind {c : Check α} {f : α → Check β} (hc : c.Finds F t)
    (hf : ∀ a, c.Yields t a → (f a).Finds F t) : (c >>= f).Finds F t := by
  show ∀ d ∈ ((bind c f).run t).diagnostics, F t d
  cases h : (c.run t).result with
  | error e =>
    rw [run_bind_of_error h]
    exact hc
  | ok a =>
    rw [run_bind_of_ok h]
    exact List.forall_mem_append.mpr ⟨hc, hf a h⟩

theorem finds_look (f : SymbolTable → α) : (look f).Finds F t := List.forall_mem_nil _

theorem finds_fail {kind : DiagnosticKind} {message : String} {span : Span}
    (h : F t (.error kind message span)) : (fail kind message span : Check α).Finds F t :=
  List.forall_mem_singleton.mpr h

theorem finds_reject (message : String) (span : Span) :
    (reject message span : Check α).Finds F t := List.forall_mem_nil _

theorem finds_warn {kind : DiagnosticKind} {message : String} {span : Span}
    (h : F t (.warning kind message span)) : (warn kind message span).Finds F t :=
  List.forall_mem_singleton.mpr h

theorem finds_both {c : Check α} {d : Check β} (hc : c.Finds F t) (hd : d.Finds F t) :
    (both c d).Finds F t := List.forall_mem_append.mpr ⟨hc, hd⟩

theorem finds_ite {p : Prop} [Decidable p] {c d : Check α} (hc : p → c.Finds F t)
    (hd : ¬p → d.Finds F t) : (if p then c else d).Finds F t := by
  split
  · rename_i h
    exact hc h
  · rename_i h
    exact hd h

/-- An error may be reported first, and then nothing follows. -/
theorem finds_guard {p : Prop} [Decidable p] {kind : DiagnosticKind} {message : String}
    {span : Span} {d : Check β} (h : F t (.error kind message span)) (hd : d.Finds F t) :
    (if p then (fail kind message span : Check Unit) >>= fun _ => d else d).Finds F t :=
  finds_ite (fun _ => finds_bind (finds_fail h) fun _ _ => hd) fun _ => hd

theorem finds_mapM {f : α → Check β} {items : List α} (hf : ∀ a ∈ items, (f a).Finds F t) :
    (items.mapM f).Finds F t := by
  induction items with
  | nil => exact finds_pure _
  | cons a rest ih =>
    rw [List.mapM_cons]
    refine finds_bind (hf a List.mem_cons_self) fun b _ => ?_
    exact finds_bind (ih fun b hb => hf b (List.mem_cons_of_mem a hb)) fun bs _ => finds_pure _

end Check

/-! ## Steps that register -/

namespace Build

/-- What the step reports is found in its table, or in one that the step has passed. -/
def Finds (F : SymbolTable → Diagnostic → Prop) (b : Build α) (t : SymbolTable) : Prop :=
  ∀ d ∈ (b.run t).1.diagnostics, ∃ u, t.GrowsTo u ∧ F u d

theorem Within.growsTo {S : SymbolTable → SymbolTable → Prop} {b : Build α}
    (hS : ∀ {t u}, S t u → t.GrowsTo u) (h : b.Within S t) : t.GrowsTo (b.run t).2 :=
  .of_reflTransGen h fun _ _ => hS

theorem Finds.mono {b : Build α} (hF : ∀ u d, F u d → G u d) (h : b.Finds F t) : b.Finds G t :=
  fun d hd => (h d hd).imp fun u hu => ⟨hu.1, hF u d hu.2⟩

theorem finds_pure (a : α) : (Pure.pure a : Build α).Finds F t := List.forall_mem_nil _

theorem finds_bind {b : Build α} {f : α → Build β} (hb : b.Finds F t)
    (hgrows : t.GrowsTo (b.run t).2) (hf : ∀ a u, b.Yields t a u → (f a).Finds F u) :
    (b >>= f).Finds F t := by
  show ∀ d ∈ ((bind b f).run t).1.diagnostics, ∃ u, t.GrowsTo u ∧ F u d
  cases h : (b.run t).1.result with
  | error e =>
    rw [run_bind_of_error h]
    exact hb
  | ok a =>
    rw [run_bind_of_ok h]
    refine List.forall_mem_append.mpr ⟨hb, fun d hd => ?_⟩
    obtain ⟨u, hu, hd⟩ := hf a _ ⟨h, rfl⟩ d hd
    exact ⟨u, hgrows.trans hu, hd⟩

theorem finds_liftM {c : Check α} (hc : c.Finds F t) : (liftM c : Build α).Finds F t :=
  fun d hd => ⟨t, .refl t, hc d hd⟩

theorem finds_ofCheck {c : Check α} (hc : c.Finds F t) : (ofCheck c).Finds F t :=
  fun d hd => ⟨t, .refl t, hc d hd⟩

/-- What follows a look at the table sees the same table. -/
theorem finds_liftM_bind {c : Check α} {f : α → Build β} (hc : c.Finds F t)
    (hf : ∀ a, c.Yields t a → (f a).Finds F t) : ((liftM c : Build α) >>= f).Finds F t := by
  refine finds_bind (finds_liftM hc) (.refl t) fun a u hu => ?_
  obtain ⟨ha, rfl⟩ := yields_liftM.mp hu
  exact hf a ha

theorem finds_modify (f : SymbolTable → SymbolTable) : (modify f).Finds F t :=
  List.forall_mem_nil _

theorem finds_note_bind {kind : DiagnosticKind} {message : String} {span : Span} {b : Build β}
    (h : F t (.error kind message span)) (hb : b.Finds F t) :
    (note kind message span >>= fun _ => b).Finds F t := by
  refine finds_bind (List.forall_mem_singleton.mpr ⟨t, .refl t, h⟩) (.refl t) fun _ u hu => ?_
  obtain rfl := yields_note.mp hu
  exact hb

theorem finds_register {f : SymbolTable → Except RegistrationError (α × SymbolTable)} {span : Span}
    (h : ∀ e, f t = .error e → F t (.error e.kind e.message span)) :
    (register f span).Finds F t := by
  simp only [Finds, register]
  rcases hf : f t with e | ⟨a, u⟩
  · exact List.forall_mem_singleton.mpr ⟨t, .refl t, h e hf⟩
  · exact List.forall_mem_nil _

theorem finds_registerUnit {f : SymbolTable → Except RegistrationError SymbolTable} {span : Span}
    (h : ∀ e, f t = .error e → F t (.error e.kind e.message span)) :
    (registerUnit f span).Finds F t := by
  refine finds_register fun e he => h e ?_
  cases hf : f t with
  | error e' =>
    rw [hf] at he
    cases he
    rfl
  | ok u =>
    rw [hf] at he
    cases he

theorem finds_attempt {b : Build α} (hb : b.Finds F t) : b.attempt.Finds F t := by
  unfold Finds attempt at *
  rcases h : b.run t with ⟨⟨(_ | m) | x, ds⟩, v⟩ <;> simpa [h] using hb

theorem finds_ite {p : Prop} [Decidable p] {b c : Build α} (hb : p → b.Finds F t)
    (hc : ¬p → c.Finds F t) : (if p then b else c).Finds F t := by
  split
  · rename_i h
    exact hb h
  · rename_i h
    exact hc h

/-- An error may be reported first, and then nothing follows. -/
theorem finds_guard {p : Prop} [Decidable p] {kind : DiagnosticKind} {message : String}
    {span : Span} {b : Build β} (h : F t (.error kind message span)) (hb : b.Finds F t) :
    (if p then (liftM (Check.fail kind message span : Check Unit) : Build Unit) >>= fun _ => b
      else b).Finds F t :=
  finds_ite (fun _ => finds_liftM_bind (Check.finds_fail h) fun _ _ => hb) fun _ => hb

/-- An error may be noted first. -/
theorem finds_note_guard {p : Prop} [Decidable p] {kind : DiagnosticKind} {message : String}
    {span : Span} {b : Build β} (h : F t (.error kind message span)) (hb : b.Finds F t) :
    (if p then note kind message span >>= fun _ => b else b).Finds F t :=
  finds_ite (fun _ => finds_note_bind h hb) fun _ => hb

theorem finds_mapM {S : SymbolTable → SymbolTable → Prop} {f : α → Build β} {items : List α}
    (hS : ∀ {t u}, S t u → t.GrowsTo u) (hw : ∀ a t, (f a).Within S t)
    (hf : ∀ a ∈ items, ∀ u, Relation.ReflTransGen S t u → (f a).Finds F u) :
    (items.mapM f).Finds F t := by
  induction items generalizing t with
  | nil => exact finds_pure _
  | cons a rest ih =>
    rw [List.mapM_cons]
    refine finds_bind (hf a List.mem_cons_self t .refl) ((hw a t).growsTo hS) fun b u hb => ?_
    have hrest : (rest.mapM f).Finds F u := by
      refine ih fun c hc v hv => ?_
      exact hf c (List.mem_cons_of_mem a hc) v ((hb.reaches (hw a t)).trans hv)
    exact finds_bind hrest ((within_mapM (fun c _ => hw c) u).growsTo hS) fun bs v _ => finds_pure _

theorem finds_optionMapM {f : α → Build β} (item : Option α) (hf : ∀ a, (f a).Finds F t)
    (hgrows : ∀ a, t.GrowsTo ((f a).run t).2) : (item.mapM f).Finds F t := by
  cases item with
  | none => exact finds_pure _
  | some a => exact finds_bind (hf a) (hgrows a) fun b u _ => finds_pure _

end Build

/-! ## Registering names -/

open Build

namespace SyntaxTree

theorem TypeExpr.finds_resolve (e : TypeExpr) : e.resolve.Finds DeclarationFault t := by
  induction e with
  | named name =>
    rw [TypeExpr.resolve]
    refine finds_liftM_bind (Check.finds_look _) fun known hknown => ?_
    refine finds_ite (fun _ => finds_pure _) fun hk => finds_liftM (Check.finds_fail (.type ?_))
    rw [SymbolTable.knows_iff_contains, Check.yields_look.mp hknown]
    exact hk
  | array element ih =>
    rw [TypeExpr.resolve]
    refine finds_bind ih ((element.resolve_within t).growsTo Interns.growsTo) fun inner u _ => ?_
    exact finds_bind (finds_modify _) (SymbolTable.growsTo_internArray u inner) fun _ _ _ =>
      finds_pure _

theorem TypeExpr.resolve_growsTo (e : TypeExpr) (t : SymbolTable) :
    t.GrowsTo (e.resolve.run t).2 := (e.resolve_within t).growsTo Interns.growsTo

namespace TypeDecl

/-- While types are declared, nothing is reported but names that are taken. -/
theorem declare_reports (d : TypeDecl) (t : SymbolTable) :
    ∀ e ∈ (d.declare.run t).1.diagnostics, e.kind = .duplicateDeclaration := by
  rw [declare]
  show ∀ e ∈ ((Build.bind (modify _) fun _ => registerUnit _ _).run t).1.diagnostics,
    e.kind = .duplicateDeclaration
  rw [run_bind_of_ok (a := ()) rfl]
  refine List.forall_mem_append.mpr ⟨List.forall_mem_nil _, ?_⟩
  simp only [registerUnit, Build.register, SymbolTable.registerType]
  split
  · exact List.forall_mem_nil _
  · rename_i e he
    split at he
    · cases he
    · cases he
      exact List.forall_mem_singleton.mpr rfl

section SecondLook

variable {F : SymbolTable → Diagnostic → Prop}

theorem finds_noteRepeated
    (hF : ∀ u message span, F u (.error .duplicateDeclaration message span))
    (words : String → String) (seen : List String) (names : List Identifier) :
    (noteRepeated words seen names).Finds F t := by
  induction names generalizing seen with
  | nil => exact finds_pure _
  | cons name rest ih => exact finds_note_guard (hF _ _ _) (ih _)

theorem finds_validateFields
    (hF : ∀ u message span, F u (.error .duplicateDeclaration message span))
    (hresolve : ∀ (e : TypeExpr) u, e.resolve.Finds F u) (typeName : String) (seen : List String)
    (fields : List FieldDecl) : (validateFields typeName seen fields).Finds F t := by
  induction fields generalizing seen t with
  | nil => exact finds_pure _
  | cons field rest ih =>
    refine finds_note_guard (hF _ _ _) ?_
    have hgrows := (within_attempt (field.type.resolve_within t)).growsTo Interns.growsTo
    exact finds_bind (finds_attempt (hresolve _ t)) hgrows fun _ u _ => ih _

end SecondLook

theorem finds_validate (d : TypeDecl) : d.validate.Finds DeclarationFault t := by
  unfold validate
  cases d.definition with
  | simple | real => exact finds_pure _
  | «alias» target =>
    refine finds_bind target.finds_resolve (target.resolve_growsTo t) fun _ u _ => ?_
    refine finds_liftM_bind (Check.finds_look _) fun cyclic _ => ?_
    exact finds_ite (fun _ => finds_liftM (Check.finds_fail (.refused (Or.inr rfl)))) fun _ =>
      finds_pure _
  | structured fields =>
    exact finds_validateFields (fun _ _ _ => .refused (Or.inl rfl)) (fun e _ => e.finds_resolve)
      _ _ fields
  | enum members => exact finds_noteRepeated (fun _ _ _ => .refused (Or.inl rfl)) _ _ _
  | enumLike underlying backing =>
    refine finds_liftM_bind (Check.finds_look _) fun isEnum _ => ?_
    refine finds_note_guard (.refused (Or.inr rfl)) ?_
    exact finds_bind backing.finds_resolve (backing.resolve_growsTo t) fun _ u _ => finds_pure _

end TypeDecl

/-- A refused variable bears a name that is taken. -/
theorem registerVariable_refused {v : Variable} {e : RegistrationError}
    (h : t.registerVariable v = .error e) : e.kind = .duplicateDeclaration := by
  unfold SymbolTable.registerVariable at h
  split at h
  · cases h
    rfl
  · split at h
    · cases h
      rfl
    · cases h

theorem AnnotationDecl.finds_declare (d : AnnotationDecl) :
    d.declare.Finds DeclarationFault t := by
  have hwithin : ∀ (p : Parameter) t, (p.type.resolve >>= fun type =>
      (Pure.pure ⟨p.name.name, type⟩ : Build AnnotationParameter)).Within Interns t :=
    fun p t => within_bind (p.type.resolve_within t) fun _ _ _ => within_pure _
  refine finds_bind (finds_mapM Interns.growsTo hwithin fun p _ u _ => ?_)
    ((within_mapM (fun p _ => hwithin p) t).growsTo Interns.growsTo) fun parameters u _ => ?_
  · exact finds_bind p.type.finds_resolve (p.type.resolve_growsTo u) fun _ _ _ => finds_pure _
  · refine finds_registerUnit fun e he => .refused (Or.inl ?_)
    unfold SymbolTable.registerAnnotationType at he
    split at he
    · cases he
      rfl
    · cases he

theorem VariableDecl.finds_declare (scope : VariableScope) (d : VariableDecl) :
    (d.declare scope).Finds DeclarationFault t := by
  refine finds_bind d.type.finds_resolve (d.type.resolve_growsTo t) fun type u _ => ?_
  exact finds_registerUnit fun e he => .refused (Or.inl (registerVariable_refused he))

namespace AutomatonDecl

/-- Of states with one name all but the first are reported, whatever the table. -/
theorem declareStates_reports (id : AutomatonId) (automaton : String) (seen : List String)
    (states : List StateDecl) (t : SymbolTable) :
    ∀ d ∈ ((declareStates id automaton seen states).run t).1.diagnostics,
      d.kind = .duplicateDeclaration := by
  induction states generalizing seen t with
  | nil => exact List.forall_mem_nil _
  | cons state rest ih =>
    rw [declareStates]
    split
    · show ∀ d ∈ ((Build.bind (note _ _ _) fun _ => declareStates id automaton _ rest).run t).1.diagnostics,
        d.kind = .duplicateDeclaration
      rw [run_bind_of_ok (a := ()) rfl]
      exact List.forall_mem_append.mpr ⟨List.forall_mem_singleton.mpr rfl, ih _ _⟩
    · show ∀ d ∈ ((Build.bind (modify _) fun _ => declareStates id automaton _ rest).run t).1.diagnostics,
        d.kind = .duplicateDeclaration
      rw [run_bind_of_ok (a := ()) rfl]
      exact List.forall_mem_append.mpr ⟨List.forall_mem_nil _, ih _ _⟩

theorem finds_declareVariables {scope : VariableScope} (hs : scope.OutsideOperations)
    (ds : List VariableDecl) : (declareVariables scope ds).Finds DeclarationFault t := by
  induction ds generalizing t with
  | nil => exact finds_pure _
  | cons d rest ih =>
    have hgrows := (within_attempt (d.declare_within hs t)).growsTo Furnishes.growsTo
    refine finds_bind (finds_attempt (d.finds_declare scope)) hgrows fun _ u _ => ?_
    exact finds_bind ih ((declareVariables_within hs rest u).growsTo Furnishes.growsTo)
      fun _ v _ => finds_pure _

theorem finds_declare (d : AutomatonDecl) : d.declare.Finds DeclarationFault t := by
  refine finds_bind (finds_attempt d.type.finds_resolve)
    ((within_attempt (d.type.resolve_within t)).growsTo Interns.growsTo) fun type u _ => ?_
  refine finds_bind (finds_register fun e he => .refused (Or.inl ?_))
    ((within_register fun id v hv => .automaton hv).growsTo Declares.growsTo) fun id v hv => ?_
  · unfold SymbolTable.registerAutomaton at he
    split at he
    · cases he
      rfl
    · cases he
  have hp : (VariableScope.constructorParameter id).OutsideOperations := trivial
  have hm : (VariableScope.automaton id).OutsideOperations := trivial
  have hstates : (declareStates id d.name.name [] d.states).Within Furnishes v := by
    refine declareStates_within d.states fun a ha n hn => ?_
    rw [SymbolTable.registerAutomaton_skeleton (yields_register.mp hv)] at ha
    cases ha
    cases hn
  refine finds_bind (fun e he => ⟨v, .refl v, ?_⟩) (hstates.growsTo Furnishes.growsTo) fun _ w _ => ?_
  · exact .refused (Or.inl (declareStates_reports _ _ _ _ _ e he))
  refine finds_bind (finds_declareVariables hp _)
    ((declareVariables_within hp _ w).growsTo Furnishes.growsTo) fun _ x _ => ?_
  exact finds_bind (finds_declareVariables hm _)
    ((declareVariables_within hm _ x).growsTo Furnishes.growsTo) fun _ y _ => finds_pure _

end AutomatonDecl

end SyntaxTree

/-! ## Looking at expressions -/

section Looking

open Check

variable {L : Diagnostic → Prop}

theorem finds_reachedType (name : String) (span : Span) :
    (reachedType name span).Finds (Fault L) t := by
  refine finds_bind (finds_look _) fun found hfound => ?_
  rw [yields_look] at hfound
  cases found with
  | ok type => exact finds_pure _
  | error e =>
    unfold SymbolTable.resolveType at hfound
    split at hfound
    · cases hfound
    · rename_i hnone
      cases hfound
      refine finds_fail (.reference ?_)
      rintro ⟨type, htype⟩
      rw [hnone] at htype
      cases htype

theorem finds_fieldOf (surface : String) (field : SyntaxTree.Identifier) (depth : Nat)
    (type : DataType) : (fieldOf surface field depth type).Finds (Fault L) t := by
  fun_induction fieldOf surface field depth type with
  | case5 _ _ underlying backing =>
    refine finds_bind (finds_reachedType _ _) fun base _ => ?_
    split
    · exact finds_ite (fun _ => finds_pure _) fun _ => finds_fail (.other rfl)
    · exact finds_fail (.other rfl)
  | case7 depth _ target ih => exact finds_bind (finds_reachedType _ _) fun type _ => ih type
  | _ => first | exact finds_pure _ | exact finds_fail (.other rfl)

theorem finds_elementOf (surface : String) (span : Span) (depth : Nat) (type : DataType) :
    (elementOf surface span depth type).Finds (Fault L) t := by
  fun_induction elementOf surface span depth type with
  | case4 depth _ target ih => exact finds_bind (finds_reachedType _ _) fun type _ => ih type
  | _ => first | exact finds_pure _ | exact finds_fail (.other rfl)

theorem finds_fieldType (current : String) (field : SyntaxTree.Identifier) :
    (fieldType current field).Finds (Fault L) t :=
  finds_bind (finds_reachedType _ _) fun type _ => finds_fieldOf _ _ _ type

theorem finds_elementType (current : String) (span : Span) :
    (elementType current span).Finds (Fault L) t :=
  finds_bind (finds_reachedType _ _) fun type _ => finds_elementOf _ _ _ type

namespace SyntaxTree

theorem Identifier.finds_resolveVariable (name : Identifier) (scope : Scope) :
    (name.resolveVariable scope).Finds (Fault L) t := by
  refine finds_bind (finds_look _) fun found _ => ?_
  cases found with
  | none => exact finds_fail (.other rfl)
  | some found => exact finds_ite (fun _ => finds_fail (.other rfl)) fun _ => finds_pure _

theorem Identifier.finds_resolveAutomaton (name : Identifier) :
    name.resolveAutomaton.Finds (Fault L) t := by
  refine finds_bind (finds_look _) fun found hfound => ?_
  cases found with
  | none => exact finds_fail (.automaton (yields_look.mp hfound))
  | some id => exact finds_pure _

theorem finds_resolveGetter (automaton argument : Identifier) (scope : Scope) :
    (resolveGetter automaton argument scope).Finds (Fault L) t := by
  refine finds_bind automaton.finds_resolveAutomaton fun id _ => ?_
  refine finds_bind (finds_look _) fun _ _ => finds_ite (fun _ => finds_fail (.other rfl)) fun _ => ?_
  exact finds_bind (finds_look _) fun _ _ => finds_pure _

theorem Identifier.finds_resolveAutomatonVariable (name : Identifier) (id : AutomatonId) :
    (name.resolveAutomatonVariable id).Finds (Fault L) t := by
  refine finds_bind (finds_look _) fun found _ => ?_
  cases found with
  | none => exact finds_bind (finds_look _) fun owner _ => finds_fail (.other rfl)
  | some v => exact finds_pure _

variable (scope : Scope)

mutual

theorem Expr.finds_elaborate (e : Expr) : (e.elaborate scope).Finds (Fault L) t := by
  cases e with
  | literal value span => exact finds_pure _
  | access chain span => exact finds_bind chain.finds_resolve fun _ _ => finds_pure _
  | old chain span =>
    refine finds_guard (.other rfl) ?_
    exact finds_bind chain.finds_resolve fun _ _ => finds_pure _
  | unary token operand span =>
    rw [Expr.elaborate]
    cases UnaryOperator.ofToken? token with
    | none => exact finds_reject _ _
    | some operator => exact finds_bind operand.finds_elaborate fun _ _ => finds_pure _
  | binary token left right span =>
    rw [Expr.elaborate]
    cases BinaryOperator.ofToken? token with
    | none => exact finds_reject _ _
    | some operator =>
      refine finds_bind (finds_both left.finds_elaborate right.finds_elaborate) fun operands _ => ?_
      exact finds_pure _
  | group inner span => exact inner.finds_elaborate
termination_by structural e

theorem Chain.finds_resolve (c : Chain) : (c.resolve scope).Finds (Fault L) t := by
  rcases c with ⟨_ | ⟨name | index | ⟨automaton, argument⟩, rest⟩, span⟩
  · exact finds_reject _ _
  · refine finds_bind (name.finds_resolveVariable scope) fun found _ => ?_
    exact finds_bind (finds_resolveRest rest _) fun rest _ => finds_pure _
  · exact finds_reject _ _
  · have hgetter : ∀ found : AutomatonId × String, (do
        let rest ← resolveRest scope found.2 rest
        return (⟨.getter found.1 argument.name found.2, rest⟩ : Access)).Finds (Fault L) t :=
      fun found => finds_bind (finds_resolveRest rest _) fun rest _ => finds_pure _
    rcases rest with _ | ⟨name | index | ⟨_, _⟩, rest⟩
    · exact finds_bind (finds_resolveGetter _ _ _) fun found _ => hgetter found
    · refine finds_bind (finds_resolveGetter _ _ _) fun found _ => ?_
      refine finds_bind (name.finds_resolveAutomatonVariable _) fun reached _ => ?_
      exact finds_bind (finds_resolveRest rest _) fun rest _ => finds_pure _
    · exact finds_bind (finds_resolveGetter _ _ _) fun found _ => hgetter found
    · exact finds_bind (finds_resolveGetter _ _ _) fun found _ => hgetter found
termination_by structural c

theorem finds_resolveRest (segments : List Segment) (current : String) :
    (resolveRest scope current segments).Finds (Fault L) t := by
  rcases segments with _ | ⟨name | index | ⟨automaton, argument⟩, rest⟩
  · exact finds_pure _
  · refine finds_bind (finds_fieldType _ _) fun type _ => ?_
    exact finds_bind (finds_resolveRest rest _) fun rest _ => finds_pure _
  · refine finds_bind (finds_elementType _ _) fun type _ => ?_
    refine finds_bind index.finds_elaborate fun index _ => ?_
    exact finds_bind (finds_resolveRest rest _) fun rest _ => finds_pure _
  · exact finds_reject _ _
termination_by structural segments

end

/-! ## Looking at declarations -/

theorem AnnotationUse.finds_resolve (use : AnnotationUse) :
    (use.resolve scope).Finds (Fault L) t := by
  refine finds_bind (finds_look _) fun expected _ => ?_
  cases expected with
  | none => exact finds_fail (.other rfl)
  | some expected =>
    refine finds_ite (fun _ => finds_fail (.other rfl)) fun _ => ?_
    exact finds_bind (finds_mapM fun e _ => e.finds_elaborate scope) fun _ _ => finds_pure _

theorem finds_resolveAnnotations (uses : List AnnotationUse) :
    (resolveAnnotations scope uses).Finds (Fault L) t :=
  finds_mapM fun use _ => use.finds_resolve scope

theorem Parameter.finds_resolveTarget (p : Parameter) :
    p.resolveTarget.Finds (Fault L) t := by
  unfold resolveTarget
  split
  · exact Identifier.finds_resolveAutomaton _
  · exact finds_fail (.other rfl)

theorem FunctionDecl.finds_resolveOwner (options : Options) (d : FunctionDecl)
    (enclosing : Option AutomatonId) :
    (d.resolveOwner options enclosing).Finds (Fault L) t := by
  unfold resolveOwner
  split
  · refine finds_bind (finds_look _) fun _ _ => finds_ite (fun _ => ?_) fun _ => finds_fail (.other rfl)
    exact finds_bind (finds_warn (.other rfl)) fun _ _ => finds_pure _
  · exact Identifier.finds_resolveAutomaton _
  · exact finds_pure _
  · exact finds_fail (.other rfl)

theorem Identifier.finds_resolveState (name : Identifier) (id : AutomatonId) :
    (name.resolveState id).Finds (Fault L) t :=
  finds_bind (finds_look _) fun _ _ =>
    finds_ite (fun _ => finds_pure _) fun _ => finds_fail (.other rfl)

theorem Identifier.finds_resolveSource (name : Identifier) (id : AutomatonId) :
    (name.resolveSource id).Finds (Fault L) t := by
  refine finds_ite (fun _ => finds_pure _) fun _ => finds_ite (fun _ => finds_fail (.other rfl)) fun _ => ?_
  exact finds_bind (name.finds_resolveState id) fun _ _ => finds_pure _

theorem Identifier.finds_resolveTarget (name : Identifier) (id : AutomatonId) :
    (name.resolveTarget id).Finds (Fault L) t := by
  refine finds_ite (fun _ => finds_pure _) fun _ => finds_ite (fun _ => finds_fail (.other rfl)) fun _ => ?_
  exact finds_bind (name.finds_resolveState id) fun _ _ => finds_pure _

namespace ConstructorCall

theorem finds_resolveState (id : AutomatonId) (value : Expr) :
    (resolveState id value).Finds (Fault L) t := by
  unfold resolveState
  split
  · exact Identifier.finds_resolveState _ id
  · exact finds_fail (.other rfl)

theorem finds_resolveArguments (id : AutomatonId) (automaton : String)
    (arguments : List NamedArgument) (state : Option String) (bound : List ConstructorArgument) :
    (resolveArguments scope id automaton state bound arguments).Finds (Fault L) t := by
  induction arguments generalizing state bound with
  | nil => exact finds_pure _
  | cons argument rest ih =>
    refine finds_ite (fun _ => finds_guard (.other rfl) ?_) fun _ => ?_
    · exact finds_bind (finds_resolveState id _) fun state _ => ih _ _
    · refine finds_bind (finds_look _) fun _ _ => finds_guard (.other rfl) ?_
      refine finds_guard (.other rfl) ?_
      exact finds_bind (argument.value.finds_elaborate scope) fun value _ => ih _ _

theorem finds_resolve (call : ConstructorCall) : (call.resolve scope).Finds (Fault L) t := by
  refine finds_bind call.automaton.finds_resolveAutomaton fun id _ => ?_
  refine finds_bind (finds_resolveArguments scope id _ _ _ _) fun found _ => ?_
  rcases found with ⟨_ | state, arguments⟩
  · exact finds_fail (.other rfl)
  · exact finds_pure _

end ConstructorCall

theorem ContractDecl.finds_elaborate (d : ContractDecl) :
    (d.elaborate scope).Finds (Fault L) t := by
  refine finds_bind (d.expression.finds_elaborate _) fun value _ => ?_
  exact finds_guard (.other rfl) (finds_pure _)

end SyntaxTree

end Looking

/-! ## Registering operations -/

variable {L : Diagnostic → Prop}

/-- What is found while names are registered may be found anywhere. -/
theorem Build.Finds.declaration {b : Build α} (h : b.Finds DeclarationFault t) :
    b.Finds (Fault L) t := h.mono fun _ _ => .declaration

/-- Lookups say no more than the whole step does. -/
theorem Build.Finds.restrict {b : Build α} (h : b.Finds (Fault fun _ => True) t)
    (hl : ∀ d ∈ (b.run t).1.diagnostics, L d) : b.Finds (Fault L) t := by
  intro d hd
  obtain ⟨u, hu, hfault⟩ := h d hd
  refine ⟨u, hu, ?_⟩
  cases hfault with
  | declaration h => exact .declaration h
  | reference h => exact .reference h
  | automaton h => exact .automaton h
  | owner h => exact .owner h
  | operation hk _ => exact .operation hk (hl d hd)
  | other h => exact .other h

namespace SyntaxTree

theorem TypeExpr.finds_resolve_fault (e : TypeExpr) : e.resolve.Finds (Fault L) t :=
  e.finds_resolve.declaration

theorem Parameter.finds_resolve (scope : Scope) (index : Nat) (p : Parameter) :
    (p.resolve scope index).Finds (Fault L) t := by
  refine finds_liftM_bind (finds_resolveAnnotations scope _) fun _ _ => ?_
  refine finds_ite (fun _ => ?_) fun _ => ?_
  · refine finds_liftM_bind p.finds_resolveTarget fun target _ => ?_
    exact finds_liftM_bind (Check.finds_look _) fun _ _ => finds_pure _
  · exact finds_bind p.type.finds_resolve_fault (p.type.resolve_growsTo t) fun _ u _ => finds_pure _

theorem Parameter.finds_resolveAll (scope : Scope) (words : String) (seen : List String)
    (index : Nat) (ps : List Parameter) :
    (Parameter.resolveAll scope words seen index ps).Finds (Fault L) t := by
  induction ps generalizing seen index t with
  | nil => exact finds_pure _
  | cons p rest ih =>
    refine finds_guard (.other rfl) ?_
    refine finds_bind (p.finds_resolve scope index)
      ((p.resolve_within scope index t).growsTo Interns.growsTo) fun argument u _ => ?_
    exact finds_bind (ih _ _) ((resolveAll_within scope words _ _ rest u).growsTo Interns.growsTo)
      fun _ v _ => finds_pure _

namespace FunctionDecl

theorem finds_signature (d : FunctionDecl) (owner : AutomatonId) :
    (d.signature owner).Finds (Fault L) t := by
  refine finds_liftM_bind (Check.finds_look _) fun name _ => ?_
  refine finds_liftM_bind (finds_resolveAnnotations _ _) fun annotations _ => ?_
  refine finds_bind (Parameter.finds_resolveAll _ _ _ _ _)
    ((Parameter.resolveAll_within _ _ _ _ _ t).growsTo Interns.growsTo) fun arguments u _ => ?_
  refine finds_bind (finds_optionMapM _ (fun e => e.finds_resolve_fault) fun e => e.resolve_growsTo u)
    ((within_optionMapM (fun e t => e.resolve_within t) _).growsTo Interns.growsTo)
    fun returnType v _ => ?_
  exact finds_liftM_bind (Check.finds_look _) fun _ _ => finds_pure _

/-- A signature is refused when its owner is missing, when it is there already, or when it returns
another type than its declaration. -/
theorem registerOperation_refused {s : Signature} {e : RegistrationError} {span : Span}
    (h : t.registerOperation s = .error e) : Fault L t (.error e.kind e.message span) := by
  unfold SymbolTable.registerOperation at h
  split at h
  · rename_i hnone
    cases h
    exact .owner hnone
  split at h
  · cases h
  split at h
  · split at h
    · rename_i error hconflict
      cases h
      unfold Operation.returnConflict? at hconflict
      split at hconflict
      · split at hconflict
        · cases hconflict
        · cases hconflict
          exact .other rfl
      · cases hconflict
    · cases h
  · cases h
    exact .other rfl

theorem finds_register (options : Options) (d : FunctionDecl) (enclosing : Option AutomatonId) :
    (d.register options enclosing).Finds (Fault L) t := by
  refine finds_liftM_bind (d.finds_resolveOwner options enclosing) fun owner _ => ?_
  refine finds_bind (d.finds_signature owner)
    ((d.signature_within owner t).growsTo Interns.growsTo) fun s u _ => ?_
  have hregister : (Build.register (fun t => t.registerOperation s) d.span).Within
      SymbolTable.GrowsTo u :=
    within_register fun r v hv => SymbolTable.registerOperation_growsTo hv
  refine finds_bind (Build.finds_register fun e he => registerOperation_refused he)
    (hregister.growsTo fun h => h) fun r v _ => ?_
  have hresult : (declareResult r.id d.span).Finds (Fault L) v := by
    rw [Finds, run_declareResult]
    exact List.forall_mem_nil _
  refine finds_bind hresult ?_ fun _ w _ => finds_pure _
  rw [run_declareResult]
  exact SymbolTable.withResult_growsTo v r.id d.span

end FunctionDecl

/-! ## Elaborating -/

theorem Trigger.finds_resolve {automaton : String} {trigger : Trigger}
    (hl : ∀ d ∈ ((trigger.resolve automaton).run t).1.diagnostics, L d) :
    (trigger.resolve automaton).Finds (Fault L) t := by
  refine Finds.restrict ?_ hl
  have hwithin : ∀ (types : List TypeExpr) t,
      (types.mapM fun e : TypeExpr => e.resolve).Within Interns t :=
    fun types t => within_mapM (fun e _ t => e.resolve_within t) t
  have htypes : ∀ types : List TypeExpr,
      (types.mapM fun e : TypeExpr => e.resolve).Finds (Fault fun _ => True) t := fun types =>
    finds_mapM Interns.growsTo (fun e t => e.resolve_within t) fun e _ u _ => e.finds_resolve_fault
  refine finds_bind
    (finds_optionMapM _ htypes fun types => (hwithin types t).growsTo Interns.growsTo)
    ((within_optionMapM hwithin _).growsTo Interns.growsTo) fun types u _ => ?_
  refine finds_liftM_bind (Check.finds_look _) fun found _ => ?_
  rcases found with (_ | _) | id
  · exact finds_liftM (Check.finds_fail (.operation rfl trivial))
  · exact finds_liftM (Check.finds_fail (.other rfl))
  · exact finds_pure _

namespace ShiftDecl

/-- A trigger of the declaration says this when it is looked up in the automaton. -/
def Asks (d : ShiftDecl) (automaton : String) (t : SymbolTable) (found : Diagnostic) : Prop :=
  ∃ trigger ∈ d.functions, ∃ u, Relation.ReflTransGen Interns t u ∧
    found ∈ ((trigger.resolve automaton).run u).1.diagnostics

theorem finds_resolveTriggers (automaton : String) (d : ShiftDecl) :
    (d.resolveTriggers automaton).Finds (Fault (d.Asks automaton t)) t := by
  refine finds_ite (fun _ => finds_liftM (Check.finds_fail (.other rfl))) fun _ => ?_
  refine finds_mapM Interns.growsTo (fun trigger t => trigger.resolve_within automaton t) ?_
  exact fun trigger htrigger u hu =>
    trigger.finds_resolve fun found hfound => ⟨trigger, htrigger, u, hu, hfound⟩

theorem finds_addShifts {id : AutomatonId} {target : Endpoint} {functions : List OperationId}
    {span : Span} (names : List Identifier) :
    (addShifts id target functions span names).Finds (Fault L) t := by
  induction names generalizing t with
  | nil => exact finds_pure _
  | cons name rest ih =>
    refine finds_bind (finds_attempt (finds_ofCheck (name.finds_resolveSource id)))
      ((within_attempt (within_ofCheck _)).growsTo Interns.growsTo) fun source u _ => ?_
    cases source with
    | none => exact ih
    | some source =>
      refine finds_bind (finds_modify _) ?_ fun _ v _ => ih
      refine SymbolTable.growsTo_modifyAutomaton fun a _ => ?_
      exact { Automaton.GrowsTo.refl a with shifts := List.prefix_append _ _ }

theorem finds_elaborate (id : AutomatonId) (d : ShiftDecl) : (d.elaborate id).Finds
    (Fault (d.Asks (((t.automaton? id).map Automaton.name).getD "") t)) t := by
  unfold elaborate
  cases d.target with
  | none => exact finds_liftM (Check.finds_reject _ _)
  | some target =>
    refine finds_ite (fun _ => finds_liftM (Check.finds_reject _ _)) fun _ => ?_
    refine finds_liftM_bind (Check.finds_look _) fun automaton hname => ?_
    rw [Check.yields_look] at hname
    refine finds_liftM_bind (target.finds_resolveTarget id) fun target _ => ?_
    refine finds_bind (hname ▸ d.finds_resolveTriggers automaton)
      ((d.resolveTriggers_within automaton t).growsTo Interns.growsTo) fun ids u _ => ?_
    exact finds_addShifts _

end ShiftDecl

theorem VariableDecl.finds_declareLocal (scope : Scope) (id : OperationId) (d : VariableDecl) :
    (d.declareLocal scope id).Finds (Fault L) t := by
  refine finds_liftM_bind (Check.finds_look _) fun operation _ => ?_
  refine finds_guard (.other rfl) ?_
  refine finds_bind d.type.finds_resolve_fault (d.type.resolve_growsTo t) fun type u _ => ?_
  refine finds_bind (finds_optionMapM _ (fun e => finds_liftM (e.finds_elaborate scope)) fun e =>
    .refl u) ((within_optionMapM (S := Interns) (fun e t => within_liftM _) _).growsTo
      Interns.growsTo) fun initial v _ => ?_
  refine finds_bind (finds_registerUnit fun e he => .declaration (.refused (Or.inl ?_))) ?_
    fun _ w _ => finds_pure _
  · exact registerVariable_refused he
  · have hregister : (Build.registerUnit (fun t => t.registerVariable
        ⟨d.name.name, type, .body id, initial, d.name.span⟩) d.name.span).Within
        SymbolTable.GrowsTo v :=
      within_registerUnit fun w hw => SymbolTable.registerVariable_growsTo hw
    exact hregister.growsTo fun h => h

theorem Statement.finds_elaborate (scope : Scope) (id : OperationId) (s : Statement) :
    (s.elaborate scope id).Finds (Fault L) t := by
  cases s with
  | assignment target value call span =>
    cases value with
    | none =>
      cases call with
      | none => exact finds_liftM (Check.finds_reject _ _)
      | some call =>
        refine finds_liftM_bind (target.finds_resolve scope) fun target _ => ?_
        exact finds_liftM_bind (call.finds_resolve scope) fun _ _ => finds_pure _
    | some value =>
      cases call with
      | none =>
        refine finds_liftM_bind (target.finds_resolve scope) fun target _ => ?_
        exact finds_liftM_bind (value.finds_elaborate scope) fun value _ => finds_pure _
      | some call => exact finds_liftM (Check.finds_reject _ _)
  | action name arguments span =>
    have hwithin : ∀ (e : Expr) t, (liftM (e.elaborate scope) : Build Value).Within Interns t :=
      fun e t => within_liftM _
    refine finds_bind (finds_mapM Interns.growsTo hwithin fun e _ u _ =>
      finds_liftM (e.finds_elaborate scope)) ((within_mapM (fun e _ => hwithin e) t).growsTo Interns.growsTo) ?_
    exact fun _ u _ => finds_pure _
  | «variable» declaration => exact declaration.finds_declareLocal scope id

namespace FunctionDecl

theorem finds_elaborateContracts (scope : Scope) (id : OperationId) (ds : List ContractDecl) :
    (elaborateContracts scope id ds).Finds (Fault L) t := by
  induction ds generalizing t with
  | nil => exact finds_pure _
  | cons d rest ih =>
    refine finds_bind (finds_attempt (finds_ofCheck (d.finds_elaborate scope)))
      ((within_attempt (within_ofCheck _)).growsTo Interns.growsTo) fun contract u _ => ?_
    cases contract with
    | none => exact ih
    | some contract =>
      refine finds_bind (finds_modify _) ?_ fun _ v _ => ih
      refine SymbolTable.growsTo_modifyOperation fun o _ => ?_
      exact { Operation.GrowsTo.refl o with contracts := List.prefix_append _ _ }

theorem finds_elaborateBody {scope : Scope} {id : OperationId} (hs : scope.operation = some id)
    (hc : scope.contract = none) (statements : List Statement) :
    (elaborateBody scope id statements).Finds (Fault L) t := by
  induction statements generalizing t with
  | nil => exact finds_pure _
  | cons d rest ih =>
    refine finds_bind (finds_attempt (d.finds_elaborate scope id))
      ((within_attempt (d.elaborate_within hs hc t)).growsTo Elaborates.growsTo)
      fun statement u _ => ?_
    cases statement with
    | none => exact ih
    | some statement =>
      refine finds_bind (finds_modify _) ?_ fun _ v _ => ih
      refine SymbolTable.growsTo_modifyOperation fun o _ => ?_
      exact { Operation.GrowsTo.refl o with statements := List.prefix_append _ _ }

theorem finds_elaborate (id : OperationId) (d : FunctionDecl) :
    (d.elaborate id).Finds (Fault L) t := by
  refine finds_liftM_bind (Check.finds_look _) fun scope hscope => ?_
  obtain ⟨hs, hc⟩ := bodyScope_inside hscope
  refine finds_bind (finds_elaborateContracts scope id _)
    ((elaborateContracts_within hs _ t).growsTo Elaborates.growsTo) fun _ u _ => ?_
  exact finds_elaborateBody hs hc _

end FunctionDecl

end SyntaxTree

theorem PendingInitializer.finds_elaborate (scope : Scope) (p : PendingInitializer) :
    (p.elaborate scope).Finds (Fault L) t :=
  finds_liftM_bind (p.value.finds_elaborate scope) fun _ _ => finds_modify _

end LibraryContract
