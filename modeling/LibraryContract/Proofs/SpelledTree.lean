import LibraryContract.Proofs.Spelling

/-!
# Reading a spelled tree

Each spelling of a written tree is read as this tree, as long as its numbers are finite: a number
that is not is written as null.

* `Library.floats`: the floating-point numbers of a tree;
* `Library.read_of_spells`: what any spelling of a tree is read as.
-/

namespace LibraryContract

open Json (Fields Reader list tag string? bool? uint64? int64? binary64?)

namespace SyntaxTree

/-! ## The numbers of a tree -/

def Literal.floats : Literal → List Binary64
  | .float x => [x]
  | .integer _ | .string _ | .boolean _ => []

mutual

/-- The floating-point numbers in an expression. -/
def Expr.floats : Expr → List Binary64
  | .literal value _ => value.floats
  | .access chain _ | .old chain _ => chain.floats
  | .unary _ operand _ => operand.floats
  | .binary _ left right _ => left.floats ++ right.floats
  | .group inner _ => inner.floats
termination_by structural e => e

def Chain.floats : Chain → List Binary64
  | ⟨segments, _⟩ => segmentsFloats segments
termination_by structural c => c

def segmentsFloats : List Segment → List Binary64
  | [] => []
  | segment :: rest => segment.floats ++ segmentsFloats rest
termination_by structural segments => segments

def Segment.floats : Segment → List Binary64
  | .index index => index.floats
  | .name _ | .getter _ _ => []
termination_by structural s => s

end

def AnnotationUse.floats (u : AnnotationUse) : List Binary64 := u.arguments.flatMap Expr.floats

def Parameter.floats (p : Parameter) : List Binary64 := p.annotations.flatMap AnnotationUse.floats

def VariableDecl.floats (d : VariableDecl) : List Binary64 :=
  d.initializer.toList.flatMap Expr.floats

def AnnotationDecl.floats (d : AnnotationDecl) : List Binary64 :=
  d.parameters.flatMap Parameter.floats

def ConstructorCall.floats (c : ConstructorCall) : List Binary64 :=
  c.arguments.flatMap fun a => a.value.floats

def Statement.floats : Statement → List Binary64
  | .assignment target value constructor _ =>
    target.floats ++ value.toList.flatMap Expr.floats ++
      constructor.toList.flatMap ConstructorCall.floats
  | .action _ arguments _ => arguments.flatMap Expr.floats
  | .variable declaration => declaration.floats

def FunctionDecl.floats (d : FunctionDecl) : List Binary64 :=
  d.parameters.flatMap Parameter.floats ++ d.annotations.flatMap AnnotationUse.floats ++
    (d.contracts.flatMap fun c => c.expression.floats) ++
    (d.body.getD []).flatMap Statement.floats

def AutomatonDecl.floats (d : AutomatonDecl) : List Binary64 :=
  d.constructorVariables.flatMap VariableDecl.floats ++
    d.instanceVariables.flatMap VariableDecl.floats ++ d.functions.flatMap FunctionDecl.floats

def Declaration.floats : Declaration → List Binary64
  | .typeDecl _ => []
  | .annotationDecl d => d.floats
  | .variableDecl d => d.floats
  | .automatonDecl d => d.floats
  | .functionDecl d => d.floats

/-- All floating-point numbers of a tree. -/
def Library.floats (l : Library) : List Binary64 := l.declarations.flatMap Declaration.floats

end SyntaxTree

/-- None of the numbers is infinite or undefined. -/
def Binary64.AllFinite (xs : List Binary64) : Prop := ∀ x ∈ xs, x.isFinite = true

namespace Binary64

theorem allFinite_append {xs ys : List Binary64} :
    AllFinite (xs ++ ys) ↔ AllFinite xs ∧ AllFinite ys := List.forall_mem_append

theorem allFinite_flatMap {α : Type} {f : α → List Binary64} {items : List α} :
    AllFinite (items.flatMap f) ↔ ∀ a ∈ items, AllFinite (f a) := by
  simp only [AllFinite, List.mem_flatMap]
  exact ⟨fun h a ha x hx => h x ⟨a, ha, hx⟩, fun h x ⟨a, ha, hx⟩ => h a ha x hx⟩

end Binary64

open Binary64 (AllFinite allFinite_append allFinite_flatMap)

namespace SyntaxTree

/-! ## Members -/

variable {α : Type} {s : Shape} {n : Nat} {value : Json}

theorem mapM_of_spells {encode : α → Json} {read : Json → Option α} {items : List α}
    {values : List Json} (h : List.Forall₂ (s.Spells n) (items.map encode) values)
    (hread : ∀ a ∈ items, ∀ v, s.Spells n (encode a) v → read v = some a) :
    values.mapM read = some items := by
  induction items generalizing values with
  | nil => cases h; rfl
  | cons a rest ih =>
    cases h with
    | cons ha hrest =>
      rw [List.mapM_cons, hread a List.mem_cons_self _ ha,
        ih hrest fun b hb => hread b (List.mem_cons_of_mem _ hb)]
      rfl

theorem list_of_spells {encode : α → Json} {read : Reader α} {items : List α}
    (h : (Shape.list s).Spells n (listJson encode items) value)
    (hread : ∀ a ∈ items, ∀ m v, s.Spells m (encode a) v → read m v = some a) :
    list read n value = some items := by
  obtain ⟨m, values, rfl, rfl, hvalues⟩ := h.list_eq
  exact mapM_of_spells hvalues fun a ha => hread a ha m

theorem spanJson_injective : Function.Injective spanJson := by
  rintro ⟨line, column, endLine, endColumn⟩ ⟨line', column', endLine', endColumn'⟩ h
  have h := ofMembers_injective h
  simp only [List.cons.injEq, Prod.mk.injEq, Json.ofUInt64, Json.number.injEq,
    Json.Number.natural.injEq, true_and, and_true] at h
  obtain ⟨rfl, rfl, rfl, rfl⟩ := h
  rfl

namespace Slot.Given

variable {name : String} {fields : Fields} {written : Json}

theorem required {read : Json → Option α} {a : α}
    (h : (Slot.required name s).Given n written (fields.lookup name))
    (hread : ∀ value, s.Spells n written value → read value = some a) :
    fields.required name read = some a := by
  rw [Fields.required]
  cases hvalue : fields.lookup name with
  | none => rw [hvalue] at h; cases h
  | some value => rw [hvalue] at h; exact hread value h

theorem optional {encode : α → Json} {read : Json → Option α} {a : Option α}
    (h : (Slot.optional name s).Given n (optionJson encode a) (fields.lookup name))
    (hwritten : ∀ b, encode b ≠ .null)
    (hread : ∀ b ∈ a, ∀ value, s.Spells n (encode b) value → read value = some b) :
    fields.optional name read = some a := by
  rw [Fields.optional]
  cases hvalue : fields.lookup name with
  | none =>
    rw [hvalue] at h
    cases a with
    | none => rfl
    | some b => exact absurd (Option.some.inj h).symm (hwritten b)
  | some value =>
    rw [hvalue] at h
    have h : (Shape.option s).Spells n (optionJson encode a) value := h
    cases a with
    | none =>
      obtain rfl := h.null_iff.mp rfl
      rfl
    | some b =>
      have hne : value ≠ .null := fun hnull => hwritten b (h.null_iff.mpr hnull)
      obtain ⟨hnull, -⟩ | h := h.option_eq
      · exact absurd hnull (hwritten b)
      · have hvalue := hread b rfl value h
        cases value with
        | null => exact absurd rfl hne
        | _ => exact congrArg (Option.map some) hvalue

theorem items {encode : α → Json} {read : Reader α} {items : List α}
    (h : (Slot.items name s).Given n (listJson encode items) (fields.lookup name))
    (hread : ∀ a ∈ items, ∀ m value, s.Spells m (encode a) value → read m value = some a) :
    listField n fields name read = some items := by
  rw [listField, Fields.defaulted]
  cases hvalue : fields.lookup name with
  | none =>
    rw [hvalue] at h
    obtain rfl := List.map_eq_nil_iff.mp (Json.array.inj (Option.some.inj h)).symm
    rfl
  | some value =>
    rw [hvalue] at h
    exact list_of_spells h hread

end Slot.Given

/-! ## Places and names -/

theorem readSpan_of_spells {span : Span} (h : (Shape.node .span).Spells n (spanJson span) value) :
    readSpan n value = some span := by
  obtain ⟨m, fields, rfl, hfields, hgiven⟩ := h.given rfl
  simp only [List.forall₂_cons] at hgiven
  obtain ⟨hline, hcolumn, hendLine, hendColumn, -⟩ := hgiven
  have hread : ∀ (k : UInt64) v, Shape.scalar.Spells m (.ofUInt64 k) v → uint64? v = some k :=
    fun k v hv => hv.scalar_eq ▸ rfl
  exact readSpan_eq_some.mpr ⟨m, fields, rfl, hfields, hline.required (hread _),
    hcolumn.required (hread _), hendLine.required (hread _), hendColumn.required (hread _)⟩

theorem Slot.Given.place {span : Span} {fields : Fields}
    (h : Slot.place.Given n (spanJson span) (fields.lookup "span")) :
    spanField n fields = some span := by
  rw [spanField, Fields.defaulted]
  cases hvalue : fields.lookup "span" with
  | none =>
    rw [hvalue] at h
    exact congrArg some (spanJson_injective (Option.some.inj h))
  | some value =>
    rw [hvalue] at h
    exact readSpan_of_spells h

theorem string?_of_spells {text : String} (h : Shape.scalar.Spells n (.ofString text) value) :
    string? value = some text := by
  obtain rfl := h.scalar_eq
  rfl

theorem int64?_ofInt64 (k : Int64) : int64? (.ofInt64 k) = some k := by
  have hlt := k.toInt_lt
  rw [Json.ofInt64]
  split
  · rename_i hk
    have hnat : (k.toInt.toNat.toUInt64).toNat = k.toInt.toNat := by
      rw [Nat.toUInt64, UInt64.toNat_ofNat']
      omega
    rw [int64?, hnat, if_pos (by omega), ← Int64.ofInt_eq_ofNat, Int.toNat_of_nonneg hk,
      Int64.ofInt_toInt]
  · rfl

theorem int64?_of_spells {k : Int64} (h : Shape.scalar.Spells n (.ofInt64 k) value) :
    int64? value = some k := by
  obtain rfl := h.scalar_eq
  exact int64?_ofInt64 k

theorem Identifier.read_of_spells {i : Identifier}
    (h : (Shape.node .identifier).Spells n i.toJson value) : readIdentifier n value = some i := by
  obtain ⟨m, fields, rfl, hfields, hgiven⟩ := h.given rfl
  simp only [List.forall₂_cons] at hgiven
  obtain ⟨hname, hspan, -⟩ := hgiven
  exact readIdentifier_eq_some.mpr ⟨m, fields, rfl, hfields,
    hname.required fun _ => string?_of_spells, hspan.place⟩

theorem TypeExpr.read_of_spells {e : TypeExpr} {n : Nat} {value : Json}
    (h : (Shape.node .typeExpr).Spells n e.toJson value) : readTypeExpr n value = some e := by
  induction e generalizing n value with
  | named name =>
    obtain ⟨m, v, rfl, rfl, hv⟩ := h.content_eq (s := .node .identifier) rfl (by decide)
    exact congrArg (Option.map TypeExpr.named) (Identifier.read_of_spells hv)
  | array element ih =>
    obtain ⟨m, v, rfl, rfl, hv⟩ := h.content_eq (s := .node .typeExpr) rfl (by decide)
    exact congrArg (Option.map TypeExpr.array) (ih hv)

theorem TypeExpr.toJson_ne_null (e : TypeExpr) : e.toJson ≠ .null := by
  cases e <;> exact Json.noConfusion

/-! ## Expressions -/

theorem Literal.read_of_spells {v : Literal} (hfinite : AllFinite v.floats)
    (h : (Shape.node .literal).Spells n v.toJson value) : readLiteral n value = some v := by
  cases v with
  | integer k =>
    obtain ⟨m, v, rfl, rfl, hv⟩ := h.content_eq (s := .scalar) rfl (by decide)
    exact congrArg (Option.map Literal.integer) (int64?_of_spells hv)
  | float x =>
    obtain ⟨m, v, rfl, rfl, hv⟩ := h.content_eq (s := .scalar) rfl (by decide)
    have hx : v = .number (.real x) := by
      rw [hv.scalar_eq, Json.ofBinary64, if_pos (hfinite x (List.mem_singleton_self x))]
    subst hx
    rfl
  | string text =>
    obtain ⟨m, v, rfl, rfl, hv⟩ := h.content_eq (s := .scalar) rfl (by decide)
    exact congrArg (Option.map Literal.string) (string?_of_spells hv)
  | boolean b =>
    obtain ⟨m, v, rfl, rfl, hv⟩ := h.content_eq (s := .scalar) rfl (by decide)
    obtain rfl := hv.scalar_eq
    rfl

theorem readExpr_of_spells {e : Expr} {tag : String} {content : Json} {span : Span}
    (h : (Shape.node .expr).Spells n (exprJson span tag content) value)
    (hread : ∀ m v, (Shape.node .exprKind).Spells m (taggedJson tag content) v →
      readExprKind m span v = some e) :
    readExpr n value = some e := by
  obtain ⟨m, fields, rfl, hfields, hgiven⟩ := h.given rfl
  simp only [List.forall₂_cons] at hgiven
  obtain ⟨hspan, hkind, -⟩ := hgiven
  exact readExpr_eq_some.mpr ⟨m, fields, span, rfl, hfields, hspan.place,
    hkind.required (hread m)⟩

mutual

theorem Expr.read_of_spells : ∀ (e : Expr) {n : Nat} {value : Json}, AllFinite e.floats →
    (Shape.node .expr).Spells n e.toJson value → readExpr n value = some e
  | .literal v span, n, value, hfinite, h => by
    refine readExpr_of_spells h fun m w hw => ?_
    obtain ⟨m, u, rfl, rfl, hu⟩ := hw.content_eq (s := .node .literal) rfl (by decide)
    exact congrArg (Option.map fun v => Expr.literal v span) (v.read_of_spells hfinite hu)
  | .access chain span, n, value, hfinite, h => by
    refine readExpr_of_spells h fun m w hw => ?_
    obtain ⟨m, u, rfl, rfl, hu⟩ := hw.content_eq (s := .node .chain) rfl (by decide)
    exact congrArg (Option.map fun c => Expr.access c span) (chain.read_of_spells hfinite hu)
  | .old chain span, n, value, hfinite, h => by
    refine readExpr_of_spells h fun m w hw => ?_
    obtain ⟨m, u, rfl, rfl, hu⟩ := hw.content_eq (s := .node .chain) rfl (by decide)
    exact congrArg (Option.map fun c => Expr.old c span) (chain.read_of_spells hfinite hu)
  | .unary operator operand span, n, value, hfinite, h => by
    refine readExpr_of_spells h fun m w hw => ?_
    obtain ⟨m, u, rfl, rfl, hu⟩ := hw.content_eq (s := .node .unary) rfl (by decide)
    obtain ⟨k, fields, rfl, hfields, hgiven⟩ := hu.given rfl
    simp only [List.forall₂_cons] at hgiven
    obtain ⟨hoperator, hoperand, -⟩ := hgiven
    exact readUnary_eq_some.mpr ⟨k, fields, operator, operand, rfl, hfields,
      hoperator.required fun _ => string?_of_spells,
      hoperand.required fun _ => operand.read_of_spells hfinite, rfl⟩
  | .binary operator left right span, n, value, hfinite, h => by
    refine readExpr_of_spells h fun m w hw => ?_
    obtain ⟨hleft, hright⟩ := allFinite_append.mp hfinite
    obtain ⟨m, u, rfl, rfl, hu⟩ := hw.content_eq (s := .node .binary) rfl (by decide)
    obtain ⟨k, fields, rfl, hfields, hgiven⟩ := hu.given rfl
    simp only [List.forall₂_cons] at hgiven
    obtain ⟨hoperator, hl, hr, -⟩ := hgiven
    exact readBinary_eq_some.mpr ⟨k, fields, operator, left, right, rfl, hfields,
      hoperator.required fun _ => string?_of_spells,
      hl.required fun _ => left.read_of_spells hleft,
      hr.required fun _ => right.read_of_spells hright, rfl⟩
  | .group inner span, n, value, hfinite, h => by
    refine readExpr_of_spells h fun m w hw => ?_
    obtain ⟨m, u, rfl, rfl, hu⟩ := hw.content_eq (s := .node .expr) rfl (by decide)
    exact congrArg (Option.map fun e => Expr.group e span) (inner.read_of_spells hfinite hu)
termination_by structural e => e

theorem Chain.read_of_spells : ∀ (c : Chain) {n : Nat} {value : Json}, AllFinite c.floats →
    (Shape.node .chain).Spells n c.toJson value → readChain n value = some c
  | ⟨segments, span⟩, n, value, hfinite, h => by
    obtain ⟨m, fields, rfl, hfields, hgiven⟩ := h.given rfl
    simp only [List.forall₂_cons] at hgiven
    obtain ⟨hsegments, hspan, -⟩ := hgiven
    refine readChain_eq_some.mpr ⟨m, fields, rfl, hfields, hsegments.required fun v hv => ?_,
      hspan.place⟩
    obtain ⟨k, values, rfl, rfl, hvalues⟩ := hv.list_eq
    exact segments_read_of_spells segments hfinite hvalues
termination_by structural c => c

theorem segments_read_of_spells : ∀ (segments : List Segment) {n : Nat} {values : List Json},
    AllFinite (segmentsFloats segments) →
    List.Forall₂ ((Shape.node .segment).Spells n) (segmentsJson segments) values →
      values.mapM (readSegment n) = some segments
  | [], _, _, _, h => by
    cases h
    rfl
  | segment :: rest, n, _, hfinite, h => by
    obtain ⟨hsegment, hrest⟩ := allFinite_append.mp hfinite
    cases h with
    | cons hfirst hothers =>
      rw [List.mapM_cons, segment.read_of_spells hsegment hfirst,
        segments_read_of_spells rest hrest hothers]
      rfl
termination_by structural segments => segments

theorem Segment.read_of_spells : ∀ (s : Segment) {n : Nat} {value : Json}, AllFinite s.floats →
    (Shape.node .segment).Spells n s.toJson value → readSegment n value = some s
  | .name name, n, value, hfinite, h => by
    obtain ⟨m, u, rfl, rfl, hu⟩ := h.content_eq (s := .node .identifier) rfl (by decide)
    exact congrArg (Option.map Segment.name) (name.read_of_spells hu)
  | .index index, n, value, hfinite, h => by
    obtain ⟨m, u, rfl, rfl, hu⟩ := h.content_eq (s := .node .expr) rfl (by decide)
    exact congrArg (Option.map Segment.index) (index.read_of_spells hfinite hu)
  | .getter automaton argument, n, value, hfinite, h => by
    obtain ⟨m, u, rfl, rfl, hu⟩ := h.content_eq (s := .node .getter) rfl (by decide)
    obtain ⟨k, fields, rfl, hfields, hgiven⟩ := hu.given rfl
    simp only [List.forall₂_cons] at hgiven
    obtain ⟨hautomaton, hargument, -⟩ := hgiven
    exact readGetter_eq_some.mpr ⟨k, fields, automaton, argument, rfl, hfields,
      hautomaton.required fun _ => automaton.read_of_spells,
      hargument.required fun _ => argument.read_of_spells, rfl⟩
termination_by structural s => s

end

theorem Expr.toJson_ne_null (e : Expr) : e.toJson ≠ .null := by
  cases e <;> exact Json.noConfusion

/-! ## Declarations -/

theorem AnnotationUse.read_of_spells {u : AnnotationUse} (hfinite : AllFinite u.floats)
    (h : (Shape.node .annotationUse).Spells n u.toJson value) :
    readAnnotationUse n value = some u := by
  obtain ⟨m, fields, rfl, hfields, hgiven⟩ := h.given rfl
  simp only [List.forall₂_cons] at hgiven
  obtain ⟨hname, harguments, -⟩ := hgiven
  exact readAnnotationUse_eq_some.mpr ⟨m, fields, rfl, hfields,
    hname.required fun _ => Identifier.read_of_spells,
    harguments.items fun e he _ _ => e.read_of_spells (allFinite_flatMap.mp hfinite e he)⟩

theorem Parameter.read_of_spells {p : Parameter} (hfinite : AllFinite p.floats)
    (h : (Shape.node .parameter).Spells n p.toJson value) : readParameter n value = some p := by
  obtain ⟨m, fields, rfl, hfields, hgiven⟩ := h.given rfl
  simp only [List.forall₂_cons] at hgiven
  obtain ⟨hname, htype, hannotations, -⟩ := hgiven
  exact readParameter_eq_some.mpr ⟨m, fields, rfl, hfields,
    hname.required fun _ => Identifier.read_of_spells,
    htype.required fun _ => TypeExpr.read_of_spells,
    hannotations.items fun u hu _ _ =>
      AnnotationUse.read_of_spells (allFinite_flatMap.mp hfinite u hu)⟩

theorem VariableDecl.read_of_spells {d : VariableDecl} (hfinite : AllFinite d.floats)
    (h : (Shape.node .variableDecl).Spells n d.toJson value) : readVariableDecl n value = some d := by
  obtain ⟨m, fields, rfl, hfields, hgiven⟩ := h.given rfl
  simp only [List.forall₂_cons] at hgiven
  obtain ⟨hname, htype, hinitializer, -⟩ := hgiven
  exact readVariableDecl_eq_some.mpr ⟨m, fields, rfl, hfields,
    hname.required fun _ => Identifier.read_of_spells,
    htype.required fun _ => TypeExpr.read_of_spells,
    hinitializer.optional Expr.toJson_ne_null fun e he _ =>
      e.read_of_spells (allFinite_flatMap.mp hfinite e (Option.mem_toList.mpr he))⟩

theorem AnnotationDecl.read_of_spells {d : AnnotationDecl} (hfinite : AllFinite d.floats)
    (h : (Shape.node .annotationDecl).Spells n d.toJson value) :
    readAnnotationDecl n value = some d := by
  obtain ⟨m, fields, rfl, hfields, hgiven⟩ := h.given rfl
  simp only [List.forall₂_cons] at hgiven
  obtain ⟨hname, hparameters, -⟩ := hgiven
  exact readAnnotationDecl_eq_some.mpr ⟨m, fields, rfl, hfields,
    hname.required fun _ => Identifier.read_of_spells,
    hparameters.items fun p hp _ _ => Parameter.read_of_spells (allFinite_flatMap.mp hfinite p hp)⟩

theorem FieldDecl.read_of_spells {d : FieldDecl}
    (h : (Shape.node .fieldDecl).Spells n d.toJson value) : readFieldDecl n value = some d := by
  obtain ⟨m, fields, rfl, hfields, hgiven⟩ := h.given rfl
  simp only [List.forall₂_cons] at hgiven
  obtain ⟨hname, htype, -⟩ := hgiven
  exact readFieldDecl_eq_some.mpr ⟨m, fields, rfl, hfields,
    hname.required fun _ => Identifier.read_of_spells,
    htype.required fun _ => TypeExpr.read_of_spells⟩

theorem ofInt64_ne_null (k : Int64) : Json.ofInt64 k ≠ .null := by
  rw [Json.ofInt64]
  split <;> exact Json.noConfusion

theorem MemberDecl.read_of_spells {d : MemberDecl}
    (h : (Shape.node .memberDecl).Spells n d.toJson value) : readMemberDecl n value = some d := by
  obtain ⟨m, fields, rfl, hfields, hgiven⟩ := h.given rfl
  simp only [List.forall₂_cons] at hgiven
  obtain ⟨hname, hvalue, -⟩ := hgiven
  exact readMemberDecl_eq_some.mpr ⟨m, fields, rfl, hfields,
    hname.required fun _ => Identifier.read_of_spells,
    hvalue.optional ofInt64_ne_null fun _ _ _ => int64?_of_spells⟩

theorem readTypeDefinition_tag {tag : String} {d : TypeDefinition}
    (h : (Shape.node .typeDefinition).Spells n (.ofString tag) value)
    (hread : ∀ m, readTypeContent m tag .null = some d) : readTypeDefinition n value = some d := by
  obtain rfl | ⟨m, rfl, rfl⟩ := h.tag_eq
  · exact hread n
  · exact hread m

theorem TypeDefinition.read_of_spells {d : TypeDefinition}
    (h : (Shape.node .typeDefinition).Spells n d.toJson value) :
    readTypeDefinition n value = some d := by
  cases d with
  | simple => exact readTypeDefinition_tag h fun _ => rfl
  | real => exact readTypeDefinition_tag h fun _ => rfl
  | «alias» target =>
    obtain ⟨m, v, rfl, rfl, hv⟩ := h.content_eq (s := .node .aliasType) rfl (by decide)
    obtain ⟨m, fields, rfl, hfields, hgiven⟩ := hv.given rfl
    simp only [List.forall₂_cons] at hgiven
    exact readAlias_eq_some.mpr ⟨m, fields, target, rfl, hfields,
      hgiven.1.required fun _ => TypeExpr.read_of_spells, rfl⟩
  | structured declarations =>
    obtain ⟨m, v, rfl, rfl, hv⟩ := h.content_eq (s := .node .structuredType) rfl (by decide)
    obtain ⟨m, fields, rfl, hfields, hgiven⟩ := hv.given rfl
    simp only [List.forall₂_cons] at hgiven
    refine readStructured_eq_some.mpr ⟨m, fields, declarations, rfl, hfields,
      hgiven.1.required fun _ hlist => ?_, rfl⟩
    exact list_of_spells hlist fun _ _ _ _ => FieldDecl.read_of_spells
  | enum members =>
    obtain ⟨m, v, rfl, rfl, hv⟩ := h.content_eq (s := .node .enumType) rfl (by decide)
    obtain ⟨m, fields, rfl, hfields, hgiven⟩ := hv.given rfl
    simp only [List.forall₂_cons] at hgiven
    refine readEnum_eq_some.mpr ⟨m, fields, members, rfl, hfields,
      hgiven.1.required fun _ hlist => ?_, rfl⟩
    exact list_of_spells hlist fun _ _ _ _ => MemberDecl.read_of_spells
  | enumLike underlying backing =>
    obtain ⟨m, v, rfl, rfl, hv⟩ := h.content_eq (s := .node .enumLikeType) rfl (by decide)
    obtain ⟨m, fields, rfl, hfields, hgiven⟩ := hv.given rfl
    simp only [List.forall₂_cons] at hgiven
    obtain ⟨hunderlying, hbacking, -⟩ := hgiven
    exact readEnumLike_eq_some.mpr ⟨m, fields, underlying, backing, rfl, hfields,
      hunderlying.required fun _ => Identifier.read_of_spells,
      hbacking.required fun _ => TypeExpr.read_of_spells, rfl⟩

theorem TypeDecl.read_of_spells {d : TypeDecl}
    (h : (Shape.node .typeDecl).Spells n d.toJson value) : readTypeDecl n value = some d := by
  obtain ⟨m, fields, rfl, hfields, hgiven⟩ := h.given rfl
  simp only [List.forall₂_cons] at hgiven
  obtain ⟨hname, hdefinition, -⟩ := hgiven
  exact readTypeDecl_eq_some.mpr ⟨m, fields, rfl, hfields,
    hname.required fun _ => Identifier.read_of_spells,
    hdefinition.required fun _ => TypeDefinition.read_of_spells⟩

theorem tag_of_spells {kind : NodeKind} {tags : List (String × α)} {name : String} {a : α}
    (h : (Shape.node kind).Spells n (.ofString name) value) (htag : tags.lookup name = some a) :
    tag tags n value = some a := by
  obtain rfl | ⟨m, rfl, rfl⟩ := h.tag_eq
  · exact htag
  · exact htag

theorem StateDecl.read_of_spells {d : StateDecl}
    (h : (Shape.node .stateDecl).Spells n d.toJson value) : readStateDecl n value = some d := by
  obtain ⟨m, fields, rfl, hfields, hgiven⟩ := h.given rfl
  simp only [List.forall₂_cons] at hgiven
  obtain ⟨hname, hkind, -⟩ := hgiven
  exact readStateDecl_eq_some.mpr ⟨m, fields, rfl, hfields,
    hname.required fun _ => Identifier.read_of_spells,
    hkind.required fun _ hvalue => tag_of_spells hvalue (by cases d.kind <;> rfl)⟩

theorem Trigger.read_of_spells {t : Trigger}
    (h : (Shape.node .trigger).Spells n t.toJson value) : readTrigger n value = some t := by
  obtain ⟨m, fields, rfl, hfields, hgiven⟩ := h.given rfl
  simp only [List.forall₂_cons] at hgiven
  obtain ⟨hname, htypes, -⟩ := hgiven
  exact readTrigger_eq_some.mpr ⟨m, fields, rfl, hfields,
    hname.required fun _ => Identifier.read_of_spells,
    htypes.optional (fun _ => Json.noConfusion) fun _ _ _ hlist =>
      list_of_spells hlist fun _ _ _ _ => TypeExpr.read_of_spells⟩

theorem ShiftDecl.read_of_spells {d : ShiftDecl}
    (h : (Shape.node .shiftDecl).Spells n d.toJson value) : readShiftDecl n value = some d := by
  obtain ⟨m, fields, rfl, hfields, hgiven⟩ := h.given rfl
  simp only [List.forall₂_cons] at hgiven
  obtain ⟨hsources, htarget, hfunctions, hspan, -⟩ := hgiven
  exact readShiftDecl_eq_some.mpr ⟨m, fields, rfl, hfields,
    hsources.required fun _ hlist =>
      list_of_spells hlist fun _ _ _ _ => Identifier.read_of_spells,
    htarget.optional (fun _ => Json.noConfusion) fun _ _ _ => Identifier.read_of_spells,
    hfunctions.items fun _ _ _ _ => Trigger.read_of_spells, hspan.place⟩

theorem ContractDecl.read_of_spells {d : ContractDecl} (hfinite : AllFinite d.expression.floats)
    (h : (Shape.node .contractDecl).Spells n d.toJson value) : readContractDecl n value = some d := by
  obtain ⟨m, fields, rfl, hfields, hgiven⟩ := h.given rfl
  simp only [List.forall₂_cons] at hgiven
  obtain ⟨hname, hkind, hexpression, hspan, -⟩ := hgiven
  exact readContractDecl_eq_some.mpr ⟨m, fields, rfl, hfields,
    hname.optional (fun _ => Json.noConfusion) fun _ _ _ => Identifier.read_of_spells,
    hkind.required fun _ hvalue => tag_of_spells hvalue (by cases d.kind <;> rfl),
    hexpression.required fun _ => d.expression.read_of_spells hfinite, hspan.place⟩

theorem NamedArgument.read_of_spells {a : NamedArgument} (hfinite : AllFinite a.value.floats)
    (h : (Shape.node .namedArgument).Spells n a.toJson value) :
    readNamedArgument n value = some a := by
  obtain ⟨m, fields, rfl, hfields, hgiven⟩ := h.given rfl
  simp only [List.forall₂_cons] at hgiven
  obtain ⟨hname, hvalue, -⟩ := hgiven
  exact readNamedArgument_eq_some.mpr ⟨m, fields, rfl, hfields,
    hname.required fun _ => Identifier.read_of_spells,
    hvalue.required fun _ => a.value.read_of_spells hfinite⟩

theorem ConstructorCall.read_of_spells {c : ConstructorCall} (hfinite : AllFinite c.floats)
    (h : (Shape.node .constructorCall).Spells n c.toJson value) :
    readConstructorCall n value = some c := by
  obtain ⟨m, fields, rfl, hfields, hgiven⟩ := h.given rfl
  simp only [List.forall₂_cons] at hgiven
  obtain ⟨hautomaton, harguments, hspan, -⟩ := hgiven
  exact readConstructorCall_eq_some.mpr ⟨m, fields, rfl, hfields,
    hautomaton.required fun _ => Identifier.read_of_spells,
    harguments.items fun a ha _ _ =>
      NamedArgument.read_of_spells (allFinite_flatMap.mp hfinite a ha),
    hspan.place⟩

theorem Statement.read_of_spells {s : Statement} (hfinite : AllFinite s.floats)
    (h : (Shape.node .statement).Spells n s.toJson value) : readStatement n value = some s := by
  cases s with
  | assignment target initial constructor span =>
    obtain ⟨m, v, rfl, rfl, hv⟩ := h.content_eq (s := .node .assignment) rfl (by decide)
    obtain ⟨m, fields, rfl, hfields, hgiven⟩ := hv.given rfl
    simp only [List.forall₂_cons] at hgiven
    obtain ⟨htarget, hinitial, hconstructor, hspan, -⟩ := hgiven
    obtain ⟨hleft, hcall⟩ := allFinite_append.mp hfinite
    obtain ⟨hchain, hexpr⟩ := allFinite_append.mp hleft
    exact readAssignment_eq_some.mpr ⟨m, fields, target, initial, constructor, span, rfl, hfields,
      htarget.required fun _ => target.read_of_spells hchain,
      hinitial.optional Expr.toJson_ne_null fun e he _ =>
        e.read_of_spells (allFinite_flatMap.mp hexpr e (Option.mem_toList.mpr he)),
      hconstructor.optional (fun _ => Json.noConfusion) fun c hc _ =>
        ConstructorCall.read_of_spells (allFinite_flatMap.mp hcall c (Option.mem_toList.mpr hc)),
      hspan.place, rfl⟩
  | action name arguments span =>
    obtain ⟨m, v, rfl, rfl, hv⟩ := h.content_eq (s := .node .action) rfl (by decide)
    obtain ⟨m, fields, rfl, hfields, hgiven⟩ := hv.given rfl
    simp only [List.forall₂_cons] at hgiven
    obtain ⟨hname, harguments, hspan, -⟩ := hgiven
    exact readAction_eq_some.mpr ⟨m, fields, name, arguments, span, rfl, hfields,
      hname.required fun _ => Identifier.read_of_spells,
      harguments.items fun e he _ _ => e.read_of_spells (allFinite_flatMap.mp hfinite e he),
      hspan.place, rfl⟩
  | «variable» declaration =>
    obtain ⟨m, v, rfl, rfl, hv⟩ := h.content_eq (s := .node .variableDecl) rfl (by decide)
    exact congrArg (Option.map Statement.variable) (VariableDecl.read_of_spells hfinite hv)

theorem FunctionDecl.read_of_spells {d : FunctionDecl} (hfinite : AllFinite d.floats)
    (h : (Shape.node .functionDecl).Spells n d.toJson value) : readFunctionDecl n value = some d := by
  obtain ⟨m, fields, rfl, hfields, hgiven⟩ := h.given rfl
  simp only [List.forall₂_cons] at hgiven
  obtain ⟨hkind, hautomaton, hname, hparameters, hreturn, hannotations, hcontracts, hbody, hspan,
    -⟩ := hgiven
  simp only [FunctionDecl.floats, allFinite_append, allFinite_flatMap] at hfinite
  obtain ⟨⟨⟨hparameter, huses⟩, hcontract⟩, hstatement⟩ := hfinite
  exact readFunctionDecl_eq_some.mpr ⟨m, fields, rfl, hfields,
    hkind.required fun _ hvalue => tag_of_spells hvalue (by cases d.kind <;> rfl),
    hautomaton.optional (fun _ => Json.noConfusion) fun _ _ _ => Identifier.read_of_spells,
    hname.optional (fun _ => Json.noConfusion) fun _ _ _ => Identifier.read_of_spells,
    hparameters.items fun p hp _ _ => Parameter.read_of_spells (hparameter p hp),
    hreturn.optional TypeExpr.toJson_ne_null fun _ _ _ => TypeExpr.read_of_spells,
    hannotations.items fun u hu _ _ => AnnotationUse.read_of_spells (huses u hu),
    hcontracts.items fun c hc _ _ => ContractDecl.read_of_spells (hcontract c hc),
    hbody.optional (fun _ => Json.noConfusion) fun statements hstatements _ hlist =>
      list_of_spells hlist fun s hs _ _ =>
        Statement.read_of_spells (hstatement s (by rwa [Option.mem_def.mp hstatements])),
    hspan.place⟩

theorem AutomatonDecl.read_of_spells {d : AutomatonDecl} (hfinite : AllFinite d.floats)
    (h : (Shape.node .automatonDecl).Spells n d.toJson value) :
    readAutomatonDecl n value = some d := by
  obtain ⟨m, fields, rfl, hfields, hgiven⟩ := h.given rfl
  simp only [List.forall₂_cons] at hgiven
  obtain ⟨hname, htype, hconstructor, hstates, hinstance, hshifts, hfunctions, hspan, -⟩ := hgiven
  simp only [AutomatonDecl.floats, allFinite_append, allFinite_flatMap] at hfinite
  obtain ⟨⟨hinitial, hvariable⟩, hfunction⟩ := hfinite
  exact readAutomatonDecl_eq_some.mpr ⟨m, fields, rfl, hfields,
    hname.required fun _ => Identifier.read_of_spells,
    htype.required fun _ => TypeExpr.read_of_spells,
    hconstructor.items fun v hv _ _ => VariableDecl.read_of_spells (hinitial v hv),
    hstates.items fun _ _ _ _ => StateDecl.read_of_spells,
    hinstance.items fun v hv _ _ => VariableDecl.read_of_spells (hvariable v hv),
    hshifts.items fun _ _ _ _ => ShiftDecl.read_of_spells,
    hfunctions.items fun f hf _ _ => FunctionDecl.read_of_spells (hfunction f hf), hspan.place⟩

theorem Declaration.read_of_spells {d : Declaration} (hfinite : AllFinite d.floats)
    (h : (Shape.node .declaration).Spells n d.toJson value) : readDeclaration n value = some d := by
  cases d with
  | typeDecl d =>
    obtain ⟨m, v, rfl, rfl, hv⟩ := h.content_eq (s := .node .typeDecl) rfl (by decide)
    exact congrArg (Option.map Declaration.typeDecl) (TypeDecl.read_of_spells hv)
  | annotationDecl d =>
    obtain ⟨m, v, rfl, rfl, hv⟩ := h.content_eq (s := .node .annotationDecl) rfl (by decide)
    exact congrArg (Option.map Declaration.annotationDecl) (AnnotationDecl.read_of_spells hfinite hv)
  | variableDecl d =>
    obtain ⟨m, v, rfl, rfl, hv⟩ := h.content_eq (s := .node .variableDecl) rfl (by decide)
    exact congrArg (Option.map Declaration.variableDecl) (VariableDecl.read_of_spells hfinite hv)
  | automatonDecl d =>
    obtain ⟨m, v, rfl, rfl, hv⟩ := h.content_eq (s := .node .automatonDecl) rfl (by decide)
    exact congrArg (Option.map Declaration.automatonDecl) (AutomatonDecl.read_of_spells hfinite hv)
  | functionDecl d =>
    obtain ⟨m, v, rfl, rfl, hv⟩ := h.content_eq (s := .node .functionDecl) rfl (by decide)
    exact congrArg (Option.map Declaration.functionDecl) (FunctionDecl.read_of_spells hfinite hv)

/-- Each spelling of a tree with finite numbers is read as this tree. -/
theorem Library.read_of_spells {l : Library} (hfinite : AllFinite l.floats)
    (h : (Shape.node .library).Spells n l.toJson value) : readLibrary n value = some l := by
  obtain ⟨m, fields, rfl, hfields, hgiven⟩ := h.given rfl
  simp only [List.forall₂_cons] at hgiven
  obtain ⟨hname, hlslVersion, hlibraryVersion, hlanguage, hurl, himports, hincludes,
    hdeclarations, -⟩ := hgiven
  exact readLibrary_eq_some.mpr ⟨m, fields, rfl, hfields,
    hname.required fun _ => Identifier.read_of_spells,
    hlslVersion.optional (fun _ => Json.noConfusion) fun _ _ _ => string?_of_spells,
    hlibraryVersion.optional (fun _ => Json.noConfusion) fun _ _ _ => string?_of_spells,
    hlanguage.optional (fun _ => Json.noConfusion) fun _ _ _ => string?_of_spells,
    hurl.optional (fun _ => Json.noConfusion) fun _ _ _ => string?_of_spells,
    himports.items fun _ _ _ _ => string?_of_spells,
    hincludes.items fun _ _ _ _ => string?_of_spells,
    hdeclarations.items fun d hd _ _ =>
      Declaration.read_of_spells (allFinite_flatMap.mp hfinite d hd)⟩

end SyntaxTree

end LibraryContract
