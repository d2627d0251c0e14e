import LibraryContract.Proofs.Layout
import LibraryContract.Proofs.Reading

/-!
# Spellings of a document

A document may say in several ways what the written form of a tree says: it may give the members of a
record in another order or as an array, leave out what counts anyway, add members that nobody asks
for, and put a tag without content into an object. `Shape.Spells` relates a written value to all of
these, wherever in it they are used.

* `Shape.Spells.content_eq`, `Shape.Spells.tag_eq`: how tags are spelled;
* `Shape.Spells.given`: what is found where the members of a spelled record are looked up.
-/

namespace LibraryContract

open Json (Fields Reader list)

namespace SyntaxTree

/-- A member of a written record and what is spelled in its place; `none` when it is left out. -/
structure Row where
  slot : Slot
  written : Json
  spelled : Option Json

namespace Row

def name (r : Row) : String := r.slot.name

def writtenMember (r : Row) : String × Json := (r.name, r.written)

def spelledMember? (r : Row) : Option (String × Json) := r.spelled.map fun value => (r.name, value)

/-- The members of a record that are not left out. -/
def spelledMembers (rows : List Row) : List (String × Json) := rows.filterMap spelledMember?

end Row

/-- A value spells the written one in some shape, and nests at most so many levels, apart from
members that are ignored. -/
inductive Shape.Spells : Shape → Nat → Json → Json → Prop
  | scalar {n : Nat} {value : Json} : Spells .scalar n value value
  | null {content : Shape} {n : Nat} : Spells (.option content) n .null .null
  | present {content : Shape} {n : Nat} {written value : Json} (h : Spells content n written value) :
      Spells (.option content) n written value
  | list {item : Shape} {n : Nat} {pairs : List (Json × Json)}
      (h : ∀ pair ∈ pairs, Spells item n pair.1 pair.2) :
      Spells (.list item) (n + 1) (.array (pairs.map Prod.fst)) (.array (pairs.map Prod.snd))
  /-- The members in any order, without some whose value is the default, and with unknown ones. -/
  | object {kind : NodeKind} {n : Nat} {rows : List Row} {extra members : List (String × Json)}
      (hkind : kind.layout = .record (rows.map Row.slot))
      (hspelled : ∀ r ∈ rows, ∀ value, r.spelled = some value →
        Spells r.slot.shape n r.written value)
      (hleft : ∀ r ∈ rows, r.spelled = none → r.slot.missing = some r.written)
      (hextra : ∀ m ∈ extra, m.1 ∉ rows.map Row.name)
      (hmembers : members.Perm (Row.spelledMembers rows ++ extra)) :
      Spells (.node kind) (n + 1) (.ofMembers (rows.map Row.writtenMember)) (.ofMembers members)
  /-- The values of the members in their order, without some at the end whose value is the
  default. -/
  | array {kind : NodeKind} {n : Nat} {rows : List Row}
      (hkind : kind.layout = .record (rows.map Row.slot))
      (hspelled : ∀ r ∈ rows, ∀ value, r.spelled = some value →
        Spells r.slot.shape n r.written value)
      (hleft : ∀ r ∈ rows, r.spelled = none → r.slot.missing = some r.written)
      (hfront : (Row.spelledMembers rows).map Prod.fst <+: rows.map Row.name) :
      Spells (.node kind) (n + 1) (.ofMembers (rows.map Row.writtenMember))
        (.array ((Row.spelledMembers rows).map Prod.snd))
  | content {kind : NodeKind} {tags : List (String × Option Shape)} {tag : String} {content : Shape}
      {n : Nat} {written value : Json} (hkind : kind.layout = .choice tags)
      (htag : (tag, some content) ∈ tags) (h : Spells content n written value) :
      Spells (.node kind) (n + 1) (taggedJson tag written) (taggedJson tag value)
  | tag {kind : NodeKind} {tags : List (String × Option Shape)} {tag : String} {n : Nat}
      (hkind : kind.layout = .choice tags) (htag : (tag, none) ∈ tags) :
      Spells (.node kind) n (.ofString tag) (.ofString tag)
  /-- A tag without content as the name of a member that is null. -/
  | wrapped {kind : NodeKind} {tags : List (String × Option Shape)} {tag : String} {n : Nat}
      (hkind : kind.layout = .choice tags) (htag : (tag, none) ∈ tags) :
      Spells (.node kind) (n + 1) (.ofString tag) (taggedJson tag .null)

/-! ## What a spelling is made of -/

theorem ofMembers_injective : Function.Injective Json.ofMembers := by
  intro a b h
  refine List.map_injective_iff.mpr ?_ (Json.object.inj h)
  rintro ⟨name, value⟩ ⟨other, last⟩ heq
  simpa using heq

theorem taggedJson_inj {tag other : String} {content last : Json} :
    taggedJson tag content = taggedJson other last ↔ tag = other ∧ content = last := by
  simp [taggedJson, ofMembers_injective.eq_iff]

namespace Shape.Spells

variable {s : Shape} {kind : NodeKind} {n : Nat} {written value : Json}

theorem scalar_eq (h : Shape.scalar.Spells n written value) : value = written := by
  cases h
  rfl

/-- Null spells null, and nothing else does. -/
theorem null_iff (h : s.Spells n written value) : written = .null ↔ value = .null := by
  induction h with
  | present _ ih => exact ih
  | _ => simp [Json.ofMembers, Json.ofString, taggedJson]

theorem option_eq (h : (Shape.option s).Spells n written value) :
    (written = .null ∧ value = .null) ∨ s.Spells n written value := by
  cases h with
  | null => exact .inl ⟨rfl, rfl⟩
  | present h => exact .inr h

theorem list_eq {items : List Json} (h : (Shape.list s).Spells n (.array items) value) :
    ∃ m values, n = m + 1 ∧ value = .array values ∧ List.Forall₂ (s.Spells m) items values := by
  cases h with
  | @list _ m pairs h =>
    refine ⟨m, _, rfl, rfl, ?_⟩
    rw [List.forall₂_map_left_iff, List.forall₂_map_right_iff, List.forall₂_same]
    exact h

/-- A tag with content is spelled with the same tag. -/
theorem content_eq {tags : List (String × Option Shape)} {tag : String} {content : Json}
    (h : (Shape.node kind).Spells n (taggedJson tag content) value)
    (hkind : kind.layout = .choice tags) (htag : (tag, some s) ∈ tags) :
    ∃ m v, n = m + 1 ∧ value = taggedJson tag v ∧ s.Spells m content v := by
  generalize hw : taggedJson tag content = w at h
  cases h with
  | object hother => rw [hkind] at hother; cases hother
  | array hother => rw [hkind] at hother; cases hother
  | tag => cases hw
  | wrapped => cases hw
  | content hother hothertag h =>
    obtain ⟨rfl, rfl⟩ := taggedJson_inj.mp hw
    rw [hkind] at hother
    obtain rfl := Layout.choice.inj hother
    obtain rfl := Option.some.inj (NodeKind.tags_unique hkind htag hothertag)
    exact ⟨_, _, rfl, rfl, h⟩

/-- A tag without content may be put into an object. -/
theorem tag_eq {tag : String} (h : (Shape.node kind).Spells n (.ofString tag) value) :
    value = .ofString tag ∨ ∃ m, n = m + 1 ∧ value = taggedJson tag .null := by
  generalize hw : Json.ofString tag = w at h
  cases h with
  | object => cases hw
  | array => cases hw
  | content => cases hw
  | tag =>
    cases hw
    exact .inl rfl
  | wrapped =>
    cases hw
    exact .inr ⟨_, rfl, rfl⟩

end Shape.Spells

/-! ## The members of a record -/

/-- What may be found where a member of a record is looked up: a spelling of what was written, or
nothing where this says the same. -/
def Slot.Given (slot : Slot) (n : Nat) (written : Json) : Option Json → Prop
  | some value => slot.shape.Spells n written value
  | none => slot.missing = some written

namespace Row

theorem mem_spelledMembers {rows : List Row} {name : String} {value : Json} :
    (name, value) ∈ spelledMembers rows ↔ ∃ r ∈ rows, r.name = name ∧ r.spelled = some value := by
  simp only [spelledMembers, List.mem_filterMap, spelledMember?, Option.map_eq_some_iff,
    Prod.mk.injEq]
  constructor
  · rintro ⟨r, hr, v, hv, rfl, rfl⟩
    exact ⟨r, hr, rfl, hv⟩
  · rintro ⟨r, hr, rfl, hv⟩
    exact ⟨r, hr, value, hv, rfl, rfl⟩

theorem spelledMembers_sublist (rows : List Row) :
    ((spelledMembers rows).map Prod.fst).Sublist (rows.map name) := by
  induction rows with
  | nil => exact .slnil
  | cons r rest ih =>
    rw [spelledMembers, List.filterMap_cons, spelledMember?]
    cases r.spelled with
    | none => exact ih.cons _
    | some value => exact ih.cons_cons _

theorem name_of_mem_spelledMembers {rows : List Row} {m : String × Json}
    (h : m ∈ spelledMembers rows) : m.1 ∈ rows.map name :=
  (spelledMembers_sublist rows).subset (List.mem_map_of_mem h)

theorem map_name (rows : List Row) : (rows.map slot).map Slot.name = rows.map name := List.map_map

/-- Members that are looked up among the spelled ones are given. -/
theorem given {rows : List Row} {fields : Fields} {n : Nat} (hrows : (rows.map name).Nodup)
    (hfields : fields.Perm (spelledMembers rows))
    (hspelled : ∀ r ∈ rows, ∀ value, r.spelled = some value → r.slot.shape.Spells n r.written value)
    (hleft : ∀ r ∈ rows, r.spelled = none → r.slot.missing = some r.written) {r : Row}
    (hr : r ∈ rows) : r.slot.Given n r.written (fields.lookup r.name) := by
  have hnodup : (fields.map Prod.fst).Nodup :=
    (hfields.map Prod.fst).nodup_iff.mpr ((spelledMembers_sublist rows).nodup hrows)
  have hlookup : fields.lookup r.name = r.spelled := by
    refine Option.ext fun value => ?_
    rw [Json.lookup_eq_some_iff hnodup, hfields.mem_iff, mem_spelledMembers]
    constructor
    · rintro ⟨other, hother, hname, hvalue⟩
      rwa [List.inj_on_of_nodup_map hrows hother hr hname] at hvalue
    · exact fun hvalue => ⟨r, hr, rfl, hvalue⟩
  rw [hlookup]
  cases hvalue : r.spelled with
  | none => exact hleft r hr hvalue
  | some value => exact hspelled r hr value hvalue

end Row

end SyntaxTree

namespace Json

/-- An array has the first members of a record. -/
theorem fields?_array {names : List String} {members : List (String × Json)}
    (h : members.map Prod.fst <+: names) :
    (array (members.map Prod.snd)).fields? names = some members := by
  obtain ⟨rest, rfl⟩ := h
  have hzip : (members.map Prod.fst ++ rest).zip (members.map Prod.snd) = members := by
    induction members with
    | nil => simp
    | cons m members ih => exact congrArg (m :: ·) ih
  rw [fields?, if_pos (by simp), hzip]

end Json

namespace SyntaxTree

/-- Each member of a spelled record is given where it is looked up. -/
theorem Shape.Spells.given {kind : NodeKind} {slots : List Slot} {n : Nat}
    {written : List (String × Json)} {value : Json}
    (h : (Shape.node kind).Spells n (.ofMembers written) value) (hkind : kind.layout = .record slots) :
    ∃ m fields, n = m + 1 ∧ value.fields? (slots.map Slot.name) = some fields ∧
      List.Forall₂ (fun slot w => slot.Given m w.2 (fields.lookup slot.name)) slots written := by
  generalize hw : Json.ofMembers written = w at h
  cases h with
  | content hother => rw [hkind] at hother; cases hother
  | tag hother => rw [hkind] at hother; cases hother
  | wrapped hother => rw [hkind] at hother; cases hother
  | @object _ n rows extra members hother hspelled hleft hextra hmembers =>
    obtain rfl := ofMembers_injective hw
    obtain rfl := Layout.record.inj (hkind.symm.trans hother)
    have hrows : (rows.map Row.name).Nodup := Row.map_name rows ▸ NodeKind.slots_nodup hkind
    rw [Row.map_name]
    let known (m : String × Json) : Bool := decide (m.1 ∈ rows.map Row.name)
    have hkept : (Row.spelledMembers rows).filter known = Row.spelledMembers rows :=
      List.filter_eq_self.mpr fun m hm => by simpa [known] using Row.name_of_mem_spelledMembers hm
    have hdropped : extra.filter known = [] :=
      List.filter_eq_nil_iff.mpr fun m hm => by simpa [known] using hextra m hm
    have hknown : (members.filter known).Perm (Row.spelledMembers rows) := by
      have hperm := hmembers.filter known
      rwa [List.filter_append, hkept, hdropped, List.append_nil] at hperm
    refine ⟨n, _, rfl, Json.fields?_object_eq_some.mpr ⟨members, rfl, rfl, ?_⟩, ?_⟩
    · exact (hknown.map Prod.fst).nodup_iff.mpr ((Row.spelledMembers_sublist rows).nodup hrows)
    · rw [List.forall₂_map_left_iff, List.forall₂_map_right_iff, List.forall₂_same]
      exact fun r hr => Row.given hrows hknown hspelled hleft hr
  | @array _ n rows hother hspelled hleft hfront =>
    obtain rfl := ofMembers_injective hw
    obtain rfl := Layout.record.inj (hkind.symm.trans hother)
    have hrows : (rows.map Row.name).Nodup := Row.map_name rows ▸ NodeKind.slots_nodup hkind
    rw [Row.map_name]
    refine ⟨n, _, rfl, Json.fields?_array hfront, ?_⟩
    rw [List.forall₂_map_left_iff, List.forall₂_map_right_iff, List.forall₂_same]
    exact fun r hr => Row.given hrows (.refl _) hspelled hleft hr

end SyntaxTree

end LibraryContract
