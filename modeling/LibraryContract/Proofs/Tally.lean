import LibraryContract.Proofs.Mirror
import LibraryContract.Proofs.Ownership
import LibraryContract.Proofs.SignatureFace
import LibraryContract.Proofs.WrittenType

/-!
# Operations, counted by key

While operations are registered, the table has for each key what the declarations of that key have
come to so far. The declarations of one key all belong to one owner, so another order of the automata
leaves their order alone.

* `Tallies.register`: registering a declaration keeps the tally;
* `Library.keyed_reorders`: the declarations of one key stay in their order.
-/

namespace LibraryContract

open SyntaxTree Build

/-- A declaration of an operation, without its qualifier, with the name of the automaton that owns it. -/
abbrev Owned := FunctionDecl × String

/-- What the declaration says about its operation. -/
def Owned.face (V : Interface) (item : Owned) : Signature.Face := item.1.face V item.2

/-- The declarations with a key, in their order. -/
def keyed (V : Interface) (key : Signature.Key) (items : List Owned) : List Owned :=
  items.filter fun item => decide ((item.face V).key = key)

/-- The name of the automaton that owns a declared operation. -/
def Placed.ownerName (t : SymbolTable) (item : Placed) : String :=
  match item.2 with
  | some id => ((t.automaton? id).map Automaton.name).getD ""
  | none => (item.1.automaton.map Identifier.name).getD ""

def Placed.owned (t : SymbolTable) (item : Placed) : Owned := (item.1.unqualified, item.ownerName t)

/-- The table has for each key what the declarations with that key come to. -/
structure SymbolTable.Tallies (V : Interface) (items : List Owned) (t : SymbolTable) : Prop where
  distinct : t.KeysDistinct
  successive : ∀ key, Signature.Face.Successive ((keyed V key items).map (Owned.face V))
  face?_eq : ∀ key, t.face? key = Signature.Face.merge ((keyed V key items).map (Owned.face V))

variable {V : Interface} {t u base : SymbolTable}

/-! ## Owners -/

theorem Placed.OwnedBy.eq_ownerName {item : Placed} {owner : String} (h : item.OwnedBy t owner) :
    owner = item.ownerName t := by
  obtain ⟨d, _ | id⟩ := item
  · obtain ⟨qualifier, hq, rfl⟩ := h
    have hq : d.automaton = some qualifier := hq
    simp only [ownerName, hq, Option.map_some, Option.getD_some]
  · obtain ⟨a, ha, rfl⟩ := h
    simp only [ownerName, ha, Option.map_some, Option.getD_some]

/-- The automaton around a declaration is registered. -/
def Placed.Known (t : SymbolTable) (item : Placed) : Prop :=
  ∀ id, item.2 = some id → ∃ a, t.automaton? id = some a

theorem Placed.Known.mono {item : Placed} (h : item.Known t) (hu : t.GrowsTo u) : item.Known u := by
  intro id hid
  obtain ⟨a, ha⟩ := h id hid
  obtain ⟨b, hb, -⟩ := hu.automaton? ha
  exact ⟨b, hb⟩

theorem Placed.Known.ownerName_eq {item : Placed} (h : item.Known t) (hu : t.GrowsTo u) :
    item.ownerName u = item.ownerName t := by
  obtain ⟨d, _ | id⟩ := item
  · rfl
  · obtain ⟨a, ha⟩ := h id rfl
    obtain ⟨b, hb, hab⟩ := hu.automaton? ha
    simp only [ownerName, ha, hb, Option.map_some, Option.getD_some, hab.name]

/-! ## One declaration more -/

theorem keyed_concat (V : Interface) (key : Signature.Key) (items : List Owned) (item : Owned) :
    keyed V key (items ++ [item]) =
      if (item.face V).key = key then keyed V key items ++ [item] else keyed V key items := by
  rw [keyed, List.filter_append, List.filter_singleton]
  by_cases hkey : (item.face V).key = key
  · simp [hkey, keyed]
  · simp [hkey, keyed]

namespace SymbolTable.Tallies

variable {items : List Owned}

theorem empty (h : t.operations = []) : t.Tallies V [] := by
  refine ⟨?_, fun _ => Signature.Face.successive_nil, fun key => ?_⟩
  · rw [KeysDistinct, h]
    exact List.nodup_nil
  · rw [face?, h]
    rfl

theorem of_operations (h : t.Tallies V items) (hu : u.operations = t.operations) :
    u.Tallies V items := by
  refine ⟨h.distinct.of_operations hu, h.successive, fun key => ?_⟩
  rw [face?, hu]
  exact h.face?_eq key

theorem interns (h : t.Tallies V items) (hu : Relation.ReflTransGen Interns t u) :
    u.Tallies V items := by
  obtain ⟨types, rfl⟩ := Interns.types_only hu
  exact h.of_operations rfl

theorem registerOperation (h : t.Tallies V items) (hw : t.WellFormed) {s : Signature} {item : Owned}
    (hs : s.face = item.face V) {r : Registration} (hr : t.registerOperation s = .ok (r, u))
    (span : Span) : (u.withResult r.id span).Tallies V (items ++ [item]) := by
  have hkey : (item.face V).key = s.key := by rw [← hs, Signature.key_face]
  have hcompletes := hw.completes_of_registerOperation h.distinct hr
  rw [h.face?_eq, hs] at hcompletes
  refine ⟨(h.distinct.registerOperation hw hr).withResult r.id span, fun key => ?_, fun key => ?_⟩
  · rw [keyed_concat]
    split
    · rename_i hown
      rw [List.map_append]
      refine (h.successive key).concat ?_
      rwa [← hown, hkey]
    · exact h.successive key
  · rw [hw.face?_registerOperation h.distinct hr span key, h.face?_eq, keyed_concat, hkey]
    by_cases hown : s.key = key
    · rw [if_pos hown.symm, if_pos hown, List.map_append, List.map_singleton,
        Signature.Face.merge_concat, hs]
    · rw [if_neg (Ne.symm hown), if_neg hown]

end SymbolTable.Tallies

/-! ## Registering declarations -/

/-- The table after these declarations are registered in a table `base`. -/
structure SymbolTable.Signed (V : Interface) (t base : SymbolTable) (items : List Placed) : Prop where
  shows : t.Shows V
  grows : base.GrowsTo t
  tallies : t.Tallies V (items.map (Placed.owned base))

theorem SymbolTable.Shows.register (h : t.Shows V) {options : Options} {d : FunctionDecl}
    {enclosing : Option AutomatonId} {r : Registration}
    (hr : (d.register options enclosing).Yields t r u) : u.Shows V := by
  have hsigns := hr.reaches (d.register_within options enclosing t)
  obtain ⟨hclosed, hwellFormed⟩ := FunctionDecl.register_closed h.closed h.wellFormed hr
  refine ⟨?_, hwellFormed, hclosed, keeps_of_reflTransGen hsigns (fun _ _ => Signs.housed) h.housed⟩
  exact keeps_of_reflTransGen (P := fun u => u.interface = V) hsigns
    (fun _ _ hstep ht => hstep.interface_eq.trans ht) h.interface_eq

/-- The signature of a registered declaration has the face of the declaration. -/
theorem Placed.signature_face (h : t.Shows V) (hbase : base.GrowsTo t) {options : Options}
    {item : Placed} (hitem : item.Known base) {owner : AutomatonId} {s : Signature}
    (howner : (item.1.resolveOwner options item.2).Yields t owner)
    (hs : (item.1.signature owner).Yields t s u) : s.face = (item.owned base).face V := by
  have hgrows : t.GrowsTo u :=
    .of_reflTransGen (hs.reaches (item.1.signature_within owner t)) fun _ _ => Interns.growsTo
  obtain ⟨hkey, -⟩ := Placed.hasKey h.wellFormed (hitem.mono hbase) howner hs
  rw [FunctionDecl.signature_face h hs, hkey.owner.eq_ownerName,
    hitem.ownerName_eq (hbase.trans hgrows)]
  rfl

theorem SymbolTable.Signed.register {items : List Placed} (h : t.Signed V base items)
    {options : Options} {item : Placed} (hitem : item.Known base) {r : Registration}
    (hr : (item.1.register options item.2).Yields t r u) : u.Signed V base (items ++ [item]) := by
  refine ⟨h.shows.register hr, h.grows.trans ?_, ?_⟩
  · exact .of_reflTransGen (hr.reaches (item.1.register_within options item.2 t)) fun _ _ =>
      Signs.growsTo
  · obtain ⟨owner, s, v, w, howner, hs, hw, rfl⟩ := FunctionDecl.register_yields hr
    have hv := hs.reaches (item.1.signature_within owner t)
    rw [List.map_append]
    exact (h.tallies.interns hv).registerOperation (h.shows.interns hv).wellFormed
      (Placed.signature_face h.shows h.grows hitem howner hs) hw item.1.span

/-! ## Another order of the automata -/

namespace SyntaxTree.Library

/-- All declarations of operations, with the names of their owners. -/
def owned (l : Library) : List Owned :=
  (l.automata.flatMap fun a => a.functions.map fun d => (d.unqualified, a.name.name)) ++
    l.functions.map fun d => (d.unqualified, (d.automaton.map Identifier.name).getD "")

theorem placed_owned {l : Library} (h : l.automata.map (fun d => d.name.name) =
    t.automata.map Automaton.name) : l.placed.map (Placed.owned t) = l.owned := by
  rw [placed, owned, List.map_append, List.map_flatten, List.map_map, List.flatMap_def]
  congr 2
  refine List.ext_getElem (by simp) fun i hi hj => ?_
  simp only [List.getElem_map, List.getElem_mapIdx, List.map_map]
  refine List.map_congr_left fun d _ => Prod.ext rfl ?_
  have hi : i < l.automata.length := by simpa using hj
  have hname : (t.automata[i]?).map Automaton.name = some l.automata[i].name.name := by
    rw [← List.getElem?_map, ← h, List.getElem?_map, List.getElem?_eq_getElem hi]
    rfl
  show ((t.automata[i]?).map Automaton.name).getD "" = _
  rw [hname]
  rfl

theorem filter_eq_of_perm {α β : Type} [DecidableEq β] {l m : List α} {f : α → β} (hp : l.Perm m)
    (hn : (l.map f).Nodup) (k : β) :
    (l.filter fun a => decide (f a = k)) = m.filter fun a => decide (f a = k) := by
  have hperm := hp.filter fun a => decide (f a = k)
  have hsub : ((l.filter fun a => decide (f a = k)).map f).Nodup := hn.sublist (List.filter_sublist.map f)
  have hkey : ∀ a ∈ l.filter fun a => decide (f a = k), f a = k :=
    fun a ha => of_decide_eq_true (List.mem_filter.mp ha).2
  rcases hcases : l.filter fun a => decide (f a = k) with _ | ⟨a, _ | ⟨b, rest⟩⟩
  · rw [hcases] at hperm
    exact hperm.nil_eq
  · rw [hcases] at hperm
    exact hperm.singleton_eq
  · rw [hcases] at hsub hkey
    have ha := hkey a List.mem_cons_self
    have hb := hkey b (List.mem_cons_of_mem a List.mem_cons_self)
    exact absurd (ha.trans hb.symm) ((List.nodup_cons.mp hsub).1 <| · ▸ List.mem_cons_self)

theorem flatMap_filter_of_nil {α β : Type} {l : List α} {g : α → List β} {p : α → Bool}
    (h : ∀ a ∈ l, p a = false → g a = []) : (l.filter p).flatMap g = l.flatMap g := by
  induction l with
  | nil => rfl
  | cons a rest ih =>
    have hrest := ih fun b hb => h b (List.mem_cons_of_mem a hb)
    cases hp : p a with
    | true => rw [List.filter_cons_of_pos hp, List.flatMap_cons, List.flatMap_cons, hrest]
    | false =>
      rw [List.filter_cons_of_neg (by simp [hp]), List.flatMap_cons, h a List.mem_cons_self hp, hrest]
      rfl

/-- The declarations of one key belong to one automaton, and stay in their order. -/
theorem keyed_reorders {l l' : Library} (hl : l.Reorders l')
    (hn : (l.automata.map fun d => d.name.name).Nodup) (V : Interface) (key : Signature.Key) :
    keyed V key l.owned = keyed V key l'.owned := by
  have hside : ∀ l : Library, keyed V key l.owned =
      ((l.automata.filter fun a => decide (a.name.name = key.2.2.1)).flatMap fun a =>
        keyed V key (a.functions.map fun d => (d.unqualified, a.name.name))) ++
          keyed V key (l.functions.map fun d =>
            (d.unqualified, (d.automaton.map Identifier.name).getD "")) := by
    intro l
    rw [flatMap_filter_of_nil, owned, keyed, List.filter_append, List.filter_flatMap]
    · rfl
    · intro a _ hother
      refine List.filter_eq_nil_iff.mpr fun item hitem hkey => ?_
      obtain ⟨d, -, rfl⟩ := List.mem_map.mp hitem
      refine of_decide_eq_false hother ?_
      rw [← of_decide_eq_true hkey]
      rfl
  rw [hside, hside, hl.functions, filter_eq_of_perm hl.automata hn]

end SyntaxTree.Library

end LibraryContract
