/-!
# Maps that remember insertion order

Every answer of the checker lists named things in the order in which they were declared, and
every name may be declared once. `OrderedMap` is the container for that: the entries in the
order of their first insertion, together with a proof that no key occurs twice.

`get?_insert` and `keys_insert` say what insertion does to the two views of a map, its lookups and
its keys; `get?_modify` and `keys_modify` do the same for an update in place.
-/

namespace LibraryContract

/-- A map as the list of its entries, in the order in which their keys first came. -/
structure OrderedMap (κ α : Type) where
  entries : List (κ × α)
  nodup_keys : (entries.map Prod.fst).Nodup
deriving DecidableEq

namespace OrderedMap

variable {κ α : Type}

def empty : OrderedMap κ α := ⟨[], List.nodup_nil⟩

instance : Inhabited (OrderedMap κ α) := ⟨empty⟩

/-- The keys, in order of first insertion. -/
def keys (m : OrderedMap κ α) : List κ := m.entries.map Prod.fst

/-- The values, in the order of their keys. -/
def values (m : OrderedMap κ α) : List α := m.entries.map Prod.snd

def size (m : OrderedMap κ α) : Nat := m.entries.length

def isEmpty (m : OrderedMap κ α) : Bool := m.entries.isEmpty

@[simp] theorem keys_empty : (empty : OrderedMap κ α).keys = [] := rfl

theorem ext {m n : OrderedMap κ α} (h : m.entries = n.entries) : m = n := by
  cases m; cases n; cases h; rfl

theorem keys_nodup (m : OrderedMap κ α) : m.keys.Nodup := m.nodup_keys

variable [DecidableEq κ]

def get? (m : OrderedMap κ α) (k : κ) : Option α :=
  (m.entries.find? fun e => decide (e.1 = k)).map Prod.snd

def contains (m : OrderedMap κ α) (k : κ) : Bool := (m.get? k).isSome

/-- One entry changed in place when its key is `k`. -/
def updateEntry (k : κ) (f : α → α) (e : κ × α) : κ × α :=
  if e.1 = k then (e.1, f e.2) else e

@[simp] theorem fst_updateEntry (k : κ) (f : α → α) (e : κ × α) :
    (updateEntry k f e).1 = e.1 := by
  unfold updateEntry; split <;> rfl

theorem map_fst_updateEntry (k : κ) (f : α → α) (l : List (κ × α)) :
    (l.map (updateEntry k f)).map Prod.fst = l.map Prod.fst := by
  simp

/-- The map with the value under `k`, if there is one, changed by `f`. -/
def modify (m : OrderedMap κ α) (k : κ) (f : α → α) : OrderedMap κ α where
  entries := m.entries.map (updateEntry k f)
  nodup_keys := by rw [map_fst_updateEntry]; exact m.nodup_keys

theorem get?_eq_none_iff {m : OrderedMap κ α} {k : κ} : m.get? k = none ↔ k ∉ m.keys := by
  simp only [get?, keys, Option.map_eq_none_iff, List.find?_eq_none, List.mem_map,
    decide_eq_true_eq, not_exists, not_and]

theorem contains_iff_mem_keys {m : OrderedMap κ α} {k : κ} : m.contains k = true ↔ k ∈ m.keys := by
  rw [contains, ← Decidable.not_iff_not, ← get?_eq_none_iff]
  simp

/-- The map with `v` under `k`: a new key goes to the end, a known one keeps its place. -/
def insert (m : OrderedMap κ α) (k : κ) (v : α) : OrderedMap κ α :=
  if h : m.contains k = true then m.modify k fun _ => v
  else
    { entries := m.entries ++ [(k, v)]
      nodup_keys := by
        have hk : k ∉ m.keys := fun hm => h (contains_iff_mem_keys.mpr hm)
        simp only [List.map_append, List.map_cons, List.map_nil]
        refine List.nodup_append.mpr ⟨m.nodup_keys, by simp, ?_⟩
        intro a ha b hb hab
        rw [List.mem_singleton] at hb
        exact hk (hb ▸ hab ▸ ha) }

/-- The map of a list of entries: a repeated key keeps its first place and its last value. -/
def ofList (entries : List (κ × α)) : OrderedMap κ α :=
  entries.foldl (fun m e => m.insert e.1 e.2) empty

/-! ## What the operations do to the views -/

@[simp] theorem get?_empty (k : κ) : (empty : OrderedMap κ α).get? k = none := rfl

@[simp] theorem keys_modify (m : OrderedMap κ α) (k : κ) (f : α → α) :
    (m.modify k f).keys = m.keys := map_fst_updateEntry k f m.entries

theorem find?_updateEntry (k j : κ) (f : α → α) (l : List (κ × α)) :
    (l.map (updateEntry k f)).find? (fun e => decide (e.1 = j)) =
      (l.find? fun e => decide (e.1 = j)).map (updateEntry k f) := by
  induction l with
  | nil => rfl
  | cons e l ih =>
    simp only [List.map_cons, List.find?_cons, fst_updateEntry]
    split <;> simp [ih]

theorem get?_modify_self (m : OrderedMap κ α) (k : κ) (f : α → α) :
    (m.modify k f).get? k = (m.get? k).map f := by
  simp only [get?, modify, find?_updateEntry, Option.map_map]
  cases h : m.entries.find? fun e => decide (e.1 = k) with
  | none => rfl
  | some e =>
    have he : e.1 = k := by simpa using List.find?_some h
    simp [updateEntry, he]

theorem get?_modify_of_ne (m : OrderedMap κ α) {k j : κ} (f : α → α) (h : j ≠ k) :
    (m.modify k f).get? j = m.get? j := by
  simp only [get?, modify, find?_updateEntry, Option.map_map]
  cases hf : m.entries.find? fun e => decide (e.1 = j) with
  | none => rfl
  | some e =>
    have he : e.1 = j := by simpa using List.find?_some hf
    have hk : e.1 ≠ k := he ▸ h
    simp [updateEntry, hk]

theorem insert_of_contains {m : OrderedMap κ α} {k : κ} (h : m.contains k = true) (v : α) :
    m.insert k v = m.modify k fun _ => v := by
  simp [insert, h]

theorem entries_insert_of_not_contains {m : OrderedMap κ α} {k : κ} (h : m.contains k = false)
    (v : α) : (m.insert k v).entries = m.entries ++ [(k, v)] := by
  simp [insert, h]

theorem get?_insert_self (m : OrderedMap κ α) (k : κ) (v : α) : (m.insert k v).get? k = some v := by
  cases h : m.contains k with
  | true =>
    rw [insert_of_contains h, get?_modify_self]
    obtain ⟨a, ha⟩ := Option.isSome_iff_exists.mp h
    simp [ha]
  | false =>
    have hn : m.entries.find? (fun e => decide (e.1 = k)) = none := by
      simpa [contains, get?] using h
    simp [get?, entries_insert_of_not_contains h, List.find?_append, hn]

theorem get?_insert_of_ne (m : OrderedMap κ α) {k j : κ} (v : α) (hne : j ≠ k) :
    (m.insert k v).get? j = m.get? j := by
  cases h : m.contains k with
  | true => rw [insert_of_contains h, get?_modify_of_ne _ _ hne]
  | false =>
    have hk : ¬ k = j := fun e => hne e.symm
    simp [get?, entries_insert_of_not_contains h, List.find?_append, hk]

theorem keys_insert (m : OrderedMap κ α) (k : κ) (v : α) :
    (m.insert k v).keys = if m.contains k then m.keys else m.keys ++ [k] := by
  cases h : m.contains k with
  | true => simp [insert_of_contains h]
  | false => simp [keys, entries_insert_of_not_contains h]

theorem get?_modify (m : OrderedMap κ α) (k j : κ) (f : α → α) :
    (m.modify k f).get? j = if j = k then (m.get? j).map f else m.get? j := by
  by_cases h : j = k
  · subst h
    rw [if_pos rfl, get?_modify_self]
  · rw [if_neg h, get?_modify_of_ne m f h]

theorem get?_insert (m : OrderedMap κ α) (k j : κ) (v : α) :
    (m.insert k v).get? j = if j = k then some v else m.get? j := by
  by_cases h : j = k
  · subst h
    rw [if_pos rfl, get?_insert_self]
  · rw [if_neg h, get?_insert_of_ne m v h]

theorem contains_insert (m : OrderedMap κ α) (k j : κ) (v : α) :
    (m.insert k v).contains j = (decide (j = k) || m.contains j) := by
  rw [contains, get?_insert, contains]
  split <;> simp [*]

theorem get?_eq_some_iff {m : OrderedMap κ α} {k : κ} {v : α} :
    m.get? k = some v ↔ (k, v) ∈ m.entries := by
  obtain ⟨entries, hn⟩ := m
  unfold get?
  induction entries with
  | nil => simp
  | cons e l ih =>
    have hl : (l.map Prod.fst).Nodup := (List.nodup_cons.mp hn).2
    have he : ∀ w, (e.1, w) ∉ l := by
      intro w hw
      exact (List.nodup_cons.mp hn).1 (List.mem_map.mpr ⟨_, hw, rfl⟩)
    simp only [List.find?_cons, List.mem_cons]
    by_cases hk : e.1 = k
    · subst hk
      simp only [decide_true, Option.map_some, Option.some.injEq]
      constructor
      · rintro rfl
        exact Or.inl rfl
      · rintro (h | h)
        · rw [← h]
        · exact (he v h).elim
    · simp only [hk, decide_false]
      rw [ih hl]
      constructor
      · exact Or.inr
      · rintro (h | h)
        · exact (hk (by rw [← h])).elim
        · exact h

theorem mem_values {m : OrderedMap κ α} {v : α} : v ∈ m.values ↔ ∃ k, m.get? k = some v := by
  simp only [values, List.mem_map, get?_eq_some_iff, Prod.exists]
  constructor
  · rintro ⟨k, w, h, rfl⟩
    exact ⟨k, h⟩
  · rintro ⟨k, h⟩
    exact ⟨k, v, h, rfl⟩

theorem values_insert_of_not_contains {m : OrderedMap κ α} {k : κ} (h : m.contains k = false)
    (v : α) : (m.insert k v).values = m.values ++ [v] := by
  simp [values, entries_insert_of_not_contains h]

/-- Entries with different keys are all kept. -/
theorem entries_ofList {entries : List (κ × α)} (h : (entries.map Prod.fst).Nodup) :
    (ofList entries).entries = entries := by
  have hfold : ∀ (rest : List (κ × α)) (m : OrderedMap κ α), (m.keys ++ rest.map Prod.fst).Nodup →
      (rest.foldl (fun m e => m.insert e.1 e.2) m).entries = m.entries ++ rest := by
    intro rest
    induction rest with
    | nil => exact fun m _ => (List.append_nil _).symm
    | cons e rest ih =>
      intro m hm
      have hnew : m.contains e.1 = false := by
        rw [Bool.eq_false_iff, ne_eq, contains_iff_mem_keys]
        intro hk
        exact (List.nodup_append.mp hm).2.2 _ hk _ List.mem_cons_self rfl
      have hkeys : ((m.insert e.1 e.2).keys ++ rest.map Prod.fst).Nodup := by
        rw [keys_insert, hnew, if_neg Bool.false_ne_true, ← List.append_cons]
        exact hm
      rw [List.foldl_cons, ih _ hkeys, entries_insert_of_not_contains hnew, ← List.append_cons]
  exact hfold entries empty h

theorem mem_of_get?_ofList {entries : List (κ × α)} {k : κ} {v : α}
    (h : (ofList entries).get? k = some v) : (k, v) ∈ entries := by
  have hfold : ∀ (rest : List (κ × α)) (m : OrderedMap κ α),
      (rest.foldl (fun m e => m.insert e.1 e.2) m).get? k = some v →
        m.get? k = some v ∨ (k, v) ∈ rest := by
    intro rest
    induction rest with
    | nil => exact fun m hm => Or.inl hm
    | cons e rest ih =>
      intro m hm
      rcases ih _ hm with hm | hmem
      · rw [get?_insert] at hm
        split at hm
        · rename_i hk
          rw [hk, ← Option.some.inj hm]
          exact Or.inr List.mem_cons_self
        · exact Or.inl hm
      · exact Or.inr (List.mem_cons_of_mem e hmem)
  rcases hfold entries empty h with hempty | hmem
  · cases hempty
  · exact hmem

end OrderedMap

end LibraryContract
