import LibraryContract.Proofs.ClosedGraph
import LibraryContract.Proofs.Variables
import LibraryContract.Proofs.WrittenType

/-!
# What names tell

Expressions, shifts and bodies mention types, annotations, global variables and automata by name.
`SymbolTable.interface` is what a table answers to such names: no numbers, no order, and no arrays,
which are registered as they are met. It is settled when the automata are declared; signing and
elaborating operations leaves it as it is.

* `Signs.interface_eq`, `Elaborates.interface_eq`: the later phases keep the interface;
* `SymbolTable.Shows`: a table in good order with a given interface;
* `Shows.type?_of_knows`, `Shows.sameAutomaton`: what a name stands for in a table, it also stands for
  in every other table that shows the same interface.
-/

namespace LibraryContract

open SyntaxTree Build

namespace OrderedMap

variable {κ α β : Type}

/-- The map with every value replaced by its image. -/
def map (f : α → β) (m : OrderedMap κ α) : OrderedMap κ β where
  entries := m.entries.map fun e => (e.1, f e.2)
  nodup_keys := by
    rw [List.map_map]
    exact m.nodup_keys

variable [DecidableEq κ]

theorem get?_map (f : α → β) (m : OrderedMap κ α) (k : κ) : (m.map f).get? k = (m.get? k).map f := by
  simp only [get?, map, List.find?_map, Option.map_map, Function.comp_def]

theorem contains_map (f : α → β) (m : OrderedMap κ α) (k : κ) :
    (m.map f).contains k = m.contains k := by
  rw [contains, get?_map, Option.isSome_map, contains]

theorem map_modify (f : α → β) (m : OrderedMap κ α) (k : κ) {g : α → α} (hg : ∀ a, f (g a) = f a) :
    (m.modify k g).map f = m.map f := by
  refine ext ?_
  simp only [map, modify, List.map_map]
  refine List.map_congr_left fun e _ => ?_
  simp only [Function.comp, updateEntry]
  split <;> simp [hg]

theorem map_insert (f : α → β) (m : OrderedMap κ α) (k : κ) (v : α) :
    (m.insert k v).map f = (m.map f).insert k (f v) := by
  refine ext ?_
  cases hk : m.contains k with
  | false =>
    rw [entries_insert_of_not_contains ((contains_map f m k).trans hk)]
    simp only [map, entries_insert_of_not_contains hk, List.map_append, List.map_cons, List.map_nil]
  | true =>
    rw [insert_of_contains ((contains_map f m k).trans hk), insert_of_contains hk]
    simp only [map, modify, List.map_map]
    refine List.map_congr_left fun e _ => ?_
    simp only [Function.comp, updateEntry]
    split <;> rfl

end OrderedMap

/-- What expressions and shifts can see of an automaton. -/
structure Automaton.Face where
  type : String
  states : OrderedMap String State
  constructorVariables : OrderedMap String String
  instanceVariables : OrderedMap String String

/-- The type and the states of an automaton, and its variables with their types. -/
def Automaton.face (a : Automaton) : Automaton.Face where
  type := a.type
  states := a.states
  constructorVariables := a.constructorVariables.map Variable.type
  instanceVariables := a.instanceVariables.map Variable.type

/-- What a table answers to names. -/
@[ext]
structure Interface where
  type? : String → Option DataType
  annotation? : String → Option Annotation
  global? : String → Option String
  automaton? : String → Option Automaton.Face

/-- The declared types, the annotations, the types of the global variables and the automata. -/
def SymbolTable.interface (t : SymbolTable) : Interface where
  type? name := (t.type? name).filter fun type => !type.isArray
  annotation? := t.annotation?
  global? name := (t.global? name).map Variable.type
  automaton? name := (t.automatonNamed? name).map Automaton.face

variable {t u t' : SymbolTable}

/-! ## The later phases -/

namespace SymbolTable

theorem interface_internArray (t : SymbolTable) (element : String) :
    (t.internArray element).interface = t.interface := by
  refine Interface.ext (funext fun name => ?_) rfl rfl rfl
  cases ht : t.type? name with
  | some type =>
    have hu := (growsTo_internArray t element).type? ht
    simp only [interface, ht, hu]
  | none =>
    cases hu : (t.internArray element).type? name with
    | none => simp only [interface, ht, hu]
    | some type =>
      rcases type?_internArray hu with hold | rfl
      · rw [ht] at hold
        cases hold
      · simp only [interface, ht, hu]
        rfl

theorem interface_modifyAutomaton (t : SymbolTable) (id : AutomatonId) {f : Automaton → Automaton}
    (hf : ∀ a, (f a).face = a.face) : (t.modifyAutomaton id f).interface = t.interface := by
  refine Interface.ext rfl rfl rfl (funext fun name => ?_)
  show ((t.automatonId? name).bind (t.modifyAutomaton id f).automaton?).map Automaton.face =
    ((t.automatonId? name).bind t.automaton?).map Automaton.face
  cases t.automatonId? name with
  | none => rfl
  | some j => exact t.map_automaton?_modifyAutomaton id j hf

theorem interface_setInitial (t : SymbolTable) (home : VariableScope) (name : String)
    (value : Value) : (t.setInitial home name value).interface = t.interface := by
  have hmap : ∀ m : OrderedMap String Variable,
      (m.modify name fun v => { v with initial := some value }).map Variable.type =
        m.map Variable.type := fun m => OrderedMap.map_modify _ m name fun _ => rfl
  cases home with
  | global =>
    refine Interface.ext rfl rfl (funext fun n => ?_) rfl
    show ((t.globals.modify name _).get? n).map Variable.type = (t.globals.get? n).map Variable.type
    rw [← OrderedMap.get?_map, ← OrderedMap.get?_map, hmap]
  | automaton owner =>
    refine t.interface_modifyAutomaton owner fun a => ?_
    simp only [Automaton.face, hmap]
  | constructorParameter owner =>
    refine t.interface_modifyAutomaton owner fun a => ?_
    simp only [Automaton.face, hmap]
  | _ => rfl

end SymbolTable

theorem Automaton.face_addOperation (a : Automaton) (kind : OperationKind) (id : OperationId) :
    (a.addOperation kind id).face = a.face := by
  cases kind <;> rfl

theorem Signs.interface_eq (h : Signs t u) : u.interface = t.interface := by
  rcases h with _ | ⟨-, hu⟩
  · exact t.interface_internArray _
  · obtain ⟨owner, -, ⟨-, -, rfl⟩ | ⟨id, declared, -, -, -, -, -, rfl⟩⟩ :=
      SymbolTable.registerOperation_cases hu
    · exact t.interface_modifyAutomaton owner fun a => a.face_addOperation _ _
    · rfl

theorem Elaborates.interface_eq (h : Elaborates t u) : u.interface = t.interface := by
  rcases h with _ | _ | _ | _ | ⟨-, -, hv, -, -, -, hu⟩ | _
  · exact t.interface_internArray _
  · exact t.interface_setInitial _ _ _
  · exact t.interface_modifyAutomaton _ fun _ => rfl
  · rfl
  · obtain ⟨-, -, rfl⟩ := SymbolTable.registerVariable_eq_ok.mp hu
    rw [hv]
    rfl
  · rfl

/-! ## Tables with one interface -/

/-- A table in good order that answers to names as `V` says. -/
structure SymbolTable.Shows (V : Interface) (t : SymbolTable) : Prop where
  interface_eq : t.interface = V
  wellFormed : t.WellFormed
  closed : t.Closed
  housed : t.Housed

/-- Two numbers that stand for automata of one name and one face. -/
def SameAutomaton (t t' : SymbolTable) (id id' : AutomatonId) : Prop :=
  ∃ a a', t.automaton? id = some a ∧ t'.automaton? id' = some a' ∧ a.name = a'.name ∧
    a.face = a'.face

theorem SameAutomaton.type_eq {id id' : AutomatonId} (h : SameAutomaton t t' id id') :
    ((t.automaton? id).map Automaton.type).getD "" =
      ((t'.automaton? id').map Automaton.type).getD "" := by
  obtain ⟨a, a', ha, ha', -, hface⟩ := h
  rw [ha, ha']
  exact congrArg Automaton.Face.type hface

theorem SameAutomaton.name_eq {id id' : AutomatonId} (h : SameAutomaton t t' id id') :
    ((t.automaton? id).map Automaton.name).getD "" =
      ((t'.automaton? id').map Automaton.name).getD "" := by
  obtain ⟨a, a', ha, ha', hname, -⟩ := h
  rw [ha, ha']
  exact hname

theorem Automaton.variableNamed?_type (a : Automaton) (name : String) :
    (a.variableNamed? name).map Variable.type =
      (a.face.instanceVariables.get? name).or (a.face.constructorVariables.get? name) := by
  simp only [Automaton.face, OrderedMap.get?_map, Automaton.variableNamed?, Option.map_or]

theorem SameAutomaton.variable {id id' : AutomatonId} (h : SameAutomaton t t' id id')
    (name : String) :
    ((t.automaton? id).bind fun a => a.variableNamed? name).map Variable.type =
      ((t'.automaton? id').bind fun a => a.variableNamed? name).map Variable.type := by
  obtain ⟨a, a', ha, ha', -, hface⟩ := h
  rw [ha, ha', Option.bind_some, Option.bind_some, a.variableNamed?_type, a'.variableNamed?_type, hface]

namespace SymbolTable.Shows

variable {V : Interface}

theorem interns (h : t.Shows V) (hu : Relation.ReflTransGen Interns t u) : u.Shows V := by
  refine keeps_of_reflTransGen hu (fun s v hs ht => ?_) h
  exact ⟨hs.signs.interface_eq.trans ht.interface_eq, hs.wellFormed ht.wellFormed,
    hs.closed ht.closed, hs.signs.housed ht.housed⟩

theorem elaborates (h : t.Shows V) (hu : Relation.ReflTransGen Elaborates t u) : u.Shows V := by
  refine keeps_of_reflTransGen hu (fun s v hs ht => ?_) h
  exact ⟨hs.interface_eq.trans ht.interface_eq, hs.wellFormed ht.wellFormed,
    hs.closed ht.closed ht.wellFormed, hs.housed ht.housed⟩

/-- The types that an interface tells are those that are no arrays. -/
theorem type?_eq_some_iff (h : t.Shows V) {name : String} {type : DataType} :
    V.type? name = some type ↔ t.type? name = some type ∧ type.isArray = false := by
  rw [← h.interface_eq]
  simp only [interface, Option.filter_eq_some_iff, Bool.not_eq_true']

variable (h : t.Shows V) (h' : t'.Shows V)

include h h'

/-- A name that both tables know stands for one type. -/
theorem type?_of_knows {name : String} {type : DataType} (ht : t.type? name = some type)
    (hk : t'.Knows name) : t'.type? name = some type := by
  obtain ⟨type', ht'⟩ := hk
  cases htype : type.isArray with
  | false => exact (h'.type?_eq_some_iff.mp (h.type?_eq_some_iff.mpr ⟨ht, htype⟩)).1
  | true =>
    cases htype' : type'.isArray with
    | false =>
      have hother := h.type?_eq_some_iff.mp (h'.type?_eq_some_iff.mpr ⟨ht', htype'⟩)
      rw [Option.some.inj (ht.symm.trans hother.1)] at htype
      rw [hother.2] at htype
      cases htype
    | true =>
      -- the name itself tells what the elements are
      have hname := (h.wellFormed.type_name name _ ht).trans (h'.wellFormed.type_name name _ ht').symm
      cases type <;> cases htype
      cases type' <;> cases htype'
      rw [ht', (String.append_left_inj "[]").mp hname]

/-- A name that is not that of an array is known in both tables or in none. -/
theorem knows {name : String} (hname : BracketFree name) (hk : t.Knows name) : t'.Knows name := by
  obtain ⟨type, ht⟩ := hk
  cases htype : type.isArray with
  | false => exact ⟨type, (h'.type?_eq_some_iff.mp (h.type?_eq_some_iff.mpr ⟨ht, htype⟩)).1⟩
  | true =>
    cases type <;> cases htype
    exact (hname _ (h.wellFormed.type_name name _ ht).symm).elim

theorem annotation?_eq (name : String) : t.annotation? name = t'.annotation? name :=
  congrFun (congrArg Interface.annotation? (h.interface_eq.trans h'.interface_eq.symm)) name

theorem global?_eq (name : String) :
    (t.global? name).map Variable.type = (t'.global? name).map Variable.type :=
  congrFun (congrArg Interface.global? (h.interface_eq.trans h'.interface_eq.symm)) name

theorem automatonNamed?_face (name : String) :
    (t.automatonNamed? name).map Automaton.face = (t'.automatonNamed? name).map Automaton.face :=
  congrFun (congrArg Interface.automaton? (h.interface_eq.trans h'.interface_eq.symm)) name

/-- Automata of one name have one face. -/
theorem sameAutomaton_of_name {id id' : AutomatonId} {a a' : Automaton}
    (ha : t.automaton? id = some a) (ha' : t'.automaton? id' = some a') (hname : a.name = a'.name) :
    SameAutomaton t t' id id' := by
  have hid := (h.wellFormed.automatonId?_iff a.name id).mpr ⟨a, ha, rfl⟩
  have hid' := (h'.wellFormed.automatonId?_iff a.name id').mpr ⟨a', ha', hname.symm⟩
  have hface := automatonNamed?_face h h' a.name
  simp only [automatonNamed?, hid, hid', Option.bind_some, ha, ha', Option.map_some,
    Option.some.injEq] at hface
  exact ⟨a, a', ha, ha', hname, hface⟩

/-- The automaton of a name is registered in both tables. -/
theorem sameAutomaton {name : String} {id : AutomatonId} (hid : t.automatonId? name = some id) :
    ∃ id', t'.automatonId? name = some id' ∧ SameAutomaton t t' id id' := by
  obtain ⟨a, ha, rfl⟩ := (h.wellFormed.automatonId?_iff name id).mp hid
  have hface := automatonNamed?_face h h' a.name
  simp only [automatonNamed?, hid, Option.bind_some, ha, Option.map_some] at hface
  obtain ⟨a', hnamed, -⟩ := Option.map_eq_some_iff.mp hface.symm
  obtain ⟨id', hid', ha'⟩ := Option.bind_eq_some_iff.mp hnamed
  obtain ⟨b, hb, hname⟩ := (h'.wellFormed.automatonId?_iff a.name id').mp hid'
  exact ⟨id', hid', sameAutomaton_of_name h h' ha hb hname.symm⟩

theorem rel_automatonId? (name : String) :
    Option.Rel (SameAutomaton t t') (t.automatonId? name) (t'.automatonId? name) := by
  cases hid : t.automatonId? name with
  | some id =>
    obtain ⟨id', hid', hsame⟩ := sameAutomaton h h' hid
    rw [hid']
    exact .some hsame
  | none =>
    cases hid' : t'.automatonId? name with
    | none => exact .none
    | some id' =>
      obtain ⟨id, hback, -⟩ := sameAutomaton h' h hid'
      rw [hid] at hback
      cases hback

/-- Two numbers stand for automata of one name exactly when their counterparts do. -/
theorem id_eq_iff {i j i' j' : AutomatonId} (hi : SameAutomaton t t' i i')
    (hj : SameAutomaton t t' j j') : i = j ↔ i' = j' := by
  obtain ⟨a, a', ha, ha', haname, -⟩ := hi
  obtain ⟨b, b', hb, hb', hbname, -⟩ := hj
  constructor
  · rintro rfl
    obtain rfl := Option.some.inj (ha.symm.trans hb)
    exact h'.wellFormed.automaton_unique ha' hb' (haname.symm.trans hbname)
  · rintro rfl
    obtain rfl := Option.some.inj (ha'.symm.trans hb')
    exact h.wellFormed.automaton_unique ha hb (haname.trans hbname.symm)

end SymbolTable.Shows

/-- Automata that stand for each other do so as long as both tables show one interface. -/
theorem SameAutomaton.grows {V : Interface} {u u' : SymbolTable} {id id' : AutomatonId}
    (h : SameAutomaton t t' id id') (hu : t.GrowsTo u) (hu' : t'.GrowsTo u') (hs : u.Shows V)
    (hs' : u'.Shows V) : SameAutomaton u u' id id' := by
  obtain ⟨a, a', ha, ha', hname, -⟩ := h
  obtain ⟨b, hb, hab⟩ := hu.automaton? ha
  obtain ⟨b', hb', hab'⟩ := hu'.automaton? ha'
  exact hs.sameAutomaton_of_name hs' hb hb' ((hab.name.trans hname).trans hab'.name.symm)

end LibraryContract
