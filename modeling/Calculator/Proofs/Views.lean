import Calculator.Proofs.Families
import Mathlib.Data.List.Perm.Lattice

/-!
# Calculator.Proofs.Views

What an environment shows: what its names stand for, and its options. Changes and copies are told
by what they do to that, whether an environment is a root or lies over others.

* `lookup_register`, `lookup_register_other`: a name that is registered or removed stands for that
  or for nothing, and all others for what they stood for.
* `built_everywhere`: what holds of all tables of a built family.
* `mem_names`, `names_nodup`: in a built family the names are those that stand for something, each
  of them once.
* `SameView`: two environments show the same. Changing both alike keeps it.
* `overlay_view`, `snapshot_view`: both kinds of copies show what the original shows.
-/

namespace Calculator

/-! ## Tables -/

namespace Table

variable {α : Type}

theorem find?_erase_same (key : String) (table : Table α) : (table.erase key).find? key = none := by
  induction table with
  | nil => rfl
  | cons first rest ih =>
    obtain ⟨other, old⟩ := first
    by_cases same : other = key <;> simp [erase, find?, same, ih]

theorem find?_erase_other {key name : String} (table : Table α) (h : name ≠ key) :
    (table.erase key).find? name = table.find? name := by
  induction table with
  | nil => rfl
  | cons first rest ih =>
    obtain ⟨other, old⟩ := first
    by_cases same : other = key
    · subst same
      simp [erase, find?, h.symm, ih]
    · simp [erase, find?, same, ih]

theorem find?_eq_none {key : String} {table : Table α} :
    find? key table = none ↔ key ∉ table.map (·.1) := by
  induction table with
  | nil => simp [find?]
  | cons e rest ih =>
    obtain ⟨other, entry⟩ := e
    by_cases same : other = key
    · simp [find?, same]
    · simp [find?, same, ih, Ne.symm same]

/-- No two entries of the table are about one name. -/
def Distinct (table : Table α) : Prop := (table.map (·.1)).Nodup

theorem distinct_set {table : Table α} (key : String) (entry : Entry α) (h : table.Distinct) :
    Distinct (table.set key entry) := by
  induction table with
  | nil => simp [Distinct, set]
  | cons first rest ih =>
    obtain ⟨other, old⟩ := first
    obtain ⟨fresh, later⟩ := List.nodup_cons.mp h
    by_cases same : other = key
    · subst same
      simpa [Distinct, set] using h
    · simp only [set, if_neg same]
      refine List.nodup_cons.mpr ⟨fun listed => ?_, ih later⟩
      obtain ⟨e, mem, named⟩ := List.mem_map.mp listed
      rcases mem_set mem with new | old
      · exact same (named.symm.trans (congrArg Prod.fst new))
      · exact fresh (named ▸ List.mem_map_of_mem old)

theorem erase_sublist (key : String) (table : Table α) : (table.erase key).Sublist table := by
  induction table with
  | nil => exact .refl []
  | cons first rest ih =>
    obtain ⟨other, old⟩ := first
    by_cases same : other = key
    · rw [erase, if_pos same]
      exact ih.cons _
    · rw [erase, if_neg same]
      exact ih.cons_cons _

theorem distinct_erase {table : Table α} (key : String) (h : table.Distinct) :
    Distinct (table.erase key) :=
  List.Nodup.sublist ((erase_sublist key table).map _) h

/-- A name is visible above a table if the table gives it a value, or says nothing about it and it
is visible below. -/
theorem mem_override {table : Table α} {name : String} (h : table.Distinct) :
    ∀ below : List String, name ∈ override below table ↔
      (table.find? name).elim (name ∈ below) fun entry => entry.visible?.isSome := by
  induction table with
  | nil => exact fun below => Iff.rfl
  | cons first rest ih =>
    intro below
    obtain ⟨key, entry⟩ := first
    obtain ⟨fresh, later⟩ := List.nodup_cons.mp h
    rw [find?]
    by_cases same : key = name
    · subst same
      have absent : Table.find? key rest = none := find?_eq_none.mpr fresh
      rw [if_pos rfl]
      cases entry with
      | value a =>
        rw [override, ih later, absent]
        by_cases known : key ∈ below <;> simp [Entry.visible?, known]
      | removed =>
        rw [override, ih later, absent]
        simp [Entry.visible?]
    · -- The first entry is about another name, which stays as it is visible below.
      rw [if_neg same]
      cases entry with
      | value a =>
        rw [override, ih later]
        have kept : name ∈ (if below.contains key then below else below ++ [key]) ↔
            name ∈ below := by
          split
          · exact Iff.rfl
          · simp [Ne.symm same]
        rw [kept]
      | removed =>
        rw [override, ih later]
        have kept : name ∈ below.filter (· != key) ↔ name ∈ below := by simp [Ne.symm same]
        rw [kept]

theorem nodup_override {table : Table α} : ∀ {below : List String}, below.Nodup →
    (override below table).Nodup := by
  induction table with
  | nil => exact fun h => h
  | cons first rest ih =>
    intro below h
    obtain ⟨key, entry⟩ := first
    cases entry with
    | removed => exact ih (h.filter _)
    | value a =>
      rw [override]
      refine ih ?_
      split
      · exact h
      · rename_i new
        rw [List.nodup_append]
        refine ⟨h, List.nodup_singleton key, ?_⟩
        intro old mem other single same
        rw [List.mem_singleton.mp single] at same
        exact new (List.contains_iff_mem.mpr (same ▸ mem))

end Table

namespace Family

/-! ## Families that differ elsewhere -/

theorem lookupIn_congr {family other : Family} {kind : Kind} {layers : List EnvId}
    (h : ∀ i ∈ layers, other.environment i = family.environment i) (key : String) :
    other.lookupIn kind key layers = family.lookupIn kind key layers := by
  induction layers with
  | nil => rfl
  | cons id below ih =>
    obtain ⟨here, later⟩ := List.forall_mem_cons.mp h
    simp only [lookupIn, here, ih later]

theorem lookup_congr {family other : Family} {id : EnvId} {kind : Kind}
    (h : ∀ i ∈ family.layers id, other.environment i = family.environment i) (key : String) :
    other.lookup id kind key = family.lookup id kind key := by
  have here : other.environment id = family.environment id := h id List.mem_cons_self
  have layers : other.layers id = family.layers id := by rw [Family.layers, here]; rfl
  rw [lookup, layers]
  exact lookupIn_congr h key

theorem lookup_eq (family : Family) (id : EnvId) (kind : Kind) (key : String) :
    family.lookup id kind key =
      match ((family.environment id).table kind).find? key with
      | some entry => entry.visible?
      | none => family.lookupIn kind key (family.environment id).lineage := rfl

theorem add_environment_old {family : Family} {env : Environment} {i : EnvId}
    (lt : i < family.members.size) : (family.add env).1.environment i = family.environment i := by
  have ne : i ≠ family.members.size := Nat.ne_of_lt lt
  simp [add, environment, Array.getElem?_push, ne]

theorem add_environment_new (family : Family) (env : Environment) :
    (family.add env).1.environment family.members.size = env := by
  simp [add, environment]

/-! ## Registering -/

section

variable {family : Family} {id : EnvId}

theorem lineage_kept (wf : family.WellFormed) (lt : id < family.members.size)
    (change : Environment → Environment) :
    ∀ i ∈ (family.environment id).lineage,
      (family.modifyEnvironment id change).environment i = family.environment i :=
  fun i mem => modifyEnvironment_other change
    (Nat.ne_of_lt (wf.lineage id _ (environment_member lt) i mem))

/-- How what a name stands for follows from the changed table. -/
theorem lookup_modifyTable (wf : family.WellFormed) (lt : id < family.members.size) (kind : Kind)
    (change : Table kind.Value → Table kind.Value) (name : String) :
    (family.modifyTable id kind change).lookup id kind name =
      match (change ((family.environment id).table kind)).find? name with
      | some entry => entry.visible?
      | none => family.lookupIn kind name (family.environment id).lineage := by
  rw [lookup_eq, modifyTable, modifyEnvironment_same _ lt, setTable_table_same, setTable_lineage,
    lookupIn_congr (lineage_kept wf lt _)]

theorem lookup_modifyTable_other (wf : family.WellFormed) (lt : id < family.members.size)
    {kind other : Kind} (change : Table kind.Value → Table kind.Value) (ne : other ≠ kind)
    (name : String) :
    (family.modifyTable id kind change).lookup id other name = family.lookup id other name := by
  rw [lookup_eq, modifyTable, modifyEnvironment_same _ lt, setTable_table_other _ _ ne,
    setTable_lineage, lookupIn_congr (lineage_kept wf lt _)]
  rfl

/-- Registering is a change of one table. -/
theorem register_eq (family : Family) (id : EnvId) (kind : Kind) (key : String)
    (value : Option kind.Value) :
    ∃ change, family.register id kind key value = family.modifyTable id kind change := by
  cases value with
  | some v => exact ⟨_, rfl⟩
  | none =>
    simp only [register, discard]
    split
    · exact ⟨_, rfl⟩
    · exact ⟨_, rfl⟩

/-- A registered name stands for what it was registered with, and a removed one for nothing: an
overlay hides what would show through. Other names of the kind are not touched. -/
theorem lookup_register (wf : family.WellFormed) (lt : id < family.members.size) (kind : Kind)
    (key : String) (value : Option kind.Value) (name : String) :
    (family.register id kind key value).lookup id kind name =
      if name = key then value else family.lookup id kind name := by
  cases value with
  | some v =>
    rw [register, store, lookup_modifyTable wf lt]
    by_cases same : name = key
    · rw [same, Table.find?_set_same, if_pos rfl]
      rfl
    · rw [Table.find?_set_other _ _ same, if_neg same]
      rfl
  | none =>
    simp only [register, discard]
    split
    · rw [lookup_modifyTable wf lt]
      by_cases same : name = key
      · rw [same, Table.find?_set_same, if_pos rfl]
        rfl
      · rw [Table.find?_set_other _ _ same, if_neg same]
        rfl
    · rename_i hidden
      rw [lookup_modifyTable wf lt]
      by_cases same : name = key
      · rw [same, Table.find?_erase_same, if_pos rfl]
        exact Option.not_isSome_iff_eq_none.mp hidden
      · rw [Table.find?_erase_other _ same, if_neg same]
        rfl

theorem lookup_register_other (wf : family.WellFormed) (lt : id < family.members.size)
    {kind other : Kind} (key : String) (value : Option kind.Value) (ne : other ≠ kind)
    (name : String) :
    (family.register id kind key value).lookup id other name = family.lookup id other name := by
  obtain ⟨change, eq⟩ := register_eq family id kind key value
  rw [eq]
  exact lookup_modifyTable_other wf lt change ne name

theorem options_register (lt : id < family.members.size) (kind : Kind) (key : String)
    (value : Option kind.Value) :
    (family.register id kind key value).options id = family.options id := by
  obtain ⟨change, eq⟩ := register_eq family id kind key value
  rw [eq, options, modifyTable, modifyEnvironment_same _ lt, setTable_options]
  rfl

theorem register_environment_other (kind : Kind) (key : String) (value : Option kind.Value)
    {i : EnvId} (ne : i ≠ id) :
    (family.register id kind key value).environment i = family.environment i := by
  obtain ⟨change, eq⟩ := register_eq family id kind key value
  rw [eq]
  exact modifyEnvironment_other _ ne

theorem register_size (family : Family) (id : EnvId) (kind : Kind) (key : String)
    (value : Option kind.Value) :
    (family.register id kind key value).members.size = family.members.size := by
  obtain ⟨change, eq⟩ := register_eq family id kind key value
  rw [eq]
  exact modifyEnvironment_size _ _ _

theorem register_answers (family : Family) (id : EnvId) (kind : Kind) (key : String)
    (value : Option kind.Value) : (family.register id kind key value).answers = family.answers := by
  obtain ⟨change, eq⟩ := register_eq family id kind key value
  rw [eq]
  rfl

theorem lookup_modifyOptions (wf : family.WellFormed) (lt : id < family.members.size)
    (change : Options → Options) (kind : Kind) (name : String) :
    (family.modifyOptions id change).lookup id kind name = family.lookup id kind name := by
  rw [lookup_eq, modifyOptions, modifyEnvironment_same _ lt, lookupIn_congr (lineage_kept wf lt _)]
  cases kind <;> rfl

theorem options_modifyOptions (lt : id < family.members.size) (change : Options → Options) :
    (family.modifyOptions id change).options id = change (family.options id) := by
  rw [options, modifyOptions, modifyEnvironment_same _ lt]
  rfl

end

/-! ## Names -/

/-- No environment of the family says two things about one name. -/
def Distinct (family : Family) : Prop :=
  ∀ (id : EnvId) (kind : Kind), ((family.environment id).table kind).Distinct

theorem nodup_namesIn (family : Family) (kind : Kind) :
    ∀ layers : List EnvId, (family.namesIn kind layers).Nodup := by
  intro layers
  induction layers with
  | nil => exact List.nodup_nil
  | cons id below ih => exact Table.nodup_override ih

theorem names_nodup (family : Family) (id : EnvId) (kind : Kind) :
    (family.names id kind).Nodup := nodup_namesIn family kind _

theorem mem_namesIn {family : Family} (distinct : family.Distinct) (kind : Kind) (key : String) :
    ∀ layers : List EnvId,
      key ∈ family.namesIn kind layers ↔ (family.lookupIn kind key layers).isSome := by
  intro layers
  induction layers with
  | nil => simp [namesIn, lookupIn]
  | cons id below ih =>
    rw [namesIn, Table.mem_override (distinct id kind), lookupIn]
    cases ((family.environment id).table kind).find? key with
    | none => exact ih
    | some entry => exact Iff.rfl

/-- The names of an environment are those that stand for something. -/
theorem mem_names {family : Family} (distinct : family.Distinct) (id : EnvId) (kind : Kind)
    (key : String) : key ∈ family.names id kind ↔ (family.lookup id kind key).isSome :=
  mem_namesIn distinct kind key _

theorem flatTable_distinct (family : Family) (id : EnvId) (kind : Kind) :
    (family.flatTable id kind).Distinct := by
  refine List.Nodup.sublist ?_ (names_nodup family id kind)
  rw [flatTable]
  induction family.names id kind with
  | nil => exact .refl []
  | cons key rest ih =>
    cases found : family.lookup id kind key with
    | none => simpa [List.filterMap_cons, found] using ih.cons key
    | some value => simpa [List.filterMap_cons, found] using ih

theorem environment_absent {family : Family} {id : EnvId} (h : family.members.size ≤ id) :
    family.environment id = .bare := by
  simp [environment, Array.getElem?_eq_none h]

/-! ## All tables -/

/-- All tables of all environments satisfy something. -/
def Everywhere (T : (kind : Kind) → Table kind.Value → Prop) (family : Family) : Prop :=
  ∀ (id : EnvId) (kind : Kind), T kind ((family.environment id).table kind)

section

variable {T : (kind : Kind) → Table kind.Value → Prop} {family : Family} {id : EnvId}

theorem everywhere_add {env : Environment} (h : family.Everywhere T)
    (added : ∀ kind, T kind (env.table kind)) : Everywhere T (family.add env).1 := by
  intro i kind
  rcases Nat.lt_trichotomy i family.members.size with old | rfl | beyond
  · rw [add_environment_old old]
    exact h i kind
  · rw [add_environment_new]
    exact added kind
  · have absent := h i kind
    rw [environment_absent (Nat.le_of_lt beyond)] at absent
    rw [environment_absent (by rw [add_size]; exact beyond)]
    exact absent

theorem everywhere_modify {change : Environment → Environment} (h : family.Everywhere T)
    (kept : ∀ env : Environment, (∀ kind, T kind (env.table kind)) →
      ∀ kind, T kind ((change env).table kind)) :
    Everywhere T (family.modifyEnvironment id change) := by
  intro i kind
  by_cases same : i = id
  · subst same
    by_cases lt : i < family.members.size
    · rw [modifyEnvironment_same change lt]
      exact kept _ (h i) kind
    · have absent := h i kind
      rw [environment_absent (Nat.not_lt.mp lt)] at absent
      rw [environment_absent (by rw [modifyEnvironment_size]; exact Nat.not_lt.mp lt)]
      exact absent
  · rw [modifyEnvironment_other change same]
    exact h i kind

theorem everywhere_modifyOptions (h : family.Everywhere T) (change : Options → Options) :
    Everywhere T (family.modifyOptions id change) :=
  everywhere_modify h fun env kept kind => by
    have same := kept kind
    cases kind <;> exact same

theorem everywhere_modifyTable {kind : Kind} {change : Table kind.Value → Table kind.Value}
    (h : family.Everywhere T) (kept : ∀ table, T kind table → T kind (change table)) :
    Everywhere T (family.modifyTable id kind change) := by
  refine everywhere_modify h fun env tables other => ?_
  by_cases same : other = kind
  · subst same
    rw [setTable_table_same]
    exact kept _ (tables other)
  · rw [setTable_table_other env _ same]
    exact tables other

theorem everywhere_register {kind : Kind} {key : String} {value : Option kind.Value}
    (h : family.Everywhere T)
    (set : ∀ table entry, (∀ v, entry = .value v → v ∈ value) → T kind table →
      T kind (Table.set key entry table))
    (erase : ∀ table, T kind table → T kind (Table.erase key table)) :
    Everywhere T (family.register id kind key value) := by
  cases value with
  | some v =>
    refine everywhere_modifyTable h fun table => set table (.value v) ?_
    rintro _ ⟨⟩
    rfl
  | none =>
    simp only [register, discard]
    split
    · refine everywhere_modifyTable h fun table => set table .removed ?_
      rintro _ ⟨⟩
    · exact everywhere_modifyTable h fun table => erase table

/-- What a name can be registered with: an operator, under its own symbol only. -/
def Labelled : (kind : Kind) → String → kind.Value → Prop
  | .operators, key, binding => binding.symbol = key
  | .functions, _, _ => True
  | .vars, _, _ => True

/-- What holds of empty tables and of flat ones, and stays when something is registered or removed,
holds of all tables of a built family. -/
theorem built_everywhere (built : family.Built) (bare : ∀ kind, T kind [])
    (flat : ∀ {family : Family} (id : EnvId) (kind : Kind), family.Everywhere T →
      T kind (family.flatTable id kind))
    (set : ∀ {kind : Kind} (key : String) (table : Table kind.Value) (entry : Entry kind.Value),
      (∀ v, entry = .value v → Labelled kind key v) → T kind table →
      T kind (Table.set key entry table))
    (erase : ∀ {kind : Kind} (key : String) (table : Table kind.Value), T kind table →
      T kind (Table.erase key table)) : family.Everywhere T := by
  induction built with
  | empty =>
    intro i kind
    have none := bare kind
    cases kind <;> exact none
  | addRoot _ h =>
    refine everywhere_add h fun kind => ?_
    have none := bare kind
    cases kind <;> exact none
  | overlay _ _ h =>
    refine everywhere_add h fun kind => ?_
    have none := bare kind
    cases kind <;> exact none
  | @snapshot _ id _ _ h =>
    refine everywhere_add h fun kind => ?_
    have shown := flat id kind h
    cases kind <;> exact shown
  | setVariable _ run h =>
    obtain ⟨key, v, -, -, rfl⟩ := setVariable_eq_ok run
    exact @everywhere_register T _ _ .vars key v h
      (fun table entry _ => set key table entry fun _ _ => trivial) (erase key)
  | setFunction _ run _ h =>
    obtain ⟨key, f, -, -, rfl⟩ := setFunction_eq_ok run
    exact @everywhere_register T _ _ .functions key f h
      (fun table entry _ => set key table entry fun _ _ => trivial) (erase key)
  | setOperation _ run h =>
    obtain ⟨key, binding, -, named, rfl⟩ := setOperation_eq_ok run
    exact everywhere_register h
      (fun table entry given => set key table entry fun v eq => named v (given v eq)) (erase key)
  | @setContext _ _ _ ctx _ run h =>
    cases ctx with
    | none => cases run
    | some ctx =>
      cases run
      exact everywhere_modifyOptions h _
  | setOptions _ h => exact everywhere_modifyOptions h _
  | addAnswer _ h => exact h
  | setAnswer _ h => exact h

theorem distinct_register (kind : Kind) (key : String) (value : Option kind.Value)
    (h : family.Distinct) : Distinct (family.register id kind key value) :=
  @everywhere_register (fun _ => Table.Distinct) _ _ _ _ _ h
    (fun _ entry _ => Table.distinct_set key entry) fun _ => Table.distinct_erase key

theorem built_distinct (built : family.Built) : family.Distinct :=
  @built_everywhere (fun _ => Table.Distinct) _ built (fun _ => List.nodup_nil)
    (fun id kind _ => flatTable_distinct _ id kind)
    (fun key _ entry _ => Table.distinct_set key entry) fun key _ => Table.distinct_erase key

/-! ## All entries -/

/-- All that the environments say satisfies something. -/
def Entries (P : (kind : Kind) → String → kind.Value → Prop) (family : Family) : Prop :=
  family.Everywhere fun kind table => ∀ (key : String) (value : kind.Value),
    (key, .value value) ∈ table → P kind key value

variable {P : (kind : Kind) → String → kind.Value → Prop}

theorem entries_set {kind : Kind} {key : String} {table : Table kind.Value}
    {entry : Entry kind.Value} (fits : ∀ v, entry = .value v → P kind key v)
    (h : ∀ (key : String) (value : kind.Value), (key, .value value) ∈ table → P kind key value)
    (name : String) (value : kind.Value) (mem : (name, .value value) ∈ Table.set key entry table) :
    P kind name value := by
  rcases Table.mem_set mem with new | old
  · cases new
    exact fits value rfl
  · exact h name value old

theorem entries_register {kind : Kind} {key : String} {value : Option kind.Value}
    (fits : ∀ v ∈ value, P kind key v) (h : family.Entries P) :
    Entries P (family.register id kind key value) :=
  everywhere_register h
    (fun _ _ given => entries_set fun v eq => fits v (given v eq))
    (fun _ kept name v mem => kept name v (Table.mem_erase mem))

theorem entries_overlay (h : family.Entries P) : Entries P (family.overlay id).1 := by
  refine everywhere_add h fun kind => ?_
  cases kind <;> exact nofun

theorem Entries.lookup {kind : Kind} {key : String} {value : kind.Value} (h : family.Entries P)
    (found : family.lookup id kind key = some value) : P kind key value := by
  obtain ⟨i, env, member, mem⟩ := lookupIn_mem found
  have here : family.environment i = env := by rw [environment, member]; rfl
  exact h i kind key value (here ▸ mem)

theorem built_labelled (built : family.Built) : family.Entries Labelled :=
  built_everywhere built (fun _ => nofun)
    (fun _ _ h _ _ mem => Entries.lookup h (flatTable_mem mem))
    (fun _ _ _ fits => entries_set fits)
    (fun _ _ kept name v mem => kept name v (Table.mem_erase mem))

end

/-! ## Environments that show the same -/

/-- Two environments, perhaps of different families, show the same. -/
structure SameView (family : Family) (id : EnvId) (other : Family) (twin : EnvId) : Prop where
  lookup : ∀ (kind : Kind) (key : String), family.lookup id kind key = other.lookup twin kind key
  options : family.options id = other.options twin

namespace SameView

variable {family other third : Family} {id twin last : EnvId}

theorem symm (h : SameView family id other twin) : SameView other twin family id where
  lookup kind key := (h.lookup kind key).symm
  options := h.options.symm

theorem trans (h : SameView family id other twin) (h' : SameView other twin third last) :
    SameView family id third last where
  lookup kind key := (h.lookup kind key).trans (h'.lookup kind key)
  options := h.options.trans h'.options

theorem names (h : SameView family id other twin) (distinct : family.Distinct)
    (distinct' : other.Distinct) (kind : Kind) :
    (family.names id kind).Perm (other.names twin kind) := by
  refine (List.perm_ext_iff_of_nodup (names_nodup _ _ _) (names_nodup _ _ _)).mpr fun key => ?_
  rw [mem_names distinct, mem_names distinct', h.lookup]

theorem register (h : SameView family id other twin) (wf : family.WellFormed)
    (wf' : other.WellFormed) (lt : id < family.members.size) (lt' : twin < other.members.size)
    (kind : Kind) (key : String) (value : Option kind.Value) :
    SameView (family.register id kind key value) id (other.register twin kind key value) twin where
  lookup kind' name := by
    by_cases same : kind' = kind
    · subst same
      rw [lookup_register wf lt, lookup_register wf' lt', h.lookup]
    · rw [lookup_register_other wf lt key value same, lookup_register_other wf' lt' key value same,
        h.lookup]
  options := by rw [options_register lt, options_register lt', h.options]

theorem modifyOptions (h : SameView family id other twin) (wf : family.WellFormed)
    (wf' : other.WellFormed) (lt : id < family.members.size) (lt' : twin < other.members.size)
    (change : Options → Options) :
    SameView (family.modifyOptions id change) id (other.modifyOptions twin change) twin where
  lookup kind name := by
    rw [lookup_modifyOptions wf lt, lookup_modifyOptions wf' lt', h.lookup]
  options := by rw [options_modifyOptions lt, options_modifyOptions lt', h.options]

end SameView

/-- An environment shows what it showed while it and those below it stay as they are. -/
theorem view_kept {family other : Family} {id : EnvId}
    (h : ∀ i ∈ family.layers id, other.environment i = family.environment i) :
    SameView other id family id where
  lookup _ key := lookup_congr h key
  options := by rw [options, options, h id List.mem_cons_self]

/-! ## Copies -/

theorem overlay_environment (family : Family) (id : EnvId) :
    (family.overlay id).1.environment (family.overlay id).2 =
      { Environment.bare with lineage := family.layers id, options := family.options id } :=
  add_environment_new family _

theorem overlay_size (family : Family) (id : EnvId) :
    (family.overlay id).1.members.size = family.members.size + 1 := add_size family _

theorem overlay_layers (family : Family) (id : EnvId) :
    (family.overlay id).1.layers (family.overlay id).2 =
      (family.overlay id).2 :: family.layers id := by
  rw [layers, overlay_environment]

/-- An overlay shows what the environment below it shows. -/
theorem overlay_view {family : Family} {id : EnvId} (wf : family.WellFormed)
    (lt : id < family.members.size) :
    SameView (family.overlay id).1 (family.overlay id).2 family id where
  lookup kind key := by
    have silent : Table.find? key (({ Environment.bare with
        lineage := family.layers id, options := family.options id }).table kind) = none := by
      cases kind <;> rfl
    rw [lookup_eq, overlay_environment, silent]
    exact lookupIn_congr (fun i mem => add_environment_old (layers_lt wf lt i mem)) key
  options := by rw [options, overlay_environment]

theorem find?_flatTable {family : Family} (distinct : family.Distinct) (id : EnvId) (kind : Kind)
    (key : String) :
    Table.find? key (family.flatTable id kind) = (family.lookup id kind key).map .value := by
  have search (names : List String) :
      Table.find? key (names.filterMap fun name =>
        (family.lookup id kind name).map fun value => (name, .value value)) =
          if key ∈ names then (family.lookup id kind key).map .value else none := by
    induction names with
    | nil => rfl
    | cons name rest ih =>
      by_cases same : name = key
      · subst same
        cases found : family.lookup id kind name with
        | none =>
          simp only [List.filterMap_cons, found, Option.map_none, ih]
          simp
        | some value => simp [found, Table.find?]
      · cases found : family.lookup id kind name with
        | none => simp [found, ih, Ne.symm same]
        | some value => simp [found, Table.find?, ih, same, Ne.symm same]
  rw [flatTable, search]
  split
  · rfl
  · rename_i hidden
    rw [mem_names distinct, Option.not_isSome_iff_eq_none] at hidden
    rw [hidden]
    rfl

theorem snapshot_environment (family : Family) (id : EnvId) :
    (family.snapshot id).1.environment (family.snapshot id).2 =
      { lineage := []
        operators := family.flatTable id .operators
        functions := family.flatTable id .functions
        vars := family.flatTable id .vars
        options := family.options id } :=
  add_environment_new family _

theorem snapshot_size (family : Family) (id : EnvId) :
    (family.snapshot id).1.members.size = family.members.size + 1 := add_size family _

theorem snapshot_layers (family : Family) (id : EnvId) :
    (family.snapshot id).1.layers (family.snapshot id).2 = [(family.snapshot id).2] := by
  rw [layers, snapshot_environment]

/-- A snapshot shows what its original shows at that moment. -/
theorem snapshot_view {family : Family} (distinct : family.Distinct) (id : EnvId) :
    SameView (family.snapshot id).1 (family.snapshot id).2 family id where
  lookup kind key := by
    have flat : ((family.snapshot id).1.environment (family.snapshot id).2).table kind =
        family.flatTable id kind := by
      rw [snapshot_environment]
      cases kind <;> rfl
    rw [lookup_eq, flat, find?_flatTable distinct, snapshot_environment]
    cases family.lookup id kind key with
    | none => rfl
    | some value => rfl
  options := by rw [options, snapshot_environment]

end Family
end Calculator
