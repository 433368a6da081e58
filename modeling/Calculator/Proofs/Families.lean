import Calculator.Library.Standard

/-!
# Calculator.Proofs.Families

The families of environments that can be built, and what holds of all of them.

* `Table.mem_set`, `Table.mem_erase`: where the entries of a changed table come from.
* `Built`: the families that the calls which environments offer lead to.
* `built_wellFormed`: in a built family environments lie over older ones only, names and symbols
  have been validated, and functions are bound to environments that exist.
-/

namespace Calculator

/-! ## Tables -/

namespace Table

variable {α : Type}

theorem find?_mem {key : String} {entry : Entry α} {table : Table α}
    (h : table.find? key = some entry) : (key, entry) ∈ table := by
  induction table with
  | nil => cases h
  | cons e rest ih =>
    obtain ⟨other, old⟩ := e
    simp only [find?] at h
    split at h
    · rename_i same; cases h; rw [same]; exact List.mem_cons_self
    · exact List.mem_cons_of_mem _ (ih h)

theorem mem_set {key : String} {entry : Entry α} {table : Table α} {e : String × Entry α}
    (h : e ∈ table.set key entry) : e = (key, entry) ∨ e ∈ table := by
  induction table with
  | nil => exact .inl (List.mem_singleton.mp h)
  | cons first rest ih =>
    obtain ⟨other, old⟩ := first
    simp only [set] at h
    split at h
    · exact (List.mem_cons.mp h).imp_right (List.mem_cons_of_mem _)
    · rcases List.mem_cons.mp h with same | later
      · exact .inr (same ▸ List.mem_cons_self)
      · exact (ih later).imp_right (List.mem_cons_of_mem _)

theorem mem_erase {key : String} {table : Table α} {e : String × Entry α}
    (h : e ∈ table.erase key) : e ∈ table := by
  induction table with
  | nil => cases h
  | cons first rest ih =>
    obtain ⟨other, old⟩ := first
    simp only [erase] at h
    split at h
    · exact List.mem_cons_of_mem _ (ih h)
    · exact (List.mem_cons.mp h).elim (fun same => same ▸ List.mem_cons_self)
        fun later => List.mem_cons_of_mem _ (ih later)

theorem find?_set_same (key : String) (entry : Entry α) (table : Table α) :
    (table.set key entry).find? key = some entry := by
  induction table with
  | nil => simp [set, find?]
  | cons first rest ih =>
    obtain ⟨other, old⟩ := first
    by_cases same : other = key <;> simp [set, find?, same, ih]

theorem find?_set_other {key name : String} (entry : Entry α) (table : Table α) (h : name ≠ key) :
    (table.set key entry).find? name = table.find? name := by
  induction table with
  | nil => simp [set, find?, h.symm]
  | cons first rest ih =>
    obtain ⟨other, old⟩ := first
    by_cases same : other = key
    · subst same; simp [set, find?, h.symm]
    · simp [set, find?, same, ih]

end Table

/-! ## Variables -/

theorem Variable.ofDecimal_eq_ok {value : Decimal} {v : Variable} (h : ofDecimal value = .ok v) :
    value.isFinite = true ∧ v = .fixed value := by
  unfold ofDecimal at h
  split at h
  · cases h
    exact ⟨‹_›, rfl⟩
  · cases h

namespace Family

/-! ## Changing one environment -/

@[simp] theorem modifyEnvironment_size (family : Family) (id : EnvId)
    (change : Environment → Environment) :
    (family.modifyEnvironment id change).members.size = family.members.size := by
  simp [modifyEnvironment]

theorem modifyEnvironment_get {family : Family} {id i : EnvId}
    {change : Environment → Environment} {env : Environment}
    (h : (family.modifyEnvironment id change).members[i]? = some env) :
    ∃ old, family.members[i]? = some old ∧ (env = old ∨ env = change old) := by
  simp only [modifyEnvironment, Array.getElem?_modify] at h
  split at h
  · obtain ⟨old, found, rfl⟩ := Option.map_eq_some_iff.mp h
    exact ⟨old, found, .inr rfl⟩
  · exact ⟨env, h, .inl rfl⟩

theorem environment_member {family : Family} {id : EnvId} (lt : id < family.members.size) :
    family.members[id]? = some (family.environment id) := by
  simp [environment, lt]

theorem modifyEnvironment_same {family : Family} {id : EnvId}
    (change : Environment → Environment) (lt : id < family.members.size) :
    (family.modifyEnvironment id change).environment id = change (family.environment id) := by
  rw [environment, modifyEnvironment, Array.getElem?_modify, if_pos rfl, environment_member lt]
  rfl

theorem modifyEnvironment_other {family : Family} {id i : EnvId}
    (change : Environment → Environment) (ne : i ≠ id) :
    (family.modifyEnvironment id change).environment i = family.environment i := by
  simp [modifyEnvironment, environment, Array.getElem?_modify, ne.symm]

theorem add_get {family : Family} {added env : Environment} {i : EnvId}
    (h : (family.add added).1.members[i]? = some env) :
    family.members[i]? = some env ∨ i = family.members.size ∧ env = added := by
  simp only [add, Array.getElem?_push] at h
  split at h
  · rename_i last; cases h; exact .inr ⟨last, rfl⟩
  · exact .inl h

@[simp] theorem add_size (family : Family) (env : Environment) :
    (family.add env).1.members.size = family.members.size + 1 := by
  simp [add]

/-! ## Well-formed families -/

/-- What may stand in the tables of a family that has `size` environments. -/
def Admissible (size : Nat) : (kind : Kind) → String → kind.Value → Prop
  | .operators, key, _ => key.toList ≠ [] ∧ key.toList.findSome? symbolProblemOf? = none
  | .functions, key, f => nameProblem? .functionName key.toList = none ∧
      ∀ u scope, f = .user u → u.scope = some scope → scope < size
  | .vars, key, _ => nameProblem? .variableName key.toList = none

theorem Admissible.mono {size larger : Nat} {kind : Kind} {key : String} {value : kind.Value}
    (h : Admissible size kind key value) (le : size ≤ larger) :
    Admissible larger kind key value := by
  cases kind with
  | operators => exact h
  | functions =>
    exact ⟨h.1, fun u scope hf hs => Nat.lt_of_lt_of_le (h.2 u scope hf hs) le⟩
  | vars => exact h

structure WellFormed (family : Family) : Prop where
  lineage : ∀ (i : EnvId) (env : Environment), family.members[i]? = some env →
    ∀ below ∈ env.lineage, below < i
  entries : ∀ (i : EnvId) (env : Environment) (kind : Kind) (key : String) (value : kind.Value),
    family.members[i]? = some env → (key, .value value) ∈ env.table kind →
      Admissible family.members.size kind key value

@[simp] theorem bare_table (kind : Kind) : Environment.bare.table kind = [] := by
  cases kind <;> rfl

theorem wellFormed_empty : WellFormed .empty where
  lineage i env h := by cases h
  entries i env kind key value h := by cases h

theorem wellFormed_add {family : Family} {env : Environment} (wf : family.WellFormed)
    (hl : ∀ below ∈ env.lineage, below < family.members.size)
    (he : ∀ kind key value, (key, .value value) ∈ env.table kind →
      Admissible family.members.size kind key value) :
    WellFormed (family.add env).1 where
  lineage i other h := by
    rcases add_get h with old | ⟨rfl, rfl⟩
    · exact wf.lineage i other old
    · exact hl
  entries i other kind key value h mem := by
    rw [add_size]
    rcases add_get h with old | ⟨rfl, rfl⟩
    · exact (wf.entries i other kind key value old mem).mono (Nat.le_succ _)
    · exact (he kind key value mem).mono (Nat.le_succ _)

theorem wellFormed_modify {family : Family} {id : EnvId} {change : Environment → Environment}
    (wf : family.WellFormed) (hl : ∀ env, (change env).lineage = env.lineage)
    (he : ∀ env kind key value, (key, .value value) ∈ (change env).table kind →
      (key, .value value) ∈ env.table kind ∨ Admissible family.members.size kind key value) :
    WellFormed (family.modifyEnvironment id change) where
  lineage i env h := by
    obtain ⟨old, found, rfl | rfl⟩ := modifyEnvironment_get h
    · exact wf.lineage i _ found
    · rw [hl]; exact wf.lineage i _ found
  entries i env kind key value h mem := by
    rw [modifyEnvironment_size]
    obtain ⟨old, found, rfl | rfl⟩ := modifyEnvironment_get h
    · exact wf.entries i _ kind key value found mem
    · exact (he old kind key value mem).elim (wf.entries i old kind key value found) fun h => h

theorem setTable_lineage (env : Environment) (kind : Kind) (table : Table kind.Value) :
    (env.setTable kind table).lineage = env.lineage := by
  cases kind <;> rfl

theorem setTable_options (env : Environment) (kind : Kind) (table : Table kind.Value) :
    (env.setTable kind table).options = env.options := by
  cases kind <;> rfl

theorem setTable_table_same (env : Environment) (kind : Kind) (table : Table kind.Value) :
    (env.setTable kind table).table kind = table := by
  cases kind <;> rfl

theorem setTable_table_other {kind other : Kind} (env : Environment) (table : Table kind.Value)
    (h : other ≠ kind) : (env.setTable kind table).table other = env.table other := by
  cases kind <;> cases other <;> first | rfl | exact absurd rfl h

theorem wellFormed_modifyTable {family : Family} {id : EnvId} {kind : Kind}
    {change : Table kind.Value → Table kind.Value} (wf : family.WellFormed)
    (he : ∀ table key value, (key, .value value) ∈ change table →
      (key, .value value) ∈ table ∨ Admissible family.members.size kind key value) :
    WellFormed (family.modifyTable id kind change) := by
  refine wellFormed_modify wf (fun env => setTable_lineage env kind _) ?_
  intro env other key value mem
  by_cases same : other = kind
  · subst same
    rw [setTable_table_same] at mem
    exact he _ key value mem
  · rw [setTable_table_other env _ same] at mem
    exact .inl mem

/-- Storing what is admissible, or removing a name, keeps a family well-formed. -/
theorem wellFormed_register {family : Family} {id : EnvId} {kind : Kind} {key : String}
    {value : Option kind.Value} (wf : family.WellFormed)
    (hv : ∀ v ∈ value, Admissible family.members.size kind key v) :
    WellFormed (family.register id kind key value) := by
  cases value with
  | some v =>
    refine wellFormed_modifyTable wf fun table name w mem => ?_
    rcases Table.mem_set mem with same | old
    · cases same; exact .inr (hv v rfl)
    · exact .inl old
  | none =>
    simp only [register, discard]
    split
    · refine wellFormed_modifyTable wf fun table name w mem => ?_
      rcases Table.mem_set mem with same | old
      · cases same
      · exact .inl old
    · exact wellFormed_modifyTable wf fun table name w mem => .inl (Table.mem_erase mem)

/-! ## Looking up in well-formed families -/

theorem environment_mem {family : Family} {id : EnvId} {kind : Kind} {e : String × Entry kind.Value}
    (h : e ∈ (family.environment id).table kind) :
    ∃ env, family.members[id]? = some env ∧ e ∈ env.table kind := by
  unfold environment at h
  cases found : family.members[id]? with
  | none => simp [found] at h
  | some env => exact ⟨env, rfl, by simpa [found] using h⟩

theorem lookupIn_mem {family : Family} {kind : Kind} {key : String} {value : kind.Value}
    {layers : List EnvId} (h : family.lookupIn kind key layers = some value) :
    ∃ (i : EnvId) (env : Environment),
      family.members[i]? = some env ∧ (key, .value value) ∈ env.table kind := by
  induction layers with
  | nil => cases h
  | cons id below ih =>
    simp only [lookupIn] at h
    split at h
    · rename_i entry found
      cases entry with
      | removed => cases h
      | value v =>
        cases h
        obtain ⟨env, member, mem⟩ := environment_mem (Table.find?_mem found)
        exact ⟨id, env, member, mem⟩
    · exact ih h

theorem lookup_admissible {family : Family} {id : EnvId} {kind : Kind} {key : String}
    {value : kind.Value} (wf : family.WellFormed) (h : family.lookup id kind key = some value) :
    Admissible family.members.size kind key value := by
  obtain ⟨i, env, member, mem⟩ := lookupIn_mem h
  exact wf.entries i env kind key value member mem

theorem flatTable_mem {family : Family} {id : EnvId} {kind : Kind} {key : String}
    {value : kind.Value} (h : (key, .value value) ∈ family.flatTable id kind) :
    family.lookup id kind key = some value := by
  simp only [flatTable, List.mem_filterMap, Option.map_eq_some_iff] at h
  obtain ⟨name, -, found, hl, same⟩ := h
  cases same
  exact hl

theorem layers_lt {family : Family} {id : EnvId} (wf : family.WellFormed)
    (h : id < family.members.size) : ∀ below ∈ family.layers id, below < family.members.size := by
  intro below mem
  rcases List.mem_cons.mp mem with rfl | under
  · exact h
  · have member : family.members[id]? = some family.members[id] := Array.getElem?_eq_getElem h
    simp only [environment, member, Option.getD_some] at under
    exact Nat.lt_trans (wf.lineage id _ member below under) h

/-! ## Built families -/

/-- The families that can be built: from the empty one, by the calls that environments offer. A
user function is bound to an environment that there is. -/
inductive Built : Family → Prop
  | empty : Built .empty
  | addRoot {family : Family} : Built family → Built family.addRoot.1
  | overlay {family : Family} {id : EnvId} :
      Built family → id < family.members.size → Built (family.overlay id).1
  | snapshot {family : Family} {id : EnvId} :
      Built family → id < family.members.size → Built (family.snapshot id).1
  | setVariable {family changed : Family} {id : EnvId} {name : Option String}
      {value : Assignment} :
      Built family → family.setVariable id name value = .ok changed → Built changed
  | setFunction {family changed : Family} {id : EnvId} {name : Option String}
      {f : Offer Function} :
      Built family → family.setFunction id name f = .ok changed →
      (∀ u scope, f = .given (.user u) → u.scope = some scope → scope < family.members.size) →
      Built changed
  | setOperation {family changed : Family} {id : EnvId} {symbol : Option String}
      {op : Offer Operation} {precedence : Offer Int} :
      Built family → family.setOperation id symbol op precedence = .ok changed → Built changed
  | setContext {family changed : Family} {id : EnvId} {ctx : Option Context} :
      Built family → family.setContext id ctx = .ok changed → Built changed
  | setOptions {family : Family} {id : EnvId} {change : Options → Options} :
      Built family → Built (family.modifyOptions id change)
  | addAnswer {family : Family} : Built family → Built family.addAnswer.1
  | setAnswer {family : Family} {register : Nat} {value : Decimal} :
      Built family → Built (family.setAnswer register value)

theorem validateName_problem {role : Role} {given : Option String} {key : String}
    (h : validateName role given = .ok key) : nameProblem? role key.toList = none := by
  cases given with
  | none => cases h
  | some given =>
    simp only [validateName] at h
    split at h
    · cases h
    · rename_i fine; cases h; simpa using fine

theorem validateSymbol_problem {given : Option String} {key : String}
    (h : validateSymbol given = .ok key) :
    key.toList ≠ [] ∧ key.toList.findSome? symbolProblemOf? = none := by
  cases given with
  | none => cases h
  | some given =>
    simp only [validateSymbol] at h
    split at h
    · cases h
    · rename_i some
      split at h
      · cases h
      · rename_i fine; cases h
        exact ⟨by simpa using some, by simpa using fine⟩

theorem setVariable_eq_ok {family changed : Family} {id : EnvId} {name : Option String}
    {value : Assignment} (h : family.setVariable id name value = .ok changed) :
    ∃ (key : String) (v : Option Variable), validateName .variableName name = .ok key ∧
      value.toVariable = .ok v ∧ changed = family.register id .vars key v := by
  simp only [setVariable] at h
  split at h
  · cases h
  · rename_i key named
    split at h
    · cases h
    · rename_i v converted; cases h
      exact ⟨key, v, named, converted, rfl⟩

theorem setFunction_eq_ok {family changed : Family} {id : EnvId} {name : Option String}
    {f : Offer Function} (h : family.setFunction id name f = .ok changed) :
    ∃ (key : String) (g : Option Function), validateName .functionName name = .ok key ∧
      (∀ given ∈ g, f = .given given) ∧ changed = family.register id .functions key g := by
  simp only [setFunction] at h
  split at h
  · cases h
  · rename_i key named
    split at h
    · cases h
      exact ⟨key, none, named, nofun, rfl⟩
    · rename_i given
      cases h
      refine ⟨key, some given, named, ?_, rfl⟩
      rintro _ ⟨⟩
      rfl
    · cases h

theorem setOperation_eq_ok {family changed : Family} {id : EnvId} {symbol : Option String}
    {op : Offer Operation} {precedence : Offer Int}
    (h : family.setOperation id symbol op precedence = .ok changed) :
    ∃ (key : String) (binding : Option Binding), validateSymbol symbol = .ok key ∧
      (∀ given ∈ binding, given.symbol = key) ∧
      changed = family.register id .operators key binding := by
  simp only [setOperation] at h
  split at h
  · cases h
  · rename_i key named
    split at h
    · cases h
      exact ⟨key, none, named, nofun, rfl⟩
    · cases h
    · split at h
      · cases h
      · cases h
        refine ⟨key, some _, named, ?_, rfl⟩
        rintro _ ⟨⟩
        rfl

theorem wellFormed_modifyOptions {family : Family} {id : EnvId} {change : Options → Options}
    (wf : family.WellFormed) : WellFormed (family.modifyOptions id change) :=
  wellFormed_modify wf (fun _ => rfl) fun _ kind _ _ mem => by cases kind <;> exact .inl mem

theorem built_wellFormed {family : Family} (h : family.Built) : family.WellFormed := by
  induction h with
  | empty => exact wellFormed_empty
  | addRoot _ wf => exact wellFormed_add wf nofun fun kind key value mem => by simp at mem
  | overlay _ lt wf =>
    refine wellFormed_add wf (layers_lt wf lt) fun kind key value mem => ?_
    cases kind <;> cases mem
  | snapshot _ lt wf =>
    refine wellFormed_add wf nofun fun kind key value mem => ?_
    cases kind <;> exact lookup_admissible wf (flatTable_mem mem)
  | setVariable _ set wf =>
    obtain ⟨key, v, named, -, rfl⟩ := setVariable_eq_ok set
    exact wellFormed_register wf fun _ _ => validateName_problem named
  | setFunction _ set bound wf =>
    obtain ⟨key, g, named, given, rfl⟩ := setFunction_eq_ok set
    refine wellFormed_register wf fun f mem => ⟨validateName_problem named, fun u scope hf hs => ?_⟩
    exact bound u scope (by rw [given f mem, hf]) hs
  | setOperation _ set wf =>
    obtain ⟨key, binding, named, -, rfl⟩ := setOperation_eq_ok set
    exact wellFormed_register wf fun _ _ => validateSymbol_problem named
  | @setContext _ _ _ ctx _ set wf =>
    cases ctx with
    | none => cases set
    | some ctx => cases set; exact wellFormed_modifyOptions wf
  | setOptions _ wf => exact wellFormed_modifyOptions wf
  | addAnswer _ wf => exact ⟨wf.lineage, wf.entries⟩
  | setAnswer _ wf => exact ⟨wf.lineage, wf.entries⟩

/-- The names that variables are found under hold no brackets. -/
theorem lookup_vars_plain {family : Family} {id : EnvId} {key : String} {v : Variable}
    (wf : family.WellFormed) (h : family.lookup id .vars key = some v) :
    ∀ c ∈ key.toList, c ≠ '(' ∧ c ≠ ')' := by
  have fine : nameProblem? .variableName key.toList = none := lookup_admissible wf h
  intro c mem
  simp only [nameProblem?] at fine
  split at fine
  · cases fine
  · split at fine
    · cases fine
    · split at fine
      · cases fine
      · rename_i plain
        simp only [Role.allowsBrackets, Bool.not_false, Bool.true_and, List.any_eq_true,
          Bool.or_eq_true, beq_iff_eq, not_exists, not_and, not_or] at plain
        exact plain c mem

theorem built_assignContext {family changed : Family} {id : EnvId} {ctx : Offer Context}
    (built : family.Built) (run : family.assignContext id ctx = .ok changed) : changed.Built := by
  cases ctx with
  | nothing => cases run
  | given ctx => exact @Built.setContext _ _ id (some ctx) built run
  | unfit kind => cases run

/-! ## Libraries -/

theorem built_applyAll {family : Family} {changes : List (Family → Except Refusal Family)}
    (built : family.Built)
    (h : ∀ change ∈ changes, ∀ before after : Family, before.Built →
      change before = .ok after → after.Built) : Built (family.applyAll changes).1 := by
  induction changes generalizing family with
  | nil => exact built
  | cons change rest ih =>
    obtain ⟨here, later⟩ := List.forall_mem_cons.mp h
    simp only [applyAll]
    split
    · exact built
    · rename_i after changed
      exact ih (here family after built changed) later

theorem built_install {family : Family} {id : EnvId} {library : Library} (built : family.Built)
    (native : ∀ p ∈ library.functions, p.2.isUser = false) :
    Built (family.install id library).1 := by
  refine built_applyAll built fun change mem before after hb changed => ?_
  simp only [Library.registrations, List.mem_append, List.mem_map] at mem
  rcases mem with ((⟨binding, -, rfl⟩ | ⟨p, listed, rfl⟩) | ⟨p, -, rfl⟩) | context
  · exact .setOperation hb changed
  · refine .setFunction hb changed fun u scope same bound => ?_
    have := native p listed
    simp only [Offer.given.injEq] at same
    rw [same] at this
    cases this
  · exact .setVariable hb changed
  · cases hc : library.context with
    | none => rw [hc] at context; cases context
    | some ctx =>
      rw [hc] at context
      obtain rfl := List.mem_singleton.mp context
      exact .setContext hb changed

theorem built_addStandard {family : Family} (built : family.Built) :
    Built family.addStandard.1 := by
  refine built_install (.addAnswer (.addRoot built)) fun p mem => ?_
  obtain ⟨f, -, rfl⟩ := List.mem_map.mp mem
  rfl

set_option maxRecDepth 8000 in
theorem standard_size : empty.addStandard.1.members.size = 1 := rfl

end Family
end Calculator
