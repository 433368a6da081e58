import Calculator.Proofs.Edits
import Calculator.Proofs.Scopes

/-!
# Calculator.Proofs.RunnerTables

A runner keeps what the user has defined twice: in its environment, where expressions see it, and in
lists of its own, which are saved. Both agree at all times: the tables of the environment are those
of the standard library, followed by the lists.

* `addStandard_eq`: the standard environment, written out.
* `Sound`: the tables are those of the standard library and of the lists.
* `edit_sound`, `standard_sound`: every edit keeps a runner sound, and the first one is.
-/

namespace Calculator

/-! ## Tables in two parts -/

namespace Table

variable {α β : Type}

/-- A table that says what a list of names and values says. -/
def ofList (value : α → β) (entries : List (String × α)) : Table β :=
  entries.map fun e => (e.1, .value (value e.2))

theorem find?_append (key : String) (first second : Table α) :
    find? key (first ++ second) = (find? key first).or (find? key second) := by
  induction first with
  | nil => rfl
  | cons e rest ih =>
    obtain ⟨other, entry⟩ := e
    by_cases same : other = key
    · simp [find?, same]
    · simp [find?, same, ih]

theorem set_append {key : String} (entry : Entry α) {first : Table α} (second : Table α)
    (h : key ∉ first.map (·.1)) : set key entry (first ++ second) = first ++ set key entry second := by
  induction first with
  | nil => rfl
  | cons e rest ih =>
    obtain ⟨other, old⟩ := e
    rw [List.map_cons, List.mem_cons, not_or] at h
    rw [List.cons_append, set, if_neg (Ne.symm h.1), ih h.2]
    rfl

theorem erase_append (key : String) (first second : Table α) :
    erase key (first ++ second) = erase key first ++ erase key second := by
  induction first with
  | nil => rfl
  | cons e rest ih =>
    obtain ⟨other, old⟩ := e
    by_cases same : other = key
    · simp [erase, same, ih]
    · simp [erase, same, ih]

theorem erase_absent {key : String} {table : Table α} (h : key ∉ table.map (·.1)) :
    erase key table = table := by
  induction table with
  | nil => rfl
  | cons e rest ih =>
    obtain ⟨other, old⟩ := e
    rw [List.map_cons, List.mem_cons, not_or] at h
    rw [erase, if_neg (Ne.symm h.1), ih h.2]

theorem set_ofList (value : α → β) (key : String) (a : α) (entries : List (String × α)) :
    set key (.value (value a)) (ofList value entries) =
      ofList value (Runner.assign key a entries) := by
  induction entries with
  | nil => rfl
  | cons e rest ih =>
    obtain ⟨other, old⟩ := e
    by_cases same : other = key
    · simp [ofList, set, Runner.assign, same]
    · simp only [ofList, List.map_cons, set, Runner.assign, same, if_false]
      exact congrArg _ ih

theorem erase_ofList (value : α → β) (key : String) (entries : List (String × α)) :
    erase key (ofList value entries) = ofList value (Runner.unassign key entries) := by
  induction entries with
  | nil => rfl
  | cons e rest ih =>
    obtain ⟨other, old⟩ := e
    by_cases same : other = key
    · simpa [ofList, erase, Runner.unassign, same] using ih
    · simpa [ofList, erase, Runner.unassign, same] using ih

theorem keys_ofList (value : α → β) (entries : List (String × α)) :
    (ofList value entries).map (·.1) = entries.map (·.1) := by simp [ofList]

end Table

/-! ## The standard environment -/

/-- The environment of the standard library. -/
def standardEnvironment : Environment where
  lineage := []
  operators := Operators.all.map fun binding => (binding.symbol, .value binding)
  functions := Functions.all.map fun f => (f.name, .value (.native f))
  vars := [("pi", .value (.constant Library.pi)), ("now", .value .clock), ("ans", .value (.answer 0))]
  options := { Options.bare with context := .ofDigits 34 }

set_option maxRecDepth 8000 in
theorem addStandard_eq : Family.empty.addStandard = (⟨#[standardEnvironment], #[.zero]⟩, 0) := rfl

theorem standardFunction_value {key : String}
    (h : key ∈ standardEnvironment.functions.map (·.1)) :
    ∃ g, standardEnvironment.functions.find? key = some (.value (.native g)) := by
  cases found : standardEnvironment.functions.find? key with
  | none => exact absurd h (Table.find?_eq_none.mp found)
  | some entry =>
    obtain ⟨g, -, same⟩ := List.mem_map.mp (Table.find?_mem found)
    cases same
    exact ⟨g, rfl⟩

theorem standardVariable_value {key : String} (h : key ∈ standardEnvironment.vars.map (·.1)) :
    ∃ v, standardEnvironment.vars.find? key = some (.value v) ∧ v.isFixed = false := by
  simp only [standardEnvironment, List.map_cons, List.map_nil, List.mem_cons, List.not_mem_nil,
    or_false] at h
  obtain rfl | rfl | rfl := h
  · exact ⟨.constant Library.pi, rfl, rfl⟩
  · exact ⟨.clock, rfl, rfl⟩
  · exact ⟨.answer 0, rfl, rfl⟩

namespace Runner

/-! ## Lists of names -/

section

variable {α : Type} {key : String} {value : α} {entries : List (String × α)}

theorem mem_assign {e : String × α} (h : e ∈ assign key value entries) :
    e = (key, value) ∨ e ∈ entries := by
  induction entries with
  | nil => exact .inl (List.mem_singleton.mp h)
  | cons first rest ih =>
    obtain ⟨other, old⟩ := first
    rw [assign] at h
    split at h
    · exact (List.mem_cons.mp h).imp_right (List.mem_cons_of_mem _)
    · rw [List.mem_cons] at h
      cases h with
      | inl same => exact .inr (List.mem_cons.mpr (.inl same))
      | inr later => exact (ih later).imp_right (List.mem_cons_of_mem _)

theorem name_of_assign {name : String} (h : name ∈ (assign key value entries).map (·.1)) :
    name = key ∨ name ∈ entries.map (·.1) := by
  obtain ⟨e, mem, rfl⟩ := List.mem_map.mp h
  obtain rfl | before := mem_assign mem
  · exact .inl rfl
  · exact .inr (List.mem_map_of_mem before)

theorem mem_unassign {e : String × α} (h : e ∈ unassign key entries) : e ∈ entries :=
  (List.mem_filter.mp h).1

theorem name_of_unassign {name : String} (h : name ∈ (unassign key entries).map (·.1)) :
    name ∈ entries.map (·.1) := by
  obtain ⟨e, mem, rfl⟩ := List.mem_map.mp h
  exact List.mem_map_of_mem (mem_unassign mem)

theorem assign_new (h : key ∉ entries.map (·.1)) :
    assign key value entries = entries ++ [(key, value)] := by
  induction entries with
  | nil => rfl
  | cons first rest ih =>
    obtain ⟨other, old⟩ := first
    rw [List.map_cons, List.mem_cons, not_or] at h
    rw [assign, if_neg (Ne.symm h.1), ih h.2]
    rfl

theorem names_assign (h : key ∈ entries.map (·.1)) :
    (assign key value entries).map (·.1) = entries.map (·.1) := by
  induction entries with
  | nil => cases h
  | cons first rest ih =>
    obtain ⟨other, old⟩ := first
    by_cases same : other = key
    · rw [assign, if_pos same, List.map_cons, List.map_cons, same]
    · rw [List.map_cons, List.mem_cons] at h
      obtain rfl | later := h
      · exact absurd rfl same
      · rw [assign, if_neg same, List.map_cons, List.map_cons, ih later]

theorem nodup_assign (h : (entries.map (·.1)).Nodup) :
    ((assign key value entries).map (·.1)).Nodup := by
  by_cases known : key ∈ entries.map (·.1)
  · rw [names_assign known]
    exact h
  · rw [assign_new known, List.map_append, List.nodup_append]
    refine ⟨h, List.pairwise_singleton _ key, ?_⟩
    intro name before other last same
    rw [List.map_singleton, List.mem_singleton] at last
    rw [same, last] at before
    exact known before

theorem nodup_unassign (h : (entries.map (·.1)).Nodup) :
    ((unassign key entries).map (·.1)).Nodup :=
  h.sublist (List.filter_sublist.map _)

end

/-! ## Sound runners -/

/-- The environment of the standard library and of what the user has defined. -/
def tables (r : Runner) (options : Options) : Environment :=
  { standardEnvironment with
    functions := standardEnvironment.functions ++ Table.ofList .user r.functions
    vars := standardEnvironment.vars ++ Table.ofList .fixed r.vars
    options := options }

/-- The options that are set, in a decimal context. -/
def optionsOf (settings : Settings) (ctx : Context) : Options :=
  ⟨ctx, settings.bracketMultiply, settings.variableMultiply, settings.maxDepth⟩

/-- The environment of the runner is that of the standard library and of its lists, in which no
standard name occurs. -/
structure Sound (settings : Settings) (base : Path) (r : Runner) : Prop where
  environment : r.environment = 0
  answer : r.answer = 0
  base : r.base = base
  stateFile : r.stateFile = settings.stateFile
  members : ∃ ctx, r.family.members = #[r.tables (optionsOf settings ctx)]
  answers : r.family.answers.size = 1
  functions : ∀ name ∈ r.functions.map (·.1), name ∉ standardEnvironment.functions.map (·.1)
  vars : ∀ name ∈ r.vars.map (·.1), name ∉ standardEnvironment.vars.map (·.1)

section

variable {settings : Settings} {base : Path} {r : Runner} {options : Options}

/-- What a name stands for in an environment that lies over no other. -/
theorem lookup_tables (environment : r.environment = 0)
    (members : r.family.members = #[r.tables options]) (kind : Kind) (key : String) :
    r.lookup kind key = (((r.tables options).table kind).find? key).bind Entry.visible? := by
  have here : r.family.environment 0 = r.tables options := by
    simp [Family.environment, members]
  have alone : (r.tables options).lineage = [] := rfl
  rw [lookup, environment, Family.lookup, Family.layers, here, alone, Family.lookupIn, here]
  cases ((r.tables options).table kind).find? key <;> rfl

/-- A function is a standard one, or one that the user has defined. -/
theorem Sound.lookupFunction (h : Sound settings base r) (name : String) :
    r.lookup .functions name = ((standardEnvironment.functions.find? name).or
      ((Table.ofList .user r.functions).find? name)).bind Entry.visible? := by
  obtain ⟨ctx, members⟩ := h.members
  rw [lookup_tables h.environment members, ← Table.find?_append]
  rfl

theorem Sound.lookupVariable (h : Sound settings base r) (name : String) :
    r.lookup .vars name = ((standardEnvironment.vars.find? name).or
      ((Table.ofList .fixed r.vars).find? name)).bind Entry.visible? := by
  obtain ⟨ctx, members⟩ := h.members
  rw [lookup_tables h.environment members, ← Table.find?_append]
  rfl

theorem Sound.standardFunction (h : Sound settings base r) {name : String}
    (listed : name ∈ standardEnvironment.functions.map (·.1)) :
    ∃ f, r.lookup .functions name = some (.native f) := by
  obtain ⟨f, found⟩ := standardFunction_value listed
  rw [h.lookupFunction, found]
  exact ⟨f, rfl⟩

theorem Sound.standardVariable (h : Sound settings base r) {name : String}
    (listed : name ∈ standardEnvironment.vars.map (·.1)) :
    ∃ v, r.lookup .vars name = some v ∧ v.isFixed = false := by
  obtain ⟨v, found, native⟩ := standardVariable_value listed
  rw [h.lookupVariable, found]
  exact ⟨v, rfl, native⟩

/-- A function whose name is not a standard one is no native one. -/
theorem Sound.userFunction (h : Sound settings base r) {name : String}
    (foreign : name ∉ standardEnvironment.functions.map (·.1)) (f : NativeFunction) :
    r.lookup .functions name ≠ some (.native f) := by
  rw [h.lookupFunction, Table.find?_eq_none.mpr foreign, Option.none_or]
  intro found
  obtain ⟨entry, listed, visible⟩ := Option.bind_eq_some_iff.mp found
  obtain ⟨e, -, same⟩ := List.mem_map.mp (Table.find?_mem listed)
  cases same
  cases visible

theorem Sound.userVariable (h : Sound settings base r) {name : String}
    (foreign : name ∉ standardEnvironment.vars.map (·.1)) (v : Variable)
    (found : r.lookup .vars name = some v) : v.isFixed = true := by
  rw [h.lookupVariable, Table.find?_eq_none.mpr foreign, Option.none_or] at found
  obtain ⟨entry, listed, visible⟩ := Option.bind_eq_some_iff.mp found
  obtain ⟨e, -, same⟩ := List.mem_map.mp (Table.find?_mem listed)
  cases same
  cases visible
  rfl

/-- A value is stored in the table of the one environment. -/
theorem members_store {env : Environment} (environment : r.environment = 0)
    (members : r.family.members = #[env]) (kind : Kind) (key : String) (value : kind.Value) :
    (r.family.store r.environment kind key value).members =
      #[env.setTable kind ((env.table kind).set key (.value value))] := by
  simp [Family.store, Family.modifyTable, Family.modifyEnvironment, members, environment]

theorem members_discard {env : Environment} (environment : r.environment = 0)
    (members : r.family.members = #[env]) (alone : env.lineage = []) (kind : Kind) (key : String) :
    (r.family.discard r.environment kind key).members =
      #[env.setTable kind ((env.table kind).erase key)] := by
  simp [Family.discard, Family.lookupIn, Family.modifyTable, Family.modifyEnvironment,
    Family.environment, members, environment, alone]

theorem Sound.withFunction (h : Sound settings base r) {f : UserFunction}
    (foreign : f.name ∉ standardEnvironment.functions.map (·.1)) :
    Sound settings base (r.withFunction f) := by
  obtain ⟨ctx, members⟩ := h.members
  refine ⟨h.environment, h.answer, h.base, h.stateFile, ⟨ctx, ?_⟩, h.answers, ?_, h.vars⟩
  · have changed := members_store h.environment members .functions f.name (.user f)
    rw [Runner.withFunction, changed]
    simp only [Environment.table, tables, Environment.setTable, Table.set_append _ _ foreign,
      Table.set_ofList]
  · intro name listed
    obtain rfl | before := name_of_assign listed
    · exact foreign
    · exact h.functions name before

theorem Sound.withVariable (h : Sound settings base r) {name : String} (value : Decimal)
    (foreign : name ∉ standardEnvironment.vars.map (·.1)) :
    Sound settings base (r.withVariable name value) := by
  obtain ⟨ctx, members⟩ := h.members
  refine ⟨h.environment, h.answer, h.base, h.stateFile, ⟨ctx, ?_⟩, h.answers, h.functions, ?_⟩
  · have changed := members_store h.environment members .vars name (.fixed value)
    rw [Runner.withVariable, changed]
    simp only [Environment.table, tables, Environment.setTable, Table.set_append _ _ foreign,
      Table.set_ofList]
  · intro other listed
    obtain rfl | before := name_of_assign listed
    · exact foreign
    · exact h.vars other before

theorem Sound.withoutFunction (h : Sound settings base r) {name : String}
    (foreign : name ∉ standardEnvironment.functions.map (·.1)) :
    Sound settings base (r.withoutFunction name) := by
  obtain ⟨ctx, members⟩ := h.members
  refine ⟨h.environment, h.answer, h.base, h.stateFile, ⟨ctx, ?_⟩, ?_, ?_, h.vars⟩
  · have changed := members_discard h.environment members rfl .functions name
    rw [Runner.withoutFunction, changed]
    simp only [Environment.table, tables, Environment.setTable, Table.erase_append,
      Table.erase_absent foreign, Table.erase_ofList]
  · exact (congrArg Array.size (Family.discard_answers ..)).trans h.answers
  · intro other listed
    exact h.functions other (name_of_unassign listed)

theorem Sound.withoutVariable (h : Sound settings base r) {name : String}
    (foreign : name ∉ standardEnvironment.vars.map (·.1)) :
    Sound settings base (r.withoutVariable name) := by
  obtain ⟨ctx, members⟩ := h.members
  refine ⟨h.environment, h.answer, h.base, h.stateFile, ⟨ctx, ?_⟩, ?_, h.functions, ?_⟩
  · have changed := members_discard h.environment members rfl .vars name
    rw [Runner.withoutVariable, changed]
    simp only [Environment.table, tables, Environment.setTable, Table.erase_append,
      Table.erase_absent foreign, Table.erase_ofList]
  · exact (congrArg Array.size (Family.discard_answers ..)).trans h.answers
  · intro other listed
    exact h.vars other (name_of_unassign listed)

/-- What is shown does not matter to the tables. -/
theorem Sound.display (h : Sound settings base r) (session : Session)
    (lastFailure : Option Failure) (printer : Printer) (running : Bool) :
    Sound settings base { r with
      session := session, lastFailure := lastFailure, printer := printer, running := running } :=
  ⟨h.environment, h.answer, h.base, h.stateFile, h.members, h.answers, h.functions, h.vars⟩

theorem Sound.withContext (h : Sound settings base r) (ctx : Context) :
    Sound settings base (r.withContext ctx) := by
  obtain ⟨old, members⟩ := h.members
  refine ⟨h.environment, h.answer, h.base, h.stateFile, ⟨ctx, ?_⟩, h.answers, h.functions, h.vars⟩
  simp [Runner.withContext, Family.modifyOptions, Family.modifyEnvironment, members, h.environment,
    tables, optionsOf]

theorem Sound.withAnswer (h : Sound settings base r) (value : Decimal) :
    Sound settings base (r.withAnswer value) := by
  refine ⟨h.environment, h.answer, h.base, h.stateFile, h.members, ?_, h.functions, h.vars⟩
  simp [Runner.withAnswer, Family.setAnswer, h.answers]

theorem edit_sound {allowed : String → Prop} {r' : Runner} (h : Sound settings base r)
    (edit : Edit allowed r r') : Sound settings base r' := by
  cases edit with
  | display session lastFailure printer running =>
    exact h.display session lastFailure printer running
  | context ctx => exact h.withContext ctx
  | answer value => exact h.withAnswer value
  | defineFunction fine read given foreign =>
    apply h.withFunction
    intro listed
    obtain ⟨f, found⟩ := h.standardFunction listed
    exact foreign f found
  | defineVariable fine read given finite fixed =>
    apply h.withVariable
    intro listed
    obtain ⟨v, found, native⟩ := h.standardVariable listed
    rw [fixed v found] at native
    cases native
  | undefineFunction there =>
    apply h.withoutFunction
    intro listed
    obtain ⟨f, found⟩ := h.standardFunction listed
    rw [there] at found
    cases found
  | undefineVariable there =>
    apply h.withoutVariable
    intro listed
    obtain ⟨v, found, native⟩ := h.standardVariable listed
    rw [there] at found
    cases found
    cases native

theorem edits_sound {allowed : String → Prop} {r' : Runner} (h : Sound settings base r)
    (edits : Edits allowed r r') : Sound settings base r' := by
  induction edits with
  | refl => exact h
  | tail _ edit ih => exact edit_sound ih edit

end

/-! ## The first runner -/

/-- What a runner is at first, apart from the context and the format that are set. -/
theorem standard_eq_ok {settings : Settings} {base : Path} {seed : Nat} {r : Runner}
    (h : standard settings base seed = .ok r) : ∃ ctx printer, r =
      { family := ⟨#[{ standardEnvironment with options := optionsOf settings ctx }], #[.zero]⟩
        environment := 0, answer := 0, printer := printer, stateFile := settings.stateFile
        base := base, running := true, lastFailure := none, functions := [], vars := []
        session := .start seed } := by
  rw [standard, addStandard_eq] at h
  simp only [create, Settings.apply] at h
  cases chosen : settings.chosenContext with
  | error failure =>
    rw [chosen] at h
    cases h
  | ok ctx =>
    rw [chosen] at h
    cases named : Printer.ofName settings.format with
    | error f =>
      rw [named] at h
      cases h
    | ok printer =>
      rw [named] at h
      cases h
      exact ⟨_, printer, rfl⟩

theorem standard_sound {settings : Settings} {base : Path} {seed : Nat} {r : Runner}
    (h : standard settings base seed = .ok r) : Sound settings base r := by
  obtain ⟨ctx, printer, rfl⟩ := standard_eq_ok h
  refine ⟨rfl, rfl, rfl, rfl, ⟨ctx, ?_⟩, rfl, nofun, nofun⟩
  simp [tables, Table.ofList, standardEnvironment]

/-- The first runner with the usual settings. -/
def usual (base : Path) (seed : Nat) : Runner where
  family := ⟨#[{ standardEnvironment with options := optionsOf {} (.ofDigits 34) }], #[.zero]⟩
  environment := 0
  answer := 0
  printer := .ofFormat .plain
  stateFile := StateFile.usualName
  base := base
  running := true
  lastFailure := none
  functions := []
  vars := []
  session := .start seed

theorem standard_usual (base : Path) (seed : Nat) : standard {} base seed = .ok (usual base seed) := by
  rw [standard, addStandard_eq]
  rfl

end Runner
end Calculator
