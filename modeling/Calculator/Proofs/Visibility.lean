import Calculator.Proofs.Copies

/-!
# Calculator.Proofs.Visibility

Who sees a name that is registered or removed. An overlay shows a name through as long as neither
it nor an overlay on the way down says something about that name itself, be it a value or that the
name is removed.

* `Over`: an overlay lies over an environment, with certain overlays strictly between.
* `Stacked`: an environment lies over its parent and what that lies over, in every built family.
* `lookup_register_over`: what an overlay shows of a name that is registered below it.
* `registered_visibility`: who sees a registration, and that names are enumerated exactly if they
  stand for something.
-/

namespace Calculator

/-! ## What is registered -/

/-- The change sets or removes a name of a kind, which stands for the value from then on. -/
inductive Change.Registers : Change → (kind : Kind) → String → Option kind.Value → Prop
  | setVariable {name : Option String} {value : Assignment} {key : String} {v : Option Variable} :
      validateName .variableName name = .ok key → value.toVariable = .ok v →
      Registers (.setVariable name value) .vars key v
  | setFunction {name : Option String} {key : String} {f : Function} :
      validateName .functionName name = .ok key →
      Registers (.setFunction name (.given f)) .functions key (some f)
  | removeFunction {name : Option String} {key : String} :
      validateName .functionName name = .ok key →
      Registers (.setFunction name .nothing) .functions key none
  | setOperation {symbol : Option String} {key : String} {op : Operation} {precedence : Offer Int}
      {n : Nat} :
      validateSymbol symbol = .ok key → Family.precedenceFor key op precedence = .ok n →
      Registers (.setOperation symbol (.given op) precedence) .operators key (some ⟨key, op, n⟩)
  | removeOperation {symbol : Option String} {key : String} {precedence : Offer Int} :
      validateSymbol symbol = .ok key →
      Registers (.setOperation symbol .nothing precedence) .operators key none

theorem Change.Registers.run {change : Change} {kind : Kind} {key : String}
    {value : Option kind.Value} (h : change.Registers kind key value) (family : Family)
    (id : EnvId) : change.run family id = .ok (family.register id kind key value) := by
  cases h with
  | setVariable named converted => simp only [Change.run, Family.setVariable, named, converted]
  | setFunction named => simp only [Change.run, Family.setFunction, named]
  | removeFunction named => simp only [Change.run, Family.setFunction, named]
  | setOperation named fits => simp only [Change.run, Family.setOperation, named, fits]
  | removeOperation named => simp only [Change.run, Family.setOperation, named]

namespace Family

/-! ## Overlays and what they lie over -/

/-- The environment that an overlay lies directly over. -/
def parent? (family : Family) (id : EnvId) : Option EnvId := (family.environment id).lineage.head?

/-- `y` lies over `x`, and the overlays strictly between them are given from the top down. -/
inductive Over (family : Family) (x : EnvId) : EnvId → List EnvId → Prop
  | direct {y : EnvId} : family.parent? y = some x → Over family x y []
  | above {y parent : EnvId} {between : List EnvId} :
      family.parent? y = some parent → Over family x parent between →
      Over family x y (parent :: between)

/-- The environment itself says nothing about a name: neither a value nor that it is removed. -/
def Silent (family : Family) (kind : Kind) (key : String) (id : EnvId) : Prop :=
  ((family.environment id).table kind).find? key = none

/-- Every environment lies over its parent and what that lies over. -/
def Stacked (family : Family) : Prop :=
  ∀ id, (family.environment id).lineage = (family.parent? id).elim [] family.layers

theorem modifyEnvironment_lineage {change : Environment → Environment}
    (kept : ∀ env, (change env).lineage = env.lineage) (family : Family) (id i : EnvId) :
    ((family.modifyEnvironment id change).environment i).lineage =
      (family.environment i).lineage := by
  by_cases same : i = id
  · subst same
    by_cases lt : i < family.members.size
    · rw [modifyEnvironment_same change lt, kept]
    · rw [environment_absent (by rw [modifyEnvironment_size]; exact Nat.not_lt.mp lt),
        environment_absent (Nat.not_lt.mp lt)]
  · rw [modifyEnvironment_other change same]

theorem modifyOptions_lineage (family : Family) (id : EnvId) (change : Options → Options)
    (i : EnvId) :
    ((family.modifyOptions id change).environment i).lineage = (family.environment i).lineage := by
  rw [modifyOptions, modifyEnvironment_lineage]
  exact fun _ => rfl

theorem register_lineage (family : Family) (id : EnvId) (kind : Kind) (key : String)
    (value : Option kind.Value) (i : EnvId) :
    ((family.register id kind key value).environment i).lineage =
      (family.environment i).lineage := by
  obtain ⟨change, eq⟩ := register_eq family id kind key value
  rw [eq]
  exact modifyEnvironment_lineage (fun env => setTable_lineage env kind _) family id i

/-- Families whose environments lie over the same ones are stacked alike. -/
theorem Stacked.congr {family other : Family} (h : family.Stacked)
    (kept : ∀ i, (other.environment i).lineage = (family.environment i).lineage) :
    other.Stacked := by
  intro id
  have parents : other.parent? id = family.parent? id := by rw [parent?, kept, parent?]
  have layers : other.layers = family.layers := by
    funext i
    rw [Family.layers, Family.layers, kept]
  rw [kept, parents, layers]
  exact h id

theorem stacked_add {family : Family} {env : Environment} (h : family.Stacked)
    (wf : family.WellFormed)
    (added : env.lineage = env.lineage.head?.elim [] family.layers)
    (exist : ∀ below ∈ env.lineage, below < family.members.size) :
    Stacked (family.add env).1 := by
  -- What an environment lies over was there before it, and has not moved.
  have old {lineage : List EnvId} (lt : ∀ below ∈ lineage, below < family.members.size) :
      lineage.head?.elim [] (family.add env).1.layers = lineage.head?.elim [] family.layers := by
    cases lineage with
    | nil => rfl
    | cons parent rest =>
      simp only [List.head?_cons, Option.elim_some, layers]
      rw [add_environment_old (lt parent List.mem_cons_self)]
  intro id
  rcases Nat.lt_trichotomy id family.members.size with lt | rfl | beyond
  · have exist : ∀ below ∈ (family.environment id).lineage, below < family.members.size :=
      fun below mem => layers_lt wf lt below (List.mem_cons_of_mem _ mem)
    rw [parent?, add_environment_old lt, old exist]
    exact h id
  · rw [parent?, add_environment_new, old exist]
    exact added
  · rw [parent?, environment_absent (by rw [add_size]; exact beyond)]
    rfl

theorem built_stacked {family : Family} (h : family.Built) : family.Stacked := by
  induction h with
  | empty => exact fun _ => rfl
  | addRoot built ih => exact stacked_add ih (built_wellFormed built) rfl nofun
  | overlay built lt ih =>
    exact stacked_add ih (built_wellFormed built) rfl (layers_lt (built_wellFormed built) lt)
  | snapshot built _ ih => exact stacked_add ih (built_wellFormed built) rfl nofun
  | setVariable _ set ih =>
    obtain ⟨key, v, -, -, rfl⟩ := setVariable_eq_ok set
    exact ih.congr (register_lineage _ _ _ _ _)
  | setFunction _ set _ ih =>
    obtain ⟨key, f, -, -, rfl⟩ := setFunction_eq_ok set
    exact ih.congr (register_lineage _ _ _ _ _)
  | setOperation _ set ih =>
    obtain ⟨key, binding, -, -, rfl⟩ := setOperation_eq_ok set
    exact ih.congr (register_lineage _ _ _ _ _)
  | @setContext _ _ _ ctx _ set ih =>
    cases ctx with
    | none => cases set
    | some ctx =>
      cases set
      exact ih.congr (modifyOptions_lineage _ _ _)
  | setOptions _ ih => exact ih.congr (modifyOptions_lineage _ _ _)
  | addAnswer _ ih => exact ih.congr fun _ => rfl
  | setAnswer _ ih => exact ih.congr fun _ => rfl

theorem WellFormed.parent_lt {family : Family} {y parent : EnvId} (wf : family.WellFormed)
    (chain : family.parent? y = some parent) : parent < y := by
  have mem : parent ∈ (family.environment y).lineage := List.mem_of_head? chain
  by_cases lt : y < family.members.size
  · exact wf.lineage y _ (environment_member lt) parent mem
  · rw [environment_absent (Nat.not_lt.mp lt)] at mem
    cases mem

section

variable {family : Family} {x y parent : EnvId} {between : List EnvId}

theorem Over.lt (wf : family.WellFormed) (chain : family.Over x y between) : x < y := by
  induction chain with
  | direct here => exact wf.parent_lt here
  | above here _ ih => exact Nat.lt_trans ih (wf.parent_lt here)

theorem Stacked.layers_eq (h : family.Stacked) (here : family.parent? y = some parent) :
    family.layers y = y :: family.layers parent := by
  rw [layers, h y, here, Option.elim_some]

/-- An overlay shows its parent through wherever it is silent. -/
theorem Stacked.lookup_eq (h : family.Stacked) (here : family.parent? y = some parent)
    (kind : Kind) (key : String) :
    family.lookup y kind key =
      match ((family.environment y).table kind).find? key with
      | some entry => entry.visible?
      | none => family.lookup parent kind key := by
  rw [lookup, h.layers_eq here]
  rfl

/-- Whatever is found among the layers of an environment is what it lies over. -/
theorem Stacked.over_of_mem (h : family.Stacked) (wf : family.WellFormed) (ne : y ≠ x)
    (mem : x ∈ family.layers y) : ∃ between, family.Over x y between := by
  induction y using Nat.strongRecOn with
  | ind y ih =>
    cases here : family.parent? y with
    | none =>
      rw [layers, h y, here] at mem
      exact absurd (List.mem_singleton.mp mem).symm ne
    | some parent =>
      rw [h.layers_eq here] at mem
      have under : x ∈ family.layers parent := (List.mem_cons.mp mem).resolve_left ne.symm
      by_cases same : parent = x
      · exact ⟨[], .direct (same ▸ here)⟩
      · obtain ⟨between, above⟩ := ih parent (wf.parent_lt here) same under
        exact ⟨parent :: between, .above here above⟩

end

/-! ## Registering in one environment -/

section

variable {family : Family} {x y : EnvId} {between : List EnvId} {kind : Kind} {key : String}
  {value : Option kind.Value}

theorem find?_modifyTable {change : Table kind.Value → Table kind.Value}
    (kept : ∀ (table : Table kind.Value) (name : String), name ≠ key →
      (change table).find? name = table.find? name)
    {other : Kind} {name : String} (ne : other ≠ kind ∨ name ≠ key) (i : EnvId) :
    (((family.modifyTable x kind change).environment i).table other).find? name =
      ((family.environment i).table other).find? name := by
  by_cases same : i = x
  · subst same
    by_cases lt : i < family.members.size
    · rw [modifyTable, modifyEnvironment_same _ lt]
      by_cases alike : other = kind
      · subst alike
        rw [setTable_table_same, kept _ _ (ne.resolve_left fun other => other rfl)]
      · rw [setTable_table_other _ _ alike]
    · have absent := Nat.not_lt.mp lt
      rw [modifyTable, environment_absent (by rw [modifyEnvironment_size]; exact absent),
        environment_absent absent]
  · rw [modifyTable, modifyEnvironment_other _ same]

/-- What an environment says about another name, or of another kind, is not touched. -/
theorem find?_register {other : Kind} {name : String} (ne : other ≠ kind ∨ name ≠ key)
    (i : EnvId) :
    (((family.register x kind key value).environment i).table other).find? name =
      ((family.environment i).table other).find? name := by
  cases value with
  | some v => exact find?_modifyTable (fun table _ ne => Table.find?_set_other _ table ne) ne i
  | none =>
    simp only [register, discard]
    split
    · exact find?_modifyTable (fun table _ ne => Table.find?_set_other _ table ne) ne i
    · exact find?_modifyTable (fun table _ ne => Table.find?_erase_other table ne) ne i

theorem lookupIn_entries {other : Family} {layers : List EnvId}
    (h : ∀ i ∈ layers, ((other.environment i).table kind).find? key =
      ((family.environment i).table kind).find? key) :
    other.lookupIn kind key layers = family.lookupIn kind key layers := by
  induction layers with
  | nil => rfl
  | cons id below ih =>
    obtain ⟨here, later⟩ := List.forall_mem_cons.mp h
    simp only [lookupIn, here, ih later]

theorem register_layers (i : EnvId) :
    (family.register x kind key value).layers i = family.layers i := by
  rw [layers, layers, register_lineage]

/-- Nobody sees a change of another name, or of another kind. -/
theorem lookup_register_apart {other : Kind} {name : String} (ne : other ≠ kind ∨ name ≠ key)
    (i : EnvId) :
    (family.register x kind key value).lookup i other name = family.lookup i other name := by
  rw [lookup, register_layers]
  exact lookupIn_entries fun below _ => find?_register ne below

theorem options_register_apart (i : EnvId) :
    (family.register x kind key value).options i = family.options i := by
  by_cases same : i = x
  · subst same
    by_cases lt : i < family.members.size
    · exact options_register lt kind key value
    · have absent := Nat.not_lt.mp lt
      rw [options, options, environment_absent (by rw [register_size]; exact absent),
        environment_absent absent]
  · rw [options, options, register_environment_other kind key value same]

/-- A registration below an overlay is seen through its parent, where the overlay is silent. -/
theorem lookup_register_above (stacked : family.Stacked) {parent : EnvId}
    (here : family.parent? y = some parent) (ne : y ≠ x) :
    (family.register x kind key value).lookup y kind key =
      match ((family.environment y).table kind).find? key with
      | some entry => entry.visible?
      | none => (family.register x kind key value).lookup parent kind key := by
  have same : (family.register x kind key value).environment y = family.environment y :=
    register_environment_other kind key value ne
  have stacked' : (family.register x kind key value).Stacked :=
    stacked.congr (register_lineage family x kind key value)
  have here' : (family.register x kind key value).parent? y = some parent := by
    rw [parent?, same]
    exact here
  rw [stacked'.lookup_eq here', same]

/-- An overlay shows what is registered below it as long as nothing is said about the name on the
way down. -/
theorem lookup_register_shown (wf : family.WellFormed) (stacked : family.Stacked)
    (exist : x < family.members.size) (chain : family.Over x y between)
    (silent : ∀ i ∈ y :: between, family.Silent kind key i) :
    (family.register x kind key value).lookup y kind key = value := by
  induction chain with
  | direct here =>
    have ne := Nat.ne_of_gt (wf.parent_lt here)
    rw [lookup_register_above stacked here ne, silent _ List.mem_cons_self]
    exact (lookup_register wf exist kind key value key).trans (if_pos rfl)
  | above here chain ih =>
    obtain ⟨first, rest⟩ := List.forall_mem_cons.mp silent
    have ne := Nat.ne_of_gt (Nat.lt_trans (chain.lt wf) (wf.parent_lt here))
    rw [lookup_register_above stacked here ne, first]
    exact ih rest

/-- It shows what it showed before if something is said about the name on the way down. -/
theorem lookup_register_hidden (wf : family.WellFormed) (stacked : family.Stacked)
    (chain : family.Over x y between) (hidden : ∃ i ∈ y :: between, ¬ family.Silent kind key i) :
    (family.register x kind key value).lookup y kind key = family.lookup y kind key := by
  obtain ⟨i, mem, speaks⟩ := hidden
  induction chain with
  | direct here =>
    have ne := Nat.ne_of_gt (wf.parent_lt here)
    rw [List.mem_singleton.mp mem] at speaks
    rw [lookup_register_above stacked here ne, stacked.lookup_eq here]
    split
    · rfl
    · rename_i silent
      exact absurd silent speaks
  | above here chain ih =>
    have ne := Nat.ne_of_gt (Nat.lt_trans (chain.lt wf) (wf.parent_lt here))
    rw [lookup_register_above stacked here ne, stacked.lookup_eq here]
    split
    · rfl
    · rename_i silent
      refine ih ((List.mem_cons.mp mem).resolve_left ?_)
      rintro rfl
      exact speaks silent

end

/-! ## Who sees a registration -/

theorem value_exists (kind : Kind) : Nonempty kind.Value := by
  cases kind with
  | operators => exact ⟨⟨"=", .handBack, 0⟩⟩
  | functions => exact ⟨.user ⟨"f", [], "0", none, none⟩⟩
  | vars => exact ⟨.clock⟩

/-- An overlay follows an environment below it in a name exactly if neither it nor an overlay in
between says anything about that name. -/
theorem lookup_follows_iff {family : Family} {x y : EnvId} {between : List EnvId}
    (wf : family.WellFormed) (stacked : family.Stacked) (exist : x < family.members.size)
    (chain : family.Over x y between) (kind : Kind) (key : String) :
    (∀ value, (family.register x kind key value).lookup y kind key = value) ↔
      ∀ i ∈ y :: between, family.Silent kind key i := by
  constructor
  · intro follows
    by_contra speaks
    have hidden : ∃ i ∈ y :: between, ¬ family.Silent kind key i := by
      simpa only [not_forall, exists_prop] using speaks
    obtain ⟨v⟩ := value_exists kind
    have removed := (lookup_register_hidden wf stacked chain hidden).symm.trans (follows none)
    have given := (lookup_register_hidden wf stacked chain hidden).symm.trans (follows (some v))
    rw [removed] at given
    cases given
  · exact fun silent value => lookup_register_shown wf stacked exist chain silent

theorem namesIn_congr {family other : Family} {layers : List EnvId}
    (h : ∀ i ∈ layers, other.environment i = family.environment i) (kind : Kind) :
    other.namesIn kind layers = family.namesIn kind layers := by
  induction layers with
  | nil => rfl
  | cons id below ih =>
    obtain ⟨here, later⟩ := List.forall_mem_cons.mp h
    simp only [namesIn, here, ih later]

/-- In every built family, names are enumerated exactly if they stand for something. When a name is
set or removed in one environment, every other name stays everywhere as it is, and an environment
that does not lie over the changed one shows no difference at all. An overlay that does lie over it
follows it in that name exactly if neither the overlay nor one in between says anything about the
name; then it shows the new state, and otherwise what it showed before. -/
theorem registered_visibility {family : Family} (built : family.Built) :
    (∀ (id : EnvId) (kind : Kind) (key : String),
      key ∈ family.names id kind ↔ (family.lookup id kind key).isSome) ∧
    ∀ {x : EnvId} {change : Change} {kind : Kind} {key : String} {value : Option kind.Value}
      {changed : Family}, x < family.members.size → change.Registers kind key value →
      change.run family x = .ok changed →
      changed.lookup x kind key = value ∧
      (∀ (y : EnvId) (other : Kind) (name : String), other ≠ kind ∨ name ≠ key →
        changed.lookup y other name = family.lookup y other name ∧
        (name ∈ changed.names y other ↔ name ∈ family.names y other)) ∧
      (∀ y, changed.options y = family.options y) ∧
      (∀ y, y ≠ x → (∀ between, ¬ family.Over x y between) →
        changed.SameView y family y ∧ (∀ other, changed.names y other = family.names y other) ∧
        changed.environment y = family.environment y) ∧
      ∀ y between, family.Over x y between →
        ((∀ value', (family.register x kind key value').lookup y kind key = value') ↔
          ∀ i ∈ y :: between, family.Silent kind key i) ∧
        ((∀ i ∈ y :: between, family.Silent kind key i) → changed.lookup y kind key = value) ∧
        ((∃ i ∈ y :: between, ¬ family.Silent kind key i) →
          changed.lookup y kind key = family.lookup y kind key) := by
  have wf := built_wellFormed built
  have stacked := built_stacked built
  have distinct := built_distinct built
  refine ⟨mem_names distinct, ?_⟩
  intro x change kind key value changed exist registers run
  rw [registers.run family x] at run
  cases run
  have distinct' : (family.register x kind key value).Distinct :=
    distinct_register kind key value distinct
  refine ⟨?_, ?_, options_register_apart, ?_, ?_⟩
  · exact (lookup_register wf exist kind key value key).trans (if_pos rfl)
  · intro y other name apart
    refine ⟨lookup_register_apart apart y, ?_⟩
    rw [mem_names distinct', mem_names distinct, lookup_register_apart apart]
  · intro y ne unrelated
    have away : ∀ i ∈ family.layers y,
        (family.register x kind key value).environment i = family.environment i := by
      intro i mem
      refine register_environment_other kind key value ?_
      rintro rfl
      obtain ⟨between, chain⟩ := stacked.over_of_mem wf ne mem
      exact unrelated between chain
    refine ⟨view_kept away, fun other => ?_, away y List.mem_cons_self⟩
    rw [names, register_layers]
    exact namesIn_congr away other
  · intro y between chain
    exact ⟨lookup_follows_iff wf stacked exist chain kind key,
      lookup_register_shown wf stacked exist chain, lookup_register_hidden wf stacked chain⟩

/-- An overlay of the overlay that hides `pi`: it follows the root in `tau`, and not in `pi`. -/
def layered : Family := (hidden.overlay 1).1

theorem registered_visibility_layered :
    layered.Built ∧ layered.Over 0 2 [1] ∧
    (∃ changed, Change.run layered 0 (.setVariable (some "tau") (.number (.ofInt 6))) = .ok changed ∧
      changed.lookup 2 .vars "tau" = some (.fixed (.ofInt 6))) ∧
    ∃ changed, Change.run layered 0 (.setVariable (some "pi") (.number (.ofInt 3))) = .ok changed ∧
      changed.lookup 2 .vars "pi" = layered.lookup 2 .vars "pi" := by
  have built : layered.Built := .overlay hidden_built (by decide +kernel)
  have chain : layered.Over 0 2 [1] := .above (by decide +kernel) (.direct (by decide +kernel))
  have exist : 0 < layered.members.size := by decide +kernel
  obtain ⟨-, seen⟩ := registered_visibility built
  have registers (name : String) (n : Int) (named : validateName .variableName (some name) = .ok name) :
      (Change.setVariable (some name) (.number (.ofInt n))).Registers .vars name
        (some (.fixed (.ofInt n))) := .setVariable named rfl
  refine ⟨built, chain, ⟨_, rfl, ?_⟩, ⟨_, rfl, ?_⟩⟩
  · obtain ⟨-, -, -, -, above⟩ := seen exist (registers "tau" 6 rfl) rfl
    have silent : ∀ i ∈ [2, 1], layered.Silent .vars "tau" i := by
      simp only [Silent]
      decide +kernel
    exact (above 2 [1] chain).2.1 silent
  · obtain ⟨-, -, -, -, above⟩ := seen exist (registers "pi" 3 rfl) rfl
    have speaks : ¬ layered.Silent .vars "pi" 1 := by
      simp only [Silent]
      decide +kernel
    exact (above 2 [1] chain).2.2 ⟨1, by decide, speaks⟩

end Family
end Calculator
