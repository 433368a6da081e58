import Calculator.Proofs.Matching
import Calculator.Proofs.Visibility

/-!
# Calculator.Proofs.Extensions

What can be added to an environment without a change for any text that has done without it: implicit
products, and names that have stood for nothing.

* `Conserved`: an outcome stays, unless it was a failure for want of a name.
* `Extends`: everything that a family shows, another shows as well.
* `Extends.conserved`: in a family that extends another, outcomes stay.
* `multiply_conserved`, `supply_conserved`: they stay when implicit products are turned on, and when
  names are set that have stood for nothing.
-/

namespace Calculator

/-! ## Failures for want of a name -/

/-- Whether a failure says that a name stands for nothing. -/
def Failure.isUndefined : Failure → Bool
  | .problem ⟨_, .undefined ..⟩ => true
  | _ => false

theorem Failure.isUndefined_within {failure : Failure} (name : String)
    (h : failure.isUndefined = true) : (failure.within name).isUndefined = true := by
  cases failure with
  | fault f => cases h
  | problem p =>
    obtain ⟨callers, cause⟩ := p
    cases cause with
    | undefined kind missing => rfl
    | _ => cases h

/-- The second outcome is the first one, unless that is a failure for want of a name. -/
def Conserved {α : Type} (before after : Except Failure α) : Prop :=
  (∀ value, before = .ok value → after = .ok value) ∧
    ∀ failure, before = .error failure → failure.isUndefined = false → after = .error failure

/-- Runs of which the first may fail for want of a name; nothing is asked of values. -/
def Comparison.defined : Comparison where
  proper _ := True
  pardoned failure := failure.isUndefined = true
  finite _ := trivial
  negate _ := trivial
  multiply _ _ _ := trivial
  within := Failure.isUndefined_within

theorem Comparison.defined_lenient : defined.Lenient := fun _ => trivial

/-- Options that differ at most in implicit products that have been turned on. -/
structure Options.Multiplied (options more : Options) : Prop where
  context : more.context = options.context
  maxDepth : more.maxDepth = options.maxDepth
  bracketMultiply : options.bracketMultiply = true → more.bracketMultiply = true
  variableMultiply : options.variableMultiply = true → more.variableMultiply = true

theorem Options.Multiplied.refl (options : Options) : options.Multiplied options :=
  ⟨rfl, rfl, id, id⟩

namespace Family

/-! ## Families that show more -/

/-- Everything that a family shows, another shows as well, and besides names it may have turned on
implicit products. -/
structure Extends (family other : Family) : Prop where
  size : other.members.size = family.members.size
  lookup : ∀ (id : EnvId) (kind : Kind) (key : String) (value : kind.Value),
    family.lookup id kind key = some value → other.lookup id kind key = some value
  options : ∀ id, (family.options id).Multiplied (other.options id)
  answers : other.answers = family.answers

section

variable {family other : Family} {id : EnvId}

/-- What a name that no environment can give stands for. -/
theorem lookup_factor (wf : family.WellFormed) {kind : Kind} (word : kind ≠ .operators)
    {token : List Char} (factor : ∀ c ∈ token.head?, Evaluation.isFactorSymbol c = true) :
    family.lookup id kind (String.ofList token) = none := by
  refine Option.eq_none_iff_forall_not_mem.mpr fun value found => ?_
  have valid : ∃ role, nameProblem? role token = none := by
    have admissible := lookup_admissible wf found
    cases kind with
    | operators => exact absurd rfl word
    | functions => exact ⟨_, by simpa using admissible.1⟩
    | vars => exact ⟨.variableName, by simpa [Admissible] using admissible⟩
  obtain ⟨role, fine⟩ := valid
  obtain ⟨first, rest, rfl, plain⟩ := head_not_factor fine
  rw [factor first rfl] at plain
  cases plain

/-- A scope of the larger family offers what the same environment of the smaller one has. -/
theorem Extends.offers (extended : Extends family other) (wf : family.WellFormed) (now : Int)
    (id : EnvId) : Comparison.defined.Offers (family.scope now id) (other.scope now id) where
  sound := Comparison.defined_lenient.sound _
  operators name := by
    cases found : family.lookup id .operators name with
    | none => exact .inr ⟨found, rfl⟩
    | some binding => exact .inl ((extended.lookup id _ _ _ found).trans found.symm)
  functions name := by
    cases found : family.lookup id .functions name with
    | none => exact .inr ⟨found, rfl⟩
    | some f => exact .inl ((extended.lookup id _ _ _ found).trans found.symm)
  vars name := by
    cases found : family.lookup id .vars name with
    | none => exact .inr ⟨by simp [scope, found], rfl⟩
    | some v =>
      left
      simp only [scope, found, extended.lookup id _ _ _ found, valueOf_congr extended.answers]
  context := (extended.options id).context
  maxDepth := (extended.options id).maxDepth
  bracketMultiply := by
    cases on : (family.options id).bracketMultiply with
    | true => exact .inl (((extended.options id).bracketMultiply on).trans on.symm)
    | false =>
      refine .inr ⟨on, fun token factor => ⟨lookup_factor wf (by decide) fun c first => ?_, rfl⟩⟩
      exact List.all_eq_true.mp factor c (List.mem_of_mem_head? first)
  variableMultiply := by
    cases on : (family.options id).variableMultiply with
    | true => exact .inl (((extended.options id).variableMultiply on).trans on.symm)
    | false =>
      refine .inr ⟨on, fun token factor => ⟨?_, rfl⟩⟩
      have missing : family.lookup id .vars (String.ofList token) = none := by
        refine lookup_factor wf (by decide) fun c first => ?_
        rw [Option.mem_def.mp first] at factor
        exact factor
      simp [scope, missing]

/-- Two evaluations are at the same time and with the same state of the generator, or the text
needs neither. -/
def Repeats (family : Family) (id : EnvId) (text : String) (setting setting' : Setting)
    (s t : Session) : Prop :=
  setting'.now = setting.now ∧ t.seed = s.seed ∨ ¬ family.Uses id text.toList

theorem Extends.conserved (extended : Extends family other) (built : family.Built)
    (built' : other.Built) (lt : id < family.members.size) {text : String}
    {setting setting' : Setting} {s t : Session}
    (repeats : family.Repeats id text setting setting' s t) :
    Conserved (result (Evaluation.evaluate setting family id text s))
      (result (Evaluation.evaluate setting' other id text t)) := by
  have wf := built_wellFormed built
  have lt' : id < other.members.size := extended.size ▸ lt
  -- Where the text does not need them, the first run has the time and the generator of the second.
  have moved : ∃ (moment : Setting) (u : Session), moment.now = setting'.now ∧ t.seed = u.seed ∧
      result (Evaluation.evaluate setting family id text s) =
        result (Evaluation.evaluate moment family id text u) := by
    rcases repeats with ⟨now, seed⟩ | free
    · exact ⟨setting, s, now.symm, seed, rfl⟩
    · obtain ⟨now, tracing⟩ := setting
      exact ⟨⟨setting'.now, tracing⟩, t, rfl, rfl,
        Evaluation.evaluate_unused built lt lt ⟨fun _ _ => rfl, rfl⟩ free tracing now _ s t⟩
  obtain ⟨moment, u, now, seed, same⟩ := moved
  rw [same]
  have offers (i : EnvId) :
      Comparison.defined.Offers (family.scope moment.now i) (other.scope setting'.now i) := by
    rw [← now]
    exact extended.offers wf moment.now i
  have run := Evaluation.evaluate_matches built built' lt lt' offers (offers id) text u t
    (Comparison.defined_lenient.sessions seed)
  generalize Evaluation.evaluate moment family id text u = p at run ⊢
  generalize Evaluation.evaluate setting' other id text t = q at run ⊢
  cases run with
  | ok _ _ => exact ⟨fun _ h => h, fun _ h _ => h⟩
  | error _ => exact ⟨fun _ h => h, fun _ h _ => h⟩
  | pardoned forgiven =>
    refine ⟨nofun, ?_⟩
    rintro _ ⟨⟩ defined
    exact absurd (forgiven.symm.trans defined) (by decide)

end

/-! ## Implicit products -/

/-- Two families are the same, but for implicit products that may have been turned on in any
environments of the second. -/
structure Multiplied (family other : Family) : Prop where
  size : other.members.size = family.members.size
  lookup : ∀ id kind key, other.lookup id kind key = family.lookup id kind key
  options : ∀ id, (family.options id).Multiplied (other.options id)
  answers : other.answers = family.answers

section

variable {family other next : Family} {id : EnvId}

theorem Multiplied.refl (family : Family) : Multiplied family family :=
  ⟨rfl, fun _ _ _ => rfl, fun _ => .refl _, rfl⟩

/-- Options that are changed in one environment leave all names of all environments alone. -/
theorem lookup_modifyOptions_all (family : Family) (id : EnvId) (change : Options → Options)
    (i : EnvId) (kind : Kind) (key : String) :
    (family.modifyOptions id change).lookup i kind key = family.lookup i kind key := by
  have tables (j : EnvId) : ((family.modifyOptions id change).environment j).table kind =
      (family.environment j).table kind := by
    by_cases same : j = id
    · subst same
      by_cases lt : j < family.members.size
      · rw [modifyOptions, modifyEnvironment_same _ lt]
        cases kind <;> rfl
      · have absent := Nat.not_lt.mp lt
        rw [modifyOptions, environment_absent (by rw [modifyEnvironment_size]; exact absent),
          environment_absent absent]
    · rw [modifyOptions, modifyEnvironment_other _ same]
  rw [lookup, layers, modifyOptions_lineage]
  exact lookupIn_entries fun j _ => by rw [tables j]

theorem options_modifyOptions_other (family : Family) (id : EnvId) (change : Options → Options)
    {i : EnvId} (ne : i ≠ id) : (family.modifyOptions id change).options i = family.options i := by
  rw [options, modifyOptions, modifyEnvironment_other _ ne]
  rfl

/-- Implicit products are turned on in one environment after another. -/
theorem Multiplied.turnOn (multiplied : Multiplied family other) {change : Change}
    (on : change = .setBracketMultiply true ∨ change = .setVariableMultiply true)
    (lt : id < other.members.size) (run : change.run other id = .ok next) :
    Multiplied family next := by
  obtain ⟨adjust, rfl, more⟩ : ∃ adjust : Options → Options, next = other.modifyOptions id adjust ∧
      ∀ before options : Options, before.Multiplied options → before.Multiplied (adjust options) := by
    rcases on with rfl | rfl
    · cases run
      exact ⟨_, rfl, fun _ _ h => ⟨h.context, h.maxDepth, fun _ => rfl, h.variableMultiply⟩⟩
    · cases run
      exact ⟨_, rfl, fun _ _ h => ⟨h.context, h.maxDepth, h.bracketMultiply, fun _ => rfl⟩⟩
  refine ⟨(modifyEnvironment_size _ _ _).trans multiplied.size, ?_, ?_, multiplied.answers⟩
  · intro i kind key
    exact (lookup_modifyOptions_all other id adjust i kind key).trans (multiplied.lookup i kind key)
  · intro i
    by_cases same : i = id
    · subst same
      rw [options_modifyOptions lt]
      exact more _ _ (multiplied.options i)
    · rw [options_modifyOptions_other other id adjust same]
      exact multiplied.options i

/-- Implicit products that are turned on, here or in the environments that functions are bound to,
change nothing for a text that did not fail for want of a name. -/
theorem multiply_conserved (built : family.Built) (built' : other.Built)
    (multiplied : Multiplied family other) (lt : id < family.members.size) {text : String}
    {setting setting' : Setting} {s t : Session}
    (repeats : family.Repeats id text setting setting' s t) :
    Conserved (result (Evaluation.evaluate setting family id text s))
      (result (Evaluation.evaluate setting' other id text t)) := by
  have extended : Extends family other :=
    { multiplied with lookup := fun id kind key value found =>
        (multiplied.lookup id kind key).trans found }
  exact extended.conserved built built' lt repeats

end

/-- The standard environment with a variable, and a function of it. -/
def tallied : Family :=
  (empty.addStandard.1.register 0 .vars "k" (some (.fixed (.ofInt 3)))).register 0 .functions "f"
    (some (.user ⟨"f", ["x"], "x + k", none, some 0⟩))

theorem tallied_exist : 0 < tallied.members.size := by
  rw [tallied, register_size, register_size, standard_size]
  exact Nat.zero_lt_one

theorem tallied_built : tallied.Built := by
  have first : empty.addStandard.1.setVariable 0 (some "k") (.number (.ofInt 3)) =
      .ok (empty.addStandard.1.register 0 .vars "k" (some (.fixed (.ofInt 3)))) := rfl
  have second : (empty.addStandard.1.register 0 .vars "k" (some (.fixed (.ofInt 3)))).setFunction 0
      (some "f") (.given (.user ⟨"f", ["x"], "x + k", none, some 0⟩)) = .ok tallied := rfl
  refine .setFunction (.setVariable (built_addStandard .empty) first) second ?_
  rintro u scope ⟨⟩ ⟨⟩
  rw [register_size, standard_size]
  exact Nat.zero_lt_one

theorem tallied_value :
    result (Evaluation.evaluate ⟨0, false⟩ tallied 0 "f(2) + k" (.start 0)) = .ok (.ofInt 8) := by
  decide +kernel

theorem tallied_unused : ¬ tallied.Uses 0 "f(2) + k".toList := by
  have closed : ([(0, "f(2) + k".toList), (0, ['2']), (0, "x + k".toList)].all fun text =>
      (operandsOf text.2).all (tallied.harmless
        [(0, "f(2) + k".toList), (0, ['2']), (0, "x + k".toList)] text.1)) = true := by
    decide +kernel
  simp only [List.all_eq_true] at closed
  exact not_uses_of_harmless closed List.mem_cons_self

/-- The same environment with both kinds of implicit products. -/
def multiplying : Family :=
  (tallied.modifyOptions 0 fun options => { options with bracketMultiply := true }).modifyOptions 0
    fun options => { options with variableMultiply := true }

theorem multiply_conserved_tallied :
    Multiplied tallied multiplying ∧ ¬ tallied.Uses 0 "f(2) + k".toList ∧
    (∀ now tracing s, result (Evaluation.evaluate ⟨now, tracing⟩ multiplying 0 "f(2) + k" s) =
      .ok (.ofInt 8)) := by
  have exist : 0 < (tallied.modifyOptions 0 fun options =>
      { options with bracketMultiply := true }).members.size := by
    rw [modifyOptions, modifyEnvironment_size]
    exact tallied_exist
  have multiplied : Multiplied tallied multiplying :=
    ((Multiplied.refl tallied).turnOn (.inl rfl) tallied_exist rfl).turnOn (.inr rfl) exist rfl
  have built : multiplying.Built := .setOptions (.setOptions tallied_built)
  refine ⟨multiplied, tallied_unused, fun now tracing s => ?_⟩
  exact (multiply_conserved tallied_built built multiplied tallied_exist (.inr tallied_unused)).1 _
    tallied_value

/-! ## Names that stood for nothing -/

/-- The families that come about when names are set in an environment that stood for nothing there
at first. -/
inductive Supplied (base : Family) (id : EnvId) : Family → Prop
  | start : Supplied base id base
  | set {family next : Family} {change : Change} {kind : Kind} {key : String} {value : kind.Value} :
      Supplied base id family → change.Registers kind key (some value) →
      change.Bound base.members.size → base.lookup id kind key = none →
      change.run family id = .ok next → Supplied base id next

section

variable {base family : Family} {id : EnvId}

theorem Supplied.size (supplied : Supplied base id family) :
    family.members.size = base.members.size := by
  induction supplied with
  | start => rfl
  | set _ registers _ _ run ih =>
    rw [registers.run] at run
    cases run
    exact (register_size _ _ _ _ _).trans ih

theorem Supplied.built (supplied : Supplied base id family) (built : base.Built) :
    family.Built := by
  induction supplied with
  | start => exact built
  | set before _ bound _ run ih => exact Change.run_built ih (before.size ▸ bound) run

/-- Nothing happens elsewhere, and nothing is moved. -/
theorem Supplied.elsewhere (supplied : Supplied base id family) :
    (∀ i, i ≠ id → family.environment i = base.environment i) ∧
    (∀ i, (family.environment i).lineage = (base.environment i).lineage) ∧
    (∀ i, family.options i = base.options i) ∧ family.answers = base.answers := by
  induction supplied with
  | start => exact ⟨fun _ _ => rfl, fun _ => rfl, fun _ => rfl, rfl⟩
  | set _ registers _ _ run ih =>
    rw [registers.run] at run
    cases run
    obtain ⟨others, lineages, options, answers⟩ := ih
    refine ⟨fun i ne => ?_, fun i => ?_, fun i => ?_, answers⟩
    · exact (register_environment_other _ _ _ ne).trans (others i ne)
    · exact (register_lineage _ _ _ _ _ i).trans (lineages i)
    · exact (options_register_apart i).trans (options i)

/-- Whatever a name stood for in the environment, it still stands for. -/
theorem Supplied.here (supplied : Supplied base id family) {kind : Kind} {key : String}
    {value : kind.Value} (found : base.lookup id kind key = some value) :
    family.lookup id kind key = some value := by
  induction supplied with
  | start => exact found
  | @set before next change kind' key' value' supplied registers _ missing run ih =>
    rw [registers.run] at run
    cases run
    by_cases apart : kind ≠ kind' ∨ key ≠ key'
    · exact (lookup_register_apart apart id).trans ih
    · simp only [ne_eq, not_or, not_not] at apart
      obtain ⟨rfl, rfl⟩ := apart
      rw [missing] at found
      cases found

/-- The same holds in the environments that lie over it. The induction goes down to the environment
that has changed: on the way everything says what it said. -/
theorem Supplied.lookup (supplied : Supplied base id family) (built : base.Built) {kind : Kind}
    {key : String} {value : kind.Value} (i : EnvId)
    (found : base.lookup i kind key = some value) : family.lookup i kind key = some value := by
  obtain ⟨others, lineages, -, -⟩ := supplied.elsewhere
  have stacked := built_stacked built
  have stacked' : family.Stacked := stacked.congr lineages
  induction i using Nat.strongRecOn with
  | ind i ih =>
    by_cases same : i = id
    · subst same
      exact supplied.here found
    · have parents : family.parent? i = base.parent? i := by rw [parent?, parent?, others i same]
      cases below : base.parent? i with
      | none =>
        have layers : base.layers i = [i] := by rw [layers, stacked i, below]; rfl
        rw [Family.lookup, Family.layers, lineages, ← Family.layers, layers]
        rw [Family.lookup, layers] at found
        rw [lookupIn_congr (fun j mem => ?_), found]
        rw [List.mem_singleton.mp mem]
        exact others i same
      | some parent =>
        rw [stacked.lookup_eq below] at found
        rw [stacked'.lookup_eq (parents.trans below), others i same]
        split at found
        · exact found
        · exact ih parent ((built_wellFormed built).parent_lt below) found

/-- Names that are set where they stood for nothing change nothing for a text that did not fail for
want of a name, whatever its functions are bound to. -/
theorem supply_conserved (built : base.Built) (lt : id < base.members.size)
    (supplied : Supplied base id family) {text : String} {setting setting' : Setting}
    {s t : Session} (repeats : base.Repeats id text setting setting' s t) :
    Conserved (result (Evaluation.evaluate setting base id text s))
      (result (Evaluation.evaluate setting' family id text t)) := by
  obtain ⟨-, -, options, answers⟩ := supplied.elsewhere
  have extended : Extends base family := by
    refine ⟨supplied.size, fun i _ _ _ found => supplied.lookup built i found, fun i => ?_,
      answers⟩
    rw [options i]
    exact .refl _
  exact extended.conserved built (supplied.built built) lt repeats

end

/-- A variable that is named like a parameter. -/
def namesake : Family := tallied.register 0 .vars "x" (some (.fixed (.ofInt 7)))

theorem supply_conserved_tallied :
    Supplied tallied 0 namesake ∧
    tallied.Repeats 0 "f(2) + k" ⟨0, false⟩ ⟨0, true⟩ (.start 0) (.start 0) ∧
    result (Evaluation.evaluate ⟨0, true⟩ namesake 0 "f(2) + k" (.start 0)) = .ok (.ofInt 8) := by
  have registers : (Change.setVariable (some "x") (.number (.ofInt 7))).Registers .vars "x"
      (some (.fixed (.ofInt 7))) := .setVariable rfl rfl
  have missing : tallied.lookup 0 .vars "x" = none := by decide +kernel
  have more : Supplied tallied 0 namesake :=
    .set .start registers (by rintro _ _ _ ⟨⟩) missing rfl
  have repeats : tallied.Repeats 0 "f(2) + k" ⟨0, false⟩ ⟨0, true⟩ (.start 0) (.start 0) :=
    .inl ⟨rfl, rfl⟩
  exact ⟨more, repeats,
    (supply_conserved tallied_built tallied_exist more repeats).1 _ tallied_value⟩

end Family
end Calculator
