import Calculator.Proofs.Lines
import Calculator.Proofs.Numbers
import Calculator.Proofs.RunnerTables

/-!
# Calculator.Proofs.RunnerNumbers

No NaN ever comes up while lines are handled. Infinities do, as values and as the last answer, but
neither a variable of the user nor a parameter is ever bound to one.

* `Family.Numeric`: all that a family says is about numbers, and fixed variables are finite.
* `Numeric.evaluate`: evaluations in such a family have numbers as values and as operands.
* `Entered.numeric`: the environments in which bodies of functions are evaluated are of that kind.
* `handle_keeps`: handling a line keeps a runner numeric, and its value is a number.
* `course_numbers`: so every runner is that lines lead to, from the standard one on.
-/

namespace Calculator

/-- However a computation ends, the state that it leaves and its value are as described. -/
def Leaves {ε σ α : Type} (states : σ → Prop) (values : α → Prop) : EStateM.Result ε σ α → Prop
  | .ok a s => states s ∧ values a
  | .error _ s => states s

/-- All the operands and arguments that are reported are numbers. -/
def Session.Numeric (s : Session) : Prop :=
  ∀ e ∈ s.events, e.Proper fun v => v.isNumber = true

/-- A line that names no values may be added to the report. -/
theorem Session.Numeric.report {s : Session} (h : s.Numeric) (tracing : Bool) {event : Event}
    (plain : event.Proper fun v => v.isNumber = true) :
    Session.Numeric { s with events := (if tracing then [event] else []) ++ s.events } := by
  cases tracing with
  | false => exact h
  | true => exact List.forall_mem_cons.mpr ⟨plain, h⟩

/-- Of two runs that match among numbers, both have one result, and the second one is among
numbers. -/
theorem Matched.numbers {p q : EStateM.Result Failure Session Decimal}
    (run : Matched Comparison.numbers.pardoned Comparison.numbers.Sessions
      Comparison.numbers.proper p q) :
    Leaves Session.Numeric (fun v => v.isNumber = true) q ∧ result p = result q := by
  cases run with
  | ok ended number => exact ⟨⟨ended.events, number⟩, rfl⟩
  | error ended => exact ⟨ended.events, rfl⟩
  | pardoned forgiven => exact forgiven.elim

/-! ## Families -/

/-- Fixed variables are finite, and constants are numbers. -/
def Variable.Numeric : Variable → Prop
  | fixed value => value.isFinite = true
  | constant value => value.isNumber = true
  | clock => True
  | answer _ => True

/-- What is offered as the value of a variable becomes a finite one. -/
theorem Assignment.toVariable_numeric {value : Assignment} {v : Variable}
    (foreign : ∀ w, value ≠ .variable w) (h : value.toVariable = .ok (some v)) : v.Numeric := by
  have fixed {value : Decimal} (h : (Variable.ofDecimal value).map some = .ok (some v)) :
      v.Numeric := by
    cases made : Variable.ofDecimal value with
    | error refusal =>
      rw [made] at h
      cases h
    | ok w =>
      rw [made] at h
      cases h
      obtain ⟨finite, rfl⟩ := Variable.ofDecimal_eq_ok made
      exact finite
  cases value with
  | nothing => cases h
  | «variable» w => exact absurd rfl (foreign w)
  | number value => exact fixed h
  | text shown =>
    cases read : Decimal.ofString? shown with
    | none =>
      simp only [toVariable, Variable.ofText, read] at h
      cases h
    | some value =>
      simp only [toVariable, Variable.ofText, read] at h
      exact fixed h

namespace Family

/-- What a table may say when there are to be numbers only. -/
def NumericEntry : (kind : Kind) → String → kind.Value → Prop
  | .operators, _, binding => Comparison.numbers.Keeps binding.operation
  | .functions, _, f => ∀ g, f = .native g → Comparison.numbers.KeepsNative g
  | .vars, _, v => v.Numeric

structure Numeric (family : Family) : Prop where
  built : family.Built
  entries : family.Entries NumericEntry
  answers : ∀ a ∈ family.answers, a.isNumber = true

section

variable {family changed : Family} {id : EnvId}

theorem Numeric.register {kind : Kind} {key : String} {value : Option kind.Value}
    (h : family.Numeric) (built : (family.register id kind key value).Built)
    (fits : ∀ v ∈ value, NumericEntry kind key v) :
    (family.register id kind key value).Numeric := by
  refine ⟨built, entries_register fits h.entries, ?_⟩
  rw [register_answers]
  exact h.answers

theorem Numeric.setVariable (h : family.Numeric) {name : Option String} {value : Assignment}
    (set : family.setVariable id name value = .ok changed) (foreign : ∀ v, value ≠ .variable v) :
    changed.Numeric := by
  have built : changed.Built := .setVariable h.built set
  obtain ⟨key, v, -, converted, rfl⟩ := setVariable_eq_ok set
  refine @Numeric.register _ id .vars key v h built ?_
  rintro w rfl
  exact Assignment.toVariable_numeric foreign converted

theorem finite_of_setVariable {name : Option String} {value : Decimal}
    (set : family.setVariable id name (.number value) = .ok changed) : value.isFinite = true := by
  obtain ⟨key, v, -, converted, -⟩ := setVariable_eq_ok set
  cases made : Variable.ofDecimal value with
  | error refusal =>
    simp only [Assignment.toVariable, made] at converted
    cases converted
  | ok w => exact (Variable.ofDecimal_eq_ok made).1

theorem Numeric.setFunction (h : family.Numeric) {name : Option String} {f : Offer Function}
    (set : family.setFunction id name f = .ok changed) (user : ∀ g, f ≠ .given (.native g))
    (bound : ∀ u scope, f = .given (.user u) → u.scope = some scope →
      scope < family.members.size) : changed.Numeric := by
  have built : changed.Built := .setFunction h.built set bound
  obtain ⟨key, g, -, given, rfl⟩ := setFunction_eq_ok set
  refine @Numeric.register _ id .functions key g h built ?_
  rintro w mem native rfl
  exact absurd (given _ mem) (user native)

theorem Numeric.modifyOptions (h : family.Numeric) (change : Options → Options) :
    (family.modifyOptions id change).Numeric :=
  ⟨.setOptions h.built, everywhere_modifyOptions h.entries change, h.answers⟩

theorem Numeric.setAnswer (h : family.Numeric) (register : Nat) {value : Decimal}
    (number : value.isNumber = true) : (family.setAnswer register value).Numeric := by
  refine ⟨.setAnswer h.built, h.entries, fun a mem => ?_⟩
  rcases Array.mem_or_eq_of_mem_setIfInBounds mem with old | rfl
  · exact h.answers a old
  · exact number

theorem Numeric.valueOf (h : family.Numeric) (now : Int) {v : Variable} (numeric : v.Numeric) :
    (family.valueOf now v).isNumber = true := by
  cases v with
  | fixed value => exact Decimal.isNumber_of_finite numeric
  | constant value => exact numeric
  | clock => rfl
  | answer register =>
    cases found : family.answers[register]? with
    | none => rw [Family.valueOf, found]; rfl
    | some a => rw [Family.valueOf, found]; exact h.answers a (Array.mem_of_getElem? found)

theorem Numeric.sound (h : family.Numeric) (now : Int) (id : EnvId) :
    Comparison.numbers.Sound (family.scope now id) where
  operators _ binding found := h.entries.lookup found
  natives _ f found := h.entries.lookup found f rfl
  vars name v found := by
    obtain ⟨w, stands, rfl⟩ := Option.map_eq_some_iff.mp found
    exact h.valueOf now (h.entries.lookup stands)

/-- Evaluations in a numeric family have numbers as values and operands, and a report makes no
difference to them. -/
theorem Numeric.evaluate (h : family.Numeric) (lt : id < family.members.size) (setting : Setting)
    (text : String) {s : Session} (numeric : s.Numeric) :
    Leaves Session.Numeric (fun v => v.isNumber = true)
        (Evaluation.evaluate setting family id text s) ∧
      result (Evaluation.evaluate setting family id text s) =
        result (Evaluation.evaluate ⟨setting.now, true⟩ family id text s) := by
  have offers (i : EnvId) := (h.sound setting.now i).offers
  have run (tracing : Bool) : Matched Comparison.numbers.pardoned Comparison.numbers.Sessions
      Comparison.numbers.proper (Evaluation.evaluate setting family id text s)
      (Evaluation.evaluate ⟨setting.now, tracing⟩ family id text s) :=
    @Evaluation.evaluate_matches _ _ _ h.built h.built _ _ lt lt setting ⟨setting.now, tracing⟩
      offers (offers id) text s s ⟨rfl, numeric⟩
  exact ⟨(run setting.tracing).numbers.1, (run true).numbers.2⟩

/-! ## Parameters -/

/-- Parameters are bound to finite values only. -/
theorem bindParameters_numeric (names : List String) : ∀ (values : List Decimal)
    {family bound : Family}, family.Numeric →
    Evaluation.bindParameters family id names values = .ok bound →
      bound.Numeric ∧ bound.members.size = family.members.size := by
  induction names with
  | nil =>
    intro values family bound h run
    cases run
    exact ⟨h, rfl⟩
  | cons name names ih =>
    intro values family bound h run
    cases values with
    | nil =>
      cases run
      exact ⟨h, rfl⟩
    | cons value values =>
      rw [Evaluation.bindParameters] at run
      cases set : family.setVariable id (some name) (.number value) with
      | error refusal =>
        rw [set] at run
        cases run
      | ok next =>
        rw [set] at run
        obtain ⟨numeric, size⟩ := ih values (h.setVariable set (by rintro _ ⟨⟩)) run
        obtain ⟨key, v, -, -, rfl⟩ := setVariable_eq_ok set
        exact ⟨numeric, size.trans (register_size ..)⟩

/-- The environments that can be entered from an environment by calling user functions, whatever
their arguments are: overlays in which parameters are bound. -/
inductive Entered (base : Family) (id : EnvId) : Family → EnvId → Prop
  | start : Entered base id base id
  | call {family bound : Family} {i : EnvId} {name : String} {f : UserFunction}
      {arguments : List Decimal} (before : Entered base id family i)
      (found : family.lookup i .functions name = some (.user f))
      (run : Evaluation.bindParameters (family.overlay (f.scope.getD i)).1
        (family.overlay (f.scope.getD i)).2 f.parameters arguments = .ok bound) :
      Entered base id bound (family.overlay (f.scope.getD i)).2

theorem Entered.numeric {base : Family} {i : EnvId} (h : base.Numeric)
    (lt : id < base.members.size) (entered : Entered base id family i) :
    family.Numeric ∧ i < family.members.size := by
  induction entered with
  | start => exact ⟨h, lt⟩
  | @call family bound i name f arguments _ found run ih =>
    obtain ⟨numeric, exist⟩ := ih
    have owner : f.scope.getD i < family.members.size := by
      cases scope : f.scope with
      | none => exact exist
      | some owner =>
        exact (lookup_admissible (built_wellFormed numeric.built) found).2 f owner rfl scope
    have above : (family.overlay (f.scope.getD i)).1.Numeric :=
      ⟨.overlay numeric.built owner, entries_overlay numeric.entries, numeric.answers⟩
    obtain ⟨bound, size⟩ := bindParameters_numeric f.parameters arguments above run
    refine ⟨bound, ?_⟩
    rw [size, overlay_size]
    exact Nat.lt_succ_self _

end
end Family

namespace Runner

/-! ## Steps of a runner -/

structure Numeric (r : Runner) : Prop where
  family : r.family.Numeric
  exist : r.environment < r.family.members.size
  vars : ∀ e ∈ r.vars, e.2.isFinite = true
  session : r.session.Numeric

/-- Steps that keep runners numeric, whether they succeed or fail, and give what is described. -/
structure Upholds {α : Type} (values : α → Prop) (step : Running α) : Prop where
  -- A field, since a bare statement about `step r` would have the step run wherever it is compared.
  leaves : ∀ r : Runner, r.Numeric → Leaves Numeric values (step r)

section

variable {α β : Type} {values : α → Prop} {later : β → Prop}

theorem upholds_pure {a : α} (h : values a) : Upholds values (pure a) :=
  ⟨fun _ numeric => ⟨numeric, h⟩⟩

theorem upholds_throw (failure : LineFailure) : Upholds values (throw failure) :=
  ⟨fun _ numeric => numeric⟩

theorem upholds_bind {x : Running α} {f : α → Running β} (first : Upholds values x)
    (rest : ∀ a, values a → Upholds later (f a)) : Upholds later (x >>= f) := by
  constructor
  intro r numeric
  have run := first.leaves r numeric
  rw [bind_apply]
  cases ended : x r with
  | error failure r' =>
    rw [ended] at run
    exact run
  | ok a r' =>
    rw [ended] at run
    exact (rest a run.2).leaves r' run.1

/-- What a step gives may be dressed up. -/
theorem upholds_map {x : Running α} (h : Upholds (fun _ => True) x) (f : α → β) :
    Upholds (fun _ => True) (do return f (← x)) :=
  upholds_bind h fun _ _ => upholds_pure trivial

theorem Idle.upholds {step : Running α} (h : Idle step) : Upholds (fun _ => True) step := by
  constructor
  intro r numeric
  have same := h r
  cases run : step r with
  | error failure r' =>
    rw [run] at same
    cases same
    exact numeric
  | ok a r' =>
    rw [run] at same
    cases same
    exact ⟨numeric, trivial⟩

end

variable {r : Runner} {family : Family}

theorem Numeric.withSession (h : r.Numeric) {session : Session} (numeric : session.Numeric) :
    (r.withSession session).Numeric := ⟨h.family, h.exist, h.vars, numeric⟩

theorem Numeric.withContext (h : r.Numeric) (ctx : Context) : (r.withContext ctx).Numeric := by
  have changed : (r.family.modifyOptions r.environment fun o => { o with context := ctx }).Numeric :=
    h.family.modifyOptions _
  refine ⟨changed, ?_, h.vars, h.session⟩
  exact (Family.modifyEnvironment_size ..).symm ▸ h.exist

theorem Numeric.setVariable (h : r.Numeric) {name : Option String} {value : Assignment}
    (set : r.family.setVariable r.environment name value = .ok family)
    (foreign : ∀ v, value ≠ .variable v) {vars : List (String × Decimal)}
    (finite : ∀ e ∈ vars, e.2.isFinite = true) :
    Numeric { r with family := family, vars := vars } := by
  refine ⟨h.family.setVariable set foreign, ?_, finite, h.session⟩
  obtain ⟨key, v, -, -, rfl⟩ := Family.setVariable_eq_ok set
  rw [Family.register_size]
  exact h.exist

theorem Numeric.setFunction (h : r.Numeric) {name : Option String} {f : Offer Function}
    (set : r.family.setFunction r.environment name f = .ok family)
    (user : ∀ g, f ≠ .given (.native g))
    (bound : ∀ u scope, f = .given (.user u) → u.scope = some scope → scope = r.environment)
    (functions : List (String × UserFunction)) :
    Numeric { r with family := family, functions := functions } := by
  refine ⟨h.family.setFunction set user ?_, ?_, h.vars, h.session⟩
  · intro u scope given owner
    rw [bound u scope given owner]
    exact h.exist
  · obtain ⟨key, g, -, -, rfl⟩ := Family.setFunction_eq_ok set
    rw [Family.register_size]
    exact h.exist

theorem calculate_upholds (setting : Setting) (text : String) :
    Upholds (fun v => v.isNumber = true) (calculate setting text) := by
  constructor
  intro r numeric
  have run := (numeric.family.evaluate numeric.exist setting text numeric.session).1
  rw [calculate]
  cases ended : Evaluation.evaluate setting r.family r.environment text r.session with
  | ok value session =>
    rw [ended] at run
    exact ⟨numeric.withSession run.1, run.2⟩
  | error failure session =>
    rw [ended] at run
    exact numeric.withSession run

theorem definingValue_upholds (setting : Setting) (text : String) :
    Upholds (fun v => v.isNumber = true) (definingValue setting text) := by
  constructor
  intro r numeric
  have run := (calculate_upholds setting text).leaves r numeric
  rw [definingValue]
  split
  · rename_i ended
    rw [ended] at run
    exact run
  · exact run

theorem answerTo_upholds (setting : Setting) (text : String) :
    Upholds (fun v => v.isNumber = true) (answerTo setting text) := by
  refine upholds_bind (calculate_upholds setting text) fun value number => ⟨fun r numeric => ?_⟩
  exact ⟨⟨numeric.family.setAnswer r.answer number, numeric.exist, numeric.vars, numeric.session⟩,
    number⟩

theorem expression_upholds (setting : Setting) (text : String) :
    Upholds (fun s => ∀ v ∈ s.value, v.isNumber = true) (expression setting text) := by
  refine upholds_bind (answerTo_upholds setting text) fun value number => upholds_pure ?_
  rintro _ ⟨⟩
  exact number

/-! ## Definitions -/

/-- A variable that is defined has a finite value. -/
theorem defineVariable_upholds (setting : Setting) (d : Definition) :
    Upholds (fun _ => True) (defineVariable setting d) := by
  constructor
  intro r numeric
  have first := (definingValue_upholds setting d.body).leaves r numeric
  cases run : definingValue setting d.body r with
  | error failure r' =>
    rw [run] at first
    rw [defineVariable, bind_apply, run]
    exact first
  | ok value r' =>
    rw [run] at first
    rw [defineVariable_eq run]
    split
    · cases set : r'.family.setVariable r'.environment (some d.name) (.number value) with
      | error refusal => exact first.1
      | ok family =>
        -- An infinite value has been refused here, so the list of variables stays finite too.
        have finite := Family.finite_of_setVariable set
        refine ⟨first.1.setVariable set (by rintro _ ⟨⟩) fun e mem => ?_, trivial⟩
        rcases mem_assign mem with rfl | old
        · exact finite
        · exact first.1.vars e old
    · exact first.1

theorem defineFunction_upholds {text : String} {d : Definition} {parameters : List String}
    (read : Definition.parse text = .ok d) (given : d.parameters = some parameters) :
    Upholds (fun _ => True) (defineFunction d parameters) := by
  constructor
  intro r numeric
  have label := parse_functionName read given
  by_cases native : ∃ f, r.lookup .functions d.name = some (.native f)
  · obtain ⟨f, found⟩ := native
    rw [defineFunction, bind_apply, get_apply]
    simp only [found]
    exact numeric
  · obtain ⟨shown, run⟩ := @defineFunction_run d parameters r label fun f found =>
      native ⟨f, found⟩
    rw [run]
    refine ⟨numeric.setFunction (Family.setFunction_label _ _ label _) (by rintro _ ⟨⟩) ?_ _,
      trivial⟩
    rintro _ _ ⟨⟩ ⟨⟩
    rfl

theorem define_upholds (setting : Setting) (text : String) :
    Upholds (fun _ => True) (define setting text) := by
  cases read : Definition.parse text with
  | error problem =>
    simp only [define, read]
    exact upholds_throw _
  | ok d =>
    cases given : d.parameters with
    | some parameters =>
      simp only [define, read, given]
      exact defineFunction_upholds read given
    | none =>
      simp only [define, read, given]
      exact defineVariable_upholds setting d

theorem undefineFunction_upholds (name : String) :
    Upholds (fun _ => True) (undefineFunction name) := by
  constructor
  intro r numeric
  rw [undefineFunction, bind_apply, get_apply]
  dsimp only
  cases r.lookup .functions name with
  | none => exact numeric
  | some f =>
    cases f with
    | native f => exact numeric
    | user f =>
      dsimp only
      rw [bind_apply, change]
      cases set : r.family.setFunction r.environment (some name) .nothing with
      | error refusal => exact numeric
      | ok family =>
        exact ⟨numeric.setFunction set (by rintro _ ⟨⟩) (by rintro _ _ ⟨⟩) _, trivial⟩

theorem undefineVariable_upholds (name : String) :
    Upholds (fun _ => True) (undefineVariable name) := by
  constructor
  intro r numeric
  rw [undefineVariable, bind_apply, get_apply]
  dsimp only
  cases r.lookup .vars name with
  | none => exact numeric
  | some v =>
    cases v with
    | fixed value =>
      dsimp only
      rw [bind_apply, change]
      cases set : r.family.setVariable r.environment (some name) .nothing with
      | error refusal => exact numeric
      | ok family =>
        refine ⟨numeric.setVariable set (by rintro _ ⟨⟩) fun e mem => ?_, trivial⟩
        exact numeric.vars e (mem_unassign mem)
    | _ => exact numeric

theorem undefine_upholds (text : String) : Upholds (fun _ => True) (undefine text) := by
  unfold undefine
  dsimp only
  split
  · exact upholds_throw _
  split
  · exact undefineFunction_upholds _
  · exact undefineVariable_upholds _

theorem defineAll_upholds (setting : Setting) (texts : List (Nat × String)) :
    Upholds (fun _ => True) (defineAll setting texts) := by
  induction texts with
  | nil => exact upholds_pure trivial
  | cons entry rest ih =>
    obtain ⟨number, text⟩ := entry
    rw [defineAll]
    refine @upholds_bind _ _ (fun _ => True) _ _ _ ⟨fun r numeric => ?_⟩ fun _ _ => upholds_map ih _
    have run := (define_upholds setting text).leaves r numeric
    split
    · rename_i ended
      rw [ended] at run
      exact run
    · exact run

/-! ## Commands -/

theorem changeContext_upholds (text : String) : Upholds (fun _ => True) (changeContext text) := by
  constructor
  intro r numeric
  rw [changeContext_run]
  split
  · exact ⟨numeric, trivial⟩
  · split
    · exact ⟨numeric.withContext _, trivial⟩
    · exact numeric
    · exact numeric

theorem changeFormat_upholds (text : String) : Upholds (fun _ => True) (changeFormat text) := by
  constructor
  intro r numeric
  rw [changeFormat]
  cases NumberFormat.ofName? (lowerString text) with
  | none => exact numeric
  | some format => exact ⟨⟨numeric.family, numeric.exist, numeric.vars, numeric.session⟩, trivial⟩

theorem quit_upholds (text : String) : Upholds (fun _ => True) (quit text) := by
  constructor
  intro r numeric
  rw [quit]
  cases text.isEmpty with
  | false => exact numeric
  | true => exact ⟨⟨numeric.family, numeric.exist, numeric.vars, numeric.session⟩, trivial⟩

theorem stepOf_upholds {setting : Setting} {arguments : String} {c : Command}
    {step : Running (List String)} (h : stepOf setting arguments c = some step) :
    Upholds (fun _ => True) step := by
  cases c with
  | save => cases h
  | load => cases h
  | help => obtain rfl := Option.some.inj h; exact upholds_pure trivial
  | define => obtain rfl := Option.some.inj h; exact upholds_map (define_upholds setting _) _
  | undefine => obtain rfl := Option.some.inj h; exact upholds_map (undefine_upholds _) _
  | stat => obtain rfl := Option.some.inj h; exact upholds_map (stat_idle arguments).upholds _
  | environment => obtain rfl := Option.some.inj h; exact (listPage_idle arguments).upholds
  | context => obtain rfl := Option.some.inj h; exact upholds_map (changeContext_upholds _) _
  | format => obtain rfl := Option.some.inj h; exact upholds_map (changeFormat_upholds _) _
  | trace => obtain rfl := Option.some.inj h; exact upholds_map (showFailure_idle arguments).upholds _
  | quit => obtain rfl := Option.some.inj h; exact upholds_map (quit_upholds _) _

/-! ## Lines -/

/-- The runner that a line leaves is numeric, and the value of the line is a number. -/
def Keeps (outcome : Runner × LineResult) : Prop :=
  outcome.1.Numeric ∧ ∀ v ∈ outcome.2.value, v.isNumber = true

variable {setting : Setting} {exchanges : List Exchange} {outcome : Runner × LineResult}

theorem finish_keeps {result : EStateM.Result LineFailure Runner Shown}
    (h : Leaves Numeric (fun s => ∀ v ∈ s.value, v.isNumber = true) result) :
    Keeps (finish setting result) := by
  cases result with
  | ok s r => exact h
  | error failure r => exact ⟨⟨h.family, h.exist, h.vars, h.session⟩, by rintro _ ⟨⟩⟩

theorem printing_upholds {step : Running (List String)} (h : Upholds (fun _ => True) step) :
    Upholds (fun s => ∀ v ∈ s.value, v.isNumber = true) (printing step) :=
  upholds_bind h fun _ _ => upholds_pure (by rintro _ ⟨⟩)

theorem save_keeps {name : String} (numeric : r.Numeric)
    (ends : (save setting name r).Ends exchanges outcome) : Keeps outcome := by
  unfold save at ends
  split at ends
  · cases ends
    exact finish_keeps numeric
  · cases ends with
    | write isWritten ends =>
      cases isWritten with
      | false =>
        cases ends
        exact finish_keeps numeric
      | true =>
        cases ends
        exact finish_keeps ⟨⟨numeric.family, numeric.exist, numeric.vars,
          numeric.session.report setting.tracing (by trivial)⟩, by rintro _ ⟨⟩⟩

theorem load_keeps {name : String} (numeric : r.Numeric)
    (ends : (load setting name r).Ends exchanges outcome) : Keeps outcome := by
  unfold load at ends
  split at ends
  · cases ends
    exact finish_keeps numeric
  · cases ends with
    | read answer ends =>
      cases answer with
      | error problem =>
        cases ends
        exact finish_keeps numeric
      | ok text =>
        cases ends
        refine finish_keeps ((printing_upholds ?_).leaves r numeric)
        exact upholds_map (defineAll_upholds setting _) _

theorem handle_keeps {line : Option String} (numeric : r.Numeric)
    (ends : (handle setting line r).Ends exchanges outcome) : Keeps outcome := by
  have cleared : r.cleared.Numeric := numeric.withSession (by rintro _ ⟨⟩)
  rw [handle_reading] at ends
  cases read : reading line with
  | nothing =>
    rw [read] at ends
    cases ends
    exact ⟨cleared, by rintro _ ⟨⟩⟩
  | unknown name =>
    rw [read] at ends
    cases ends
    exact finish_keeps cleared
  | expression text =>
    rw [read] at ends
    cases ends
    exact finish_keeps ((expression_upholds setting text).leaves _ cleared)
  | command c arguments =>
    rw [read] at ends
    dsimp only at ends
    obtain ⟨step, taken⟩ | rfl | rfl := stepOf_cases setting arguments c
    · rw [command_step taken] at ends
      cases ends
      exact finish_keeps ((printing_upholds (stepOf_upholds taken)).leaves _ cleared)
    · rw [command] at ends
      exact save_keeps cleared ends
    · rw [command] at ends
      exact load_keeps cleared ends

/-- Along a course of lines, by induction: each of them keeps the runner numeric. -/
theorem Course.numeric {last : Runner} {handlings : List Handling} (numeric : r.Numeric)
    (course : Course r handlings last) :
    last.Numeric ∧ ∀ h ∈ handlings, ∀ v ∈ h.result.value, v.isNumber = true := by
  induction course with
  | nil r => exact ⟨numeric, List.forall_mem_nil _⟩
  | cons ends later ih =>
    obtain ⟨next, value⟩ := handle_keeps numeric ends
    obtain ⟨final, values⟩ := ih next
    exact ⟨final, List.forall_mem_cons.mpr ⟨value, values⟩⟩

theorem standardEnvironment_numeric (kind : Kind) (key : String) (value : kind.Value)
    (mem : (key, .value value) ∈ standardEnvironment.table kind) :
    Family.NumericEntry kind key value := by
  cases kind with
  | operators =>
    obtain ⟨binding, listed, same⟩ := List.mem_map.mp mem
    cases same
    exact Operators.all_keep value listed
  | functions =>
    obtain ⟨f, listed, same⟩ := List.mem_map.mp mem
    cases same
    rintro _ ⟨⟩
    exact Functions.all_keep f listed
  | vars =>
    simp only [standardEnvironment, Environment.table, List.mem_cons, List.not_mem_nil,
      or_false, Prod.mk.injEq] at mem
    rcases mem with ⟨-, same⟩ | ⟨-, same⟩ | ⟨-, same⟩
    · cases same
      rfl
    · cases same
      trivial
    · cases same
      trivial

theorem standard_numeric {settings : Settings} {base : Path} {seed : Nat}
    (h : standard settings base seed = .ok r) : r.Numeric := by
  obtain ⟨ctx, printer, rfl⟩ := standard_eq_ok h
  have library : (⟨#[standardEnvironment], #[.zero]⟩ : Family).Numeric := by
    refine ⟨?_, ?_, ?_⟩
    · have built := Family.built_addStandard .empty
      rw [addStandard_eq] at built
      exact built
    · have none : Family.empty.Entries Family.NumericEntry := by
        intro i kind
        cases kind <;> exact nofun
      have alone := Family.everywhere_add none standardEnvironment_numeric
      exact alone
    · intro a mem
      rw [List.mem_singleton.mp (Array.mem_toList_iff.mpr mem)]
      rfl
  have changed : ((⟨#[standardEnvironment], #[.zero]⟩ : Family).modifyOptions 0
      fun _ => optionsOf settings ctx).Numeric := library.modifyOptions _
  exact ⟨changed, Nat.zero_lt_one, List.forall_mem_nil _, List.forall_mem_nil _⟩

/-- After any lines, succeeding or failing, no NaN has come up: the values of expressions, the last
answer, and all operands and arguments that were reported are numbers, and the variables of the user
are finite. In every environment that calls enter, parameters and other fixed variables are finite,
and evaluations have numbers as values, operands and arguments, whether they report them or not. -/
theorem course_numbers {settings : Settings} {base : Path} {seed : Nat} {start last : Runner}
    {handlings : List Handling} (created : standard settings base seed = .ok start)
    (course : Course start handlings last) :
    (∀ h ∈ handlings, ∀ v ∈ h.result.value, v.isNumber = true) ∧
    last.answerValue.isNumber = true ∧
    last.session.Numeric ∧
    (∀ e ∈ last.vars, e.2.isFinite = true) ∧
    ∀ family id, last.family.Entered last.environment family id →
      (∀ name v, family.lookup id .vars name = some (.fixed v) → v.isFinite = true) ∧
      ∀ setting text s, s.Numeric →
        Leaves Session.Numeric (fun v => v.isNumber = true)
            (Evaluation.evaluate setting family id text s) ∧
          result (Evaluation.evaluate setting family id text s) =
            result (Evaluation.evaluate ⟨setting.now, true⟩ family id text s) := by
  obtain ⟨numeric, values⟩ := course.numeric (standard_numeric created)
  refine ⟨values, ?_, numeric.session, numeric.vars, fun family id entered => ?_⟩
  · exact numeric.family.valueOf 0 (v := .answer last.answer) trivial
  · obtain ⟨inside, exist⟩ := entered.numeric numeric.family numeric.exist
    refine ⟨fun name v found => ?_, fun setting text s clean => ?_⟩
    · exact inside.entries.lookup found
    · exact inside.evaluate exist setting text clean

/-- A runner whose last answer is infinite, and has been used in the body of a function. -/
def boundless : Runner :=
  handleLines ⟨0, true⟩ ⟨["home"], [], []⟩ [":define f(x) = x * ans", "0^(-1)", "f(2)"]
    (usual ["home"] 0)

theorem course_numbers_boundless : standard {} ["home"] 0 = .ok (usual ["home"] 0) ∧
    boundless.answerValue = .infinity false ∧ boundless.session.events.length = 10 ∧
    ∃ handlings, Course (usual ["home"] 0) handlings boundless ∧ boundless.session.Numeric := by
  obtain ⟨handlings, course⟩ := course_handleLines ⟨0, true⟩
    [":define f(x) = x * ans", "0^(-1)", "f(2)"] ⟨["home"], [], []⟩ (usual ["home"] 0)
  obtain ⟨-, -, numeric, -⟩ := course_numbers (standard_usual ["home"] 0) course
  exact ⟨standard_usual ["home"] 0, by decide +kernel, by decide +kernel, handlings, course,
    numeric⟩

end Runner
end Calculator
