import Calculator.Evaluation
import Calculator.Library.Standard
import Calculator.Proofs.Families
import Calculator.Proofs.Steps

/-!
# Calculator.Proofs.Faults

Which faults leave an evaluation unclaimed. Operators claim the faults that arise in them, and so do
functions for everything that goes on in their runs, down to the bodies of the functions they call.
What is left are the products that an expression does not spell out: of a factor with the bracket or
the variable directly behind it.

* `Confined`: a step whose failures are all of one kind.
* `evaluateAt_confined`: by induction on the room, everything but a fault of such a product is a
  problem.
* `evaluate_fault`: a fault that leaves an evaluation is one of such a product, in the context of the
  environment in which the evaluation started.
-/

namespace Calculator

/-! ## Steps with failures of one kind -/

section

variable {ε σ α β : Type} {P : ε → Prop}

def Confined (P : ε → Prop) (step : EStateM ε σ α) : Prop :=
  ∀ s failure s', step s = .error failure s' → P failure

theorem confined_pure (a : α) : Confined P (pure a : EStateM ε σ α) := by
  intro s failure s' h
  cases h

theorem confined_throw {failure : ε} (h : P failure) :
    Confined P (throw failure : EStateM ε σ α) := by
  intro s other s' thrown
  cases thrown
  exact h

theorem confined_get : Confined P (get : EStateM ε σ σ) := by
  intro s failure s' h
  cases h

theorem confined_modify (f : σ → σ) : Confined P (modify f : EStateM ε σ PUnit) := by
  intro s failure s' h
  cases h

theorem confined_bind {x : EStateM ε σ α} {f : α → EStateM ε σ β} (hx : Confined P x)
    (hf : ∀ a, Confined P (f a)) : Confined P (x >>= f) := by
  intro s failure s' h
  rw [bind_apply] at h
  cases run : x s with
  | error first t =>
    rw [run] at h
    cases h
    exact hx s failure s' run
  | ok a t =>
    rw [run] at h
    exact hf a t failure s' h

end

/-- The failure that a step ends with, if it does. -/
def failure? {ε σ α : Type} : EStateM.Result ε σ α → Option ε
  | .ok _ _ => none
  | .error failure _ => some failure

theorem failure?_eq_some {ε σ α : Type} {result : EStateM.Result ε σ α} {failure : ε} :
    failure? result = some failure ↔ ∃ s, result = .error failure s := by
  cases result with
  | ok a s => exact ⟨nofun, nofun⟩
  | error other s =>
    constructor
    · rintro ⟨⟩
      exact ⟨s, rfl⟩
    · rintro ⟨t, ⟨⟩⟩
      rfl

/-- A fault that comes from a product which is not spelled out: of a numeral, which an option lets
stand for a factor, with the value of what follows. -/
structure FactorFault (options : Options) (f : Fault) : Prop where
  enabled : options.bracketMultiply = true ∨ options.variableMultiply = true
  product : ∃ token factor value, parseLiteral token = .ok factor ∧
    factor.multiply options.context value = .error f

/-- Problems, and the faults of products that are not spelled out. -/
def Unclaimed (options : Options) : Failure → Prop
  | .problem _ => True
  | .fault f => FactorFault options f

/-! ## Reduction -/

/-- An operator leaves no fault of its own. -/
theorem unclaimed_atOperator (options : Options) (symbol : String) (failure : Failure) :
    Unclaimed options (failure.atOperator symbol) := by
  cases failure with
  | problem p => trivial
  | fault f => trivial

/-- Neither does a function, wherever in its run a fault arose. -/
theorem unclaimed_within (options : Options) (name : String) (failure : Failure) :
    Unclaimed options (failure.within name) := by
  cases failure with
  | problem p => trivial
  | fault f => trivial

namespace Reduction

variable {options : Options} (ctx : Context) (tracing : Bool)

theorem report_confined (event : Unit → Event) :
    Confined (Unclaimed options) (report tracing event) := confined_modify _

theorem resolve_confined (index : Nat) (step : Step) :
    Confined (Unclaimed options) (resolve ctx tracing index step) := by
  refine confined_bind (report_confined tracing _) fun _ => ?_
  split
  · exact confined_throw (unclaimed_atOperator options step.symbol _)
  · refine confined_bind (confined_modify _) fun _ => ?_
    split
    · refine confined_bind confined_get fun r => ?_
      dsimp only
      split
      · split
        · exact confined_pure _
        · exact report_confined true _
      · exact confined_pure _
    · exact confined_pure _

theorem resolveLevel_confined (level fuel : Nat) : ∀ place : Option Nat,
    Confined (Unclaimed options) (resolveLevel ctx tracing level fuel place) := by
  induction fuel with
  | zero => exact fun _ => confined_pure _
  | succ fuel ih =>
    intro place
    cases place with
    | none => exact confined_pure _
    | some index =>
      rw [resolveLevel]
      refine confined_bind confined_get fun r => ?_
      split
      · exact confined_pure _
      · rename_i step _
        dsimp only
        split
        · exact confined_bind (resolve_confined ctx tracing index step) fun _ => ih step.next
        · exact ih step.next

theorem resolveAll_confined (level : Nat) :
    Confined (Unclaimed options) (resolveAll ctx tracing level) :=
  confined_bind confined_get fun _ => resolveLevel_confined ctx tracing level _ _

theorem resolveDown_confined (level : Nat) :
    Confined (Unclaimed options) (resolveDown ctx tracing level) := by
  induction level with
  | zero => exact resolveAll_confined ctx tracing 0
  | succ level ih => exact confined_bind (resolveAll_confined ctx tracing (level + 1)) fun _ => ih

theorem complete_confined : Confined (Unclaimed options) (complete ctx tracing) :=
  confined_bind confined_get fun r =>
    confined_bind (resolveDown_confined ctx tracing r.chain.maxPrecedence) fun _ =>
      confined_bind confined_get fun _ => confined_pure _

end Reduction

namespace Evaluation

/-! ## Operands -/

section

variable {options : Options} (setting : Setting)

theorem reportEvent_confined (event : Unit → Event) :
    Confined (Unclaimed options) (reportEvent setting event) := confined_modify _

theorem parseLiteral_confined (token : List Char) :
    Confined (Unclaimed options) (ofExcept (parseLiteral token)) := by
  unfold parseLiteral
  extract_lets
  split
  · exact confined_pure _
  · exact confined_throw trivial

theorem within_confined {α : Type} (name : String) (run : Evaluation α) :
    Confined (Unclaimed options) (within name run) := by
  intro s failure s' h
  rw [within] at h
  split at h
  · cases h
    exact unclaimed_within options name _
  · cases h

theorem variableValue_confined (family : Family) (id : EnvId) (name : String) :
    Confined (Unclaimed options) (variableValue setting family id name) := by
  rw [variableValue]
  split
  · exact confined_throw trivial
  · exact confined_pure _

/-- A product with a factor fails with a fault of the kind that is left unclaimed. -/
theorem implicitProduct_confined {token : List Char} {factor : Decimal}
    (enabled : options.bracketMultiply = true ∨ options.variableMultiply = true)
    (read : parseLiteral token = .ok factor) (value : Decimal) :
    Confined (Unclaimed options) (implicitProduct options.context factor value) := by
  rw [implicitProduct]
  split
  · rename_i f failed
    exact confined_throw ⟨enabled, token, factor, value, read, failed⟩
  · exact confined_pure _

/-- What follows on reading a factor need only be considered for factors that can be read. -/
theorem factor_confined {token : List Char} {f : Decimal → Evaluation Decimal}
    (h : ∀ factor, parseLiteral token = .ok factor → Confined (Unclaimed options) (f factor)) :
    Confined (Unclaimed options) (ofExcept (parseLiteral token) >>= f) := by
  have literal := @parseLiteral_confined options token
  cases read : parseLiteral token with
  | ok factor => exact h factor read
  | error failure =>
    rw [read] at literal
    intro s other s' thrown
    cases thrown
    exact literal s failure s rfl

theorem wordValue_confined (family : Family) (id : EnvId) (token : List Char) :
    Confined (Unclaimed (family.options id)) (wordValue setting family id token) := by
  rw [wordValue]
  dsimp only
  split
  · rename_i factored
    have enabled := (Bool.and_eq_true_iff.mp factored).1
    refine factor_confined fun factor read => ?_
    exact confined_bind (variableValue_confined setting family id _) fun value =>
      implicitProduct_confined (.inr enabled) read value
  · exact variableValue_confined setting family id _

end

section

variable (setting : Setting) {inner : Inner} {family : Family} {id : EnvId}
  (hinner : ∀ text, Confined (Unclaimed (family.options id)) (inner family id text))

include hinner

theorem evaluateAll_confined (texts : List (List Char)) :
    Confined (Unclaimed (family.options id)) (evaluateAll inner family id texts) := by
  induction texts with
  | nil => exact confined_pure []
  | cons text rest ih =>
    exact confined_bind (hinner text) fun _ => confined_bind ih fun _ => confined_pure _

/-- A call leaves only what its arguments leave, and the product with a factor in place of a name:
the run of the function is claimed as a whole. -/
theorem callValue_confined (token arguments : List Char) :
    Confined (Unclaimed (family.options id))
      (callValue setting inner family id token arguments) := by
  rw [callValue]
  dsimp only
  split
  · rename_i factored
    have enabled := (Bool.and_eq_true_iff.mp factored).1
    refine factor_confined fun factor read => ?_
    exact confined_bind (hinner arguments) fun value =>
      implicitProduct_confined (.inl enabled) read value
  · split
    · exact confined_throw trivial
    · split
      · exact confined_throw trivial
      · refine confined_bind (evaluateAll_confined hinner _) fun values => ?_
        exact confined_bind (reportEvent_confined setting _) fun _ => within_confined _ _

theorem operandValue_confined (operand : Operand) :
    Confined (Unclaimed (family.options id)) (operandValue setting inner family id operand) := by
  induction operand with
  | missing => exact confined_throw trivial
  | negative operand ih => exact confined_bind ih fun _ => confined_pure _
  | bracket text => exact hinner text
  | call name arguments => exact callValue_confined setting hinner name arguments
  | numeral token => exact parseLiteral_confined token
  | word token => exact wordValue_confined setting family id token

/-! ## Expressions -/

omit hinner in
theorem operatorOf_confined (symbol : List Char) :
    Confined (Unclaimed (family.options id)) (operatorOf family id symbol) := by
  unfold operatorOf
  extract_lets
  split
  · exact confined_throw trivial
  · exact confined_pure _

theorem parseRest_confined (rest : Continuation) : ∀ (chain : StepChain) (left : Decimal),
    Confined (Unclaimed (family.options id)) (parseRest setting inner family id chain left rest) := by
  induction rest with
  | done => exact fun _ _ => confined_pure _
  | broken form => exact fun _ _ => confined_throw trivial
  | brokenValue symbol form =>
    exact fun _ _ => confined_bind (operatorOf_confined symbol) fun _ => confined_throw trivial
  | clause symbol token next ih =>
    intro chain left
    refine confined_bind (operatorOf_confined symbol) fun binding => ?_
    exact confined_bind (operandValue_confined setting hinner _) fun right => ih _ right

theorem evaluateOpen_confined (text : List Char) :
    Confined (Unclaimed (family.options id)) (evaluateOpen setting inner family id text) := by
  refine confined_bind (reportEvent_confined setting _) fun _ => confined_bind ?_ fun chain =>
    confined_bind (reportEvent_confined setting _) fun _ => ?_
  · rw [parse]
    split
    · exact confined_throw trivial
    · exact confined_bind (operandValue_confined setting hinner _) fun first =>
        parseRest_confined setting hinner _ .empty first
  · intro s failure s' h
    rw [reduce] at h
    split at h
    · rename_i r run
      cases h
      exact Reduction.complete_confined _ _ _ failure r run
    · cases h

end

/-- Wherever an evaluation stands, only problems and faults of products that are not spelled out
leave it. -/
theorem evaluateAt_confined (setting : Setting) (family : Family) (id : EnvId) (room : Nat) :
    ∀ (depth : Nat) (text : List Char),
      Confined (Unclaimed (family.options id)) (evaluateAt setting room depth family id text) := by
  induction room with
  | zero =>
    intro depth text
    rw [evaluateAt]
    split
    · exact confined_throw trivial
    · exact confined_throw trivial
  | succ room ih =>
    intro depth text
    rw [evaluateAt]
    split
    · exact confined_throw trivial
    · exact evaluateOpen_confined setting (ih (depth + 1)) text

/-- A fault that leaves an evaluation comes from a product of a factor with what stands directly
behind it. Everything else that goes wrong is a problem, in every environment. -/
theorem evaluate_fault {setting : Setting} {family : Family} {id : EnvId} {text : String}
    {s s' : Session} {f : Fault}
    (h : evaluate setting family id text s = .error (.fault f) s') :
    FactorFault (family.options id) f :=
  evaluateAt_confined setting family id stackRoom 0 text.toList s (.fault f) s' h

/-- Where nothing stands for a factor, everything that goes wrong is a problem. -/
theorem evaluate_problem {setting : Setting} {family : Family} {id : EnvId} {text : String}
    {s s' : Session} {failure : Failure}
    (off : (family.options id).bracketMultiply = false ∧
      (family.options id).variableMultiply = false)
    (h : evaluate setting family id text s = .error failure s') :
    ∃ p, failure = .problem p := by
  cases failure with
  | problem p => exact ⟨p, rfl⟩
  | fault f =>
    have product : FactorFault (family.options id) f :=
      evaluateAt_confined setting family id stackRoom 0 text.toList s (.fault f) s' h
    have enabled := product.enabled
    rw [off.1, off.2] at enabled
    cases enabled with
    | inl on => cases on
    | inr on => cases on

end Evaluation

/-! ## A product that overflows -/

/-- The standard environment where factors may stand before variables, one of which is close to the
greatest number of its context. -/
def largeFamily : Family :=
  (Family.empty.addStandard.1.modifyOptions 0 fun options =>
    { options with variableMultiply := true }).register 0 .vars "x"
      (some (.fixed (.finite false 9 999999)))

theorem largeFamily_built : largeFamily.Built := by
  have set : (Family.empty.addStandard.1.modifyOptions 0 fun options =>
      { options with variableMultiply := true }).setVariable 0 (some "x")
        (.number (.finite false 9 999999)) = .ok largeFamily := rfl
  exact .setVariable (.setOptions (Family.built_addStandard .empty)) set

/-- The product with a factor leaves its fault unclaimed, where the operator claims the same one. -/
theorem factor_overflow : largeFamily.Built ∧
    failure? (Evaluation.evaluate ⟨0, false⟩ largeFamily 0 "2x" (.start 0)) =
      some (.fault (.overflow false)) ∧
    failure? (Evaluation.evaluate ⟨0, false⟩ largeFamily 0 "2 * x" (.start 0)) =
      some (.ofCause (.evaluation (some "*") (.overflow false))) :=
  ⟨largeFamily_built, by decide +kernel, by decide +kernel⟩

theorem factor_overflow_fault : ∃ s',
    Evaluation.evaluate ⟨0, false⟩ largeFamily 0 "2x" (.start 0) =
      .error (.fault (.overflow false)) s' ∧
    FactorFault (largeFamily.options 0) (.overflow false) := by
  obtain ⟨s', run⟩ := failure?_eq_some.mp (show
    failure? (Evaluation.evaluate ⟨0, false⟩ largeFamily 0 "2x" (.start 0)) =
      some (.fault (.overflow false)) by decide +kernel)
  exact ⟨s', run, Evaluation.evaluate_fault run⟩

end Calculator
