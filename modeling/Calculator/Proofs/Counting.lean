import Calculator.Proofs.Scopes
import Calculator.Proofs.Steps

/-!
# Calculator.Proofs.Counting

Evaluation on scopes, with a count of the expressions that are open. It knows no families: an
expression is evaluated in a map of names, and a user function in the map that it is bound to, or in
the calling one, with its parameters added. The counter goes up when an expression is opened and is
put back however its evaluation ends.

* `Counting.evaluateAt`: counted evaluation.
* `Counts`: a counted computation ends as an evaluation does, with the counter where it was.
* `evaluateAt_counts`: in environments that can be built, evaluation is counted evaluation.
-/

namespace Calculator

/-! ## Counted evaluation -/

/-- Where an evaluation has got: its session, how many expressions are open, and the largest number
that were open at once. -/
structure Count where
  session : Session
  level : Nat
  peak : Nat

def Count.start (session : Session) : Count := ⟨session, 0, 0⟩

abbrev Counting := EStateM Failure Count

/-- What a name of an operator stands for in a scope. -/
def Scope.operatorOf (scope : Scope) (symbol : List Char) : Evaluation Binding :=
  match scope.operators (String.ofList symbol) with
  | none => throw (.undefined .operators (String.ofList symbol))
  | some binding => return binding

def Scope.variableValue (scope : Scope) (name : String) : Evaluation Decimal :=
  match scope.vars name with
  | none => throw (.undefined .vars name)
  | some value => return value

def Scope.wordValue (scope : Scope) (token : List Char) : Evaluation Decimal := do
  if scope.options.variableMultiply &&
      (token.head?.map Evaluation.isFactorSymbol).getD false then
    let factor ← Evaluation.ofExcept (parseLiteral (token.takeWhile Evaluation.isFactorSymbol))
    let name := String.ofList (token.dropWhile Evaluation.isFactorSymbol)
    Evaluation.implicitProduct scope.options.context factor (← scope.variableValue name)
  else scope.variableValue (String.ofList token)

namespace Counting

section

variable {α : Type}

/-- A computation that opens no expression. -/
def lift (x : Evaluation α) : Counting α := fun c =>
  match x c.session with
  | .ok a s => .ok a { c with session := s }
  | .error failure s => .error failure { c with session := s }

/-- Opens an expression for a computation, and closes it however the computation ends. -/
def opened (x : Counting α) : Counting α := fun c =>
  match x { c with level := c.level + 1, peak := max c.peak (c.level + 1) } with
  | .ok a c' => .ok a { c' with level := c.level }
  | .error failure c' => .error failure { c' with level := c.level }

/-- A run of a function, whose failures are named after it. -/
def within (name : String) (x : Counting α) : Counting α := fun c =>
  match x c with
  | .ok a c' => .ok a c'
  | .error failure c' => .error (failure.within name) c'

end

/-- How expressions inside an expression are evaluated. -/
abbrev Inner := Scope → List Char → Counting Decimal

section

variable (setting : Setting) (inner : Inner) (bound : EnvId → Scope)

def callUser (scope : Scope) (f : UserFunction) (arguments : List Decimal) : Counting Decimal := do
  if arguments.length ≠ f.parameters.length then
    throw (.ofCause (.arity (.exactly f.parameters.length) arguments.length))
  match (f.scope.elim scope bound).bindParameters f.parameters arguments with
  | .error refusal => throw (.refused refusal)
  | .ok scope =>
    match f.guard with
    | none => inner scope f.body.toList
    | some guard => do
      let condition ← inner scope guard.condition.toList
      if condition.sameValue .one then inner scope guard.result.toList
      else inner scope f.body.toList

def callFunction (scope : Scope) (arguments : List Decimal) : Function → Counting Decimal
  | .native f => lift (Evaluation.callNative scope.options.context f arguments)
  | .user f => callUser inner bound scope f arguments

def evaluateAll (scope : Scope) : List (List Char) → Counting (List Decimal)
  | [] => return []
  | text :: rest => do
    let value ← inner scope text
    return value :: (← evaluateAll scope rest)

def callValue (scope : Scope) (token arguments : List Char) : Counting Decimal := do
  if scope.options.bracketMultiply && token.all Evaluation.isFactorSymbol then
    let factor ← lift (Evaluation.ofExcept (parseLiteral token))
    let value ← inner scope arguments
    lift (Evaluation.implicitProduct scope.options.context factor value)
  else
    match scope.functions (String.ofList token) with
    | none => throw (.undefined .functions (String.ofList token))
    | some f =>
      match splitArguments arguments with
      | .error form => throw (.malformed form)
      | .ok texts => do
        let values ← evaluateAll inner scope texts
        lift (Evaluation.reportEvent setting fun _ => .call (String.ofList token) values)
        within (String.ofList token) (callFunction inner bound scope values f)

def operandValue (scope : Scope) : Operand → Counting Decimal
  | .missing => throw (.malformed .missingValue)
  | .negative operand => do
    let value ← operandValue scope operand
    return value.negate
  | .bracket text => inner scope text
  | .call name arguments => callValue setting inner bound scope name arguments
  | .numeral token => lift (Evaluation.ofExcept (parseLiteral token))
  | .word token => lift (scope.wordValue token)

def parseRest (scope : Scope) : StepChain → Decimal → Continuation → Counting StepChain
  | chain, left, .done => return if chain.steps.isEmpty then .ofValue left else chain
  | _, _, .broken form => throw (.malformed form)
  | _, _, .brokenValue symbol form => do
    let _ ← lift (scope.operatorOf symbol)
    throw (.malformed form)
  | chain, left, .clause symbol token next => do
    let binding ← lift (scope.operatorOf symbol)
    let right ← operandValue setting inner bound scope (.ofToken token)
    let step : Step :=
      { left := left, operation := binding.operation, right := right
        precedence := binding.precedence, symbol := binding.symbol }
    parseRest scope (chain.append step) right next

def parse (scope : Scope) (text : List Char) : Counting StepChain :=
  match Phrase.read text with
  | .error form => throw (.malformed form)
  | .ok phrase => do
    let first ← operandValue setting inner bound scope (.ofToken phrase.first)
    parseRest setting inner bound scope .empty first phrase.rest

def evaluateOpen (scope : Scope) (text : List Char) : Counting Decimal := do
  lift (Evaluation.reportEvent setting fun _ => .parsing (String.ofList text))
  let chain ← parse setting inner bound scope text
  lift (Evaluation.reportEvent setting fun _ => .evaluating)
  lift (Evaluation.reduce setting scope.options.context chain)

end

/-- Evaluates an expression while there is room for `room` more. How many others are open is what
the counter says. -/
def evaluateAt (setting : Setting) (bound : EnvId → Scope) : Nat → Inner
  | room, scope, text => do
    let c ← get
    if scope.options.maxDepth < c.level + 1 then throw (.tooDeep (.limit scope.options.maxDepth))
    else
      match room with
      | 0 => throw (.tooDeep .stack)
      | room + 1 =>
        opened (evaluateOpen setting (evaluateAt setting bound room) bound scope text)

end Counting

/-! ## Counting what an evaluation does -/

section

variable {α β : Type}

/-- A counted computation has ended as an evaluation did, with as many expressions open as at its
beginning. -/
inductive Kept (c : Count) : EStateM.Result Failure Session α →
    EStateM.Result Failure Count α → Prop
  | ok {a : α} {s : Session} {peak : Nat} :
      c.peak ≤ peak → Kept c (.ok a s) (.ok a ⟨s, c.level, peak⟩)
  | error {failure : Failure} {s : Session} {peak : Nat} :
      c.peak ≤ peak → Kept c (.error failure s) (.error failure ⟨s, c.level, peak⟩)

/-- While `level` expressions are open, a counted computation ends as an evaluation does. -/
def Counts (level : Nat) (x : Evaluation α) (y : Counting α) : Prop :=
  ∀ c : Count, c.level = level → Kept c (x c.session) (y c)

variable {level : Nat}

theorem counts_pure (a : α) : Counts level (pure a) (pure a) := by
  intro c _
  exact .ok (Nat.le_refl _)

theorem counts_throw (failure : Failure) :
    Counts level (throw failure : Evaluation α) (throw failure) := by
  intro c _
  exact .error (Nat.le_refl _)

/-- A counted computation that goes by how many expressions are open. -/
theorem counts_get {x : Evaluation α} {g : Count → Counting α}
    (h : ∀ c : Count, c.level = level → Counts level x (g c)) : Counts level x (get >>= g) := by
  intro c at_level
  exact h c at_level c at_level

theorem counts_lift (x : Evaluation α) : Counts level x (Counting.lift x) := by
  intro c _
  rw [Counting.lift]
  cases x c.session with
  | ok a s => exact .ok (Nat.le_refl _)
  | error failure s => exact .error (Nat.le_refl _)

theorem counts_bind {x : Evaluation α} {y : Counting α} {f : α → Evaluation β}
    {g : α → Counting β} (hx : Counts level x y) (hf : ∀ a, Counts level (f a) (g a)) :
    Counts level (x >>= f) (y >>= g) := by
  intro c at_level
  have first := hx c at_level
  rw [bind_apply, bind_apply]
  generalize x c.session = p at first ⊢
  generalize y c = q at first ⊢
  cases first with
  | @ok a s peak le =>
    have second := hf a ⟨s, c.level, peak⟩ at_level
    dsimp only at second ⊢
    generalize f a s = p at second ⊢
    generalize g a ⟨s, c.level, peak⟩ = q at second ⊢
    cases second with
    | ok le' => exact .ok (Nat.le_trans le le')
    | error le' => exact .error (Nat.le_trans le le')
  | error le => exact .error le

theorem counts_within (name : String) {x : Evaluation α} {y : Counting α}
    (h : Counts level x y) : Counts level (Evaluation.within name x) (Counting.within name y) := by
  intro c at_level
  have run := h c at_level
  rw [Evaluation.within, Counting.within]
  generalize x c.session = p at run ⊢
  generalize y c = q at run ⊢
  cases run with
  | ok le => exact .ok le
  | error le => exact .error le

theorem counts_opened {x : Evaluation α} {y : Counting α} (h : Counts (level + 1) x y) :
    Counts level x (Counting.opened y) := by
  intro c at_level
  have run := h { c with level := c.level + 1, peak := max c.peak (c.level + 1) } (by rw [at_level])
  have raised := Nat.le_max_left c.peak (c.level + 1)
  rw [Counting.opened]
  dsimp only at run
  generalize x c.session = p at run ⊢
  generalize y { c with level := c.level + 1, peak := max c.peak (c.level + 1) } = q at run ⊢
  cases run with
  | ok le => exact .ok (Nat.le_trans raised le)
  | error le => exact .error (Nat.le_trans raised le)

end

/-! ## Evaluation is counted evaluation -/

namespace Evaluation

/-- Expressions inside an expression are counted, while `level` are open. -/
def InnerCounts (base : Family) (now : Int) (level : Nat) (inner : Inner)
    (counted : Counting.Inner) : Prop :=
  ∀ {family : Family} {id : EnvId} {scope : Scope} (text : List Char),
    base.Shows now family id scope → Counts level (inner family id text) (counted scope text)

section

variable {setting : Setting} {base family : Family} {id : EnvId} {scope : Scope} {level : Nat}
  {inner : Inner} {counted : Counting.Inner}

theorem operatorOf_scope (shows : base.Shows setting.now family id scope) (symbol : List Char) :
    operatorOf family id symbol = scope.operatorOf symbol := by
  rw [← shows.same]
  rfl

theorem variableValue_scope (shows : base.Shows setting.now family id scope) (name : String) :
    variableValue setting family id name = scope.variableValue name := by
  rw [← shows.same, variableValue, Scope.variableValue, Family.scope]
  dsimp only
  cases family.lookup id .vars name with
  | none => rfl
  | some v => rfl

theorem wordValue_scope (shows : base.Shows setting.now family id scope) (token : List Char) :
    wordValue setting family id token = scope.wordValue token := by
  have options : family.options id = scope.options := by rw [← shows.same]; rfl
  rw [wordValue, Scope.wordValue]
  simp only [variableValue_scope shows, options]

theorem evaluateAll_counts (inners : InnerCounts base setting.now level inner counted)
    (shows : base.Shows setting.now family id scope) (texts : List (List Char)) :
    Counts level (evaluateAll inner family id texts) (Counting.evaluateAll counted scope texts) := by
  induction texts with
  | nil => exact counts_pure []
  | cons text rest ih =>
    refine counts_bind (inners text shows) fun value => ?_
    exact counts_bind ih fun values => counts_pure (value :: values)

theorem callUser_counts (inners : InnerCounts base setting.now level inner counted)
    (built : base.Built) (shows : base.Shows setting.now family id scope) {f : UserFunction}
    (owned : ∀ owner, f.scope = some owner → owner < base.members.size)
    (arguments : List Decimal) :
    Counts level (callUser inner family id f arguments)
      (Counting.callUser counted (base.scope setting.now) scope f arguments) := by
  have binding := (shows.owner built owned).bindParameters f.parameters arguments
  unfold callUser Counting.callUser
  by_cases arity : arguments.length = f.parameters.length
  · simp only [arity, ne_eq, not_true_eq_false, if_false]
    cases bindings : (f.scope.elim scope (base.scope setting.now)).bindParameters f.parameters
        arguments with
    | error refusal =>
      rw [bindings] at binding
      rw [binding]
      exact counts_throw _
    | ok more =>
      rw [bindings] at binding
      obtain ⟨bound, run, there⟩ := binding
      rw [run]
      cases f.guard with
      | none => exact inners _ there
      | some guard =>
        refine counts_bind (inners _ there) fun condition => ?_
        split
        · exact inners _ there
        · exact inners _ there
  · simp only [arity, ne_eq, not_false_eq_true, if_true]
    exact counts_throw _

theorem callFunction_counts (inners : InnerCounts base setting.now level inner counted)
    (built : base.Built) (shows : base.Shows setting.now family id scope) {name : String}
    {f : Function} (found : scope.functions name = some f) (values : List Decimal) :
    Counts level (callFunction inner family id values f)
      (Counting.callFunction counted (base.scope setting.now) scope values f) := by
  cases f with
  | native f =>
    have options : family.options id = scope.options := by rw [← shows.same]; rfl
    rw [callFunction, Counting.callFunction, options]
    exact counts_lift _
  | user f => exact callUser_counts inners built shows (shows.owners name f found) values

theorem callValue_counts (inners : InnerCounts base setting.now level inner counted)
    (built : base.Built) (shows : base.Shows setting.now family id scope)
    (token arguments : List Char) :
    Counts level (callValue setting inner family id token arguments)
      (Counting.callValue setting counted (base.scope setting.now) scope token arguments) := by
  have options : family.options id = scope.options := by rw [← shows.same]; rfl
  have functions : family.lookup id .functions = scope.functions := by rw [← shows.same]; rfl
  unfold callValue Counting.callValue
  rw [options, functions]
  dsimp only
  split
  · refine counts_bind (counts_lift _) fun factor => ?_
    exact counts_bind (inners _ shows) fun value => counts_lift _
  · cases found : scope.functions (String.ofList token) with
    | none => exact counts_throw _
    | some f =>
      cases splitArguments arguments with
      | error form => exact counts_throw _
      | ok texts =>
        refine counts_bind (evaluateAll_counts inners shows texts) fun values => ?_
        refine counts_bind (counts_lift _) fun _ => counts_within _ ?_
        exact callFunction_counts inners built shows found values

theorem operandValue_counts (inners : InnerCounts base setting.now level inner counted)
    (built : base.Built) (shows : base.Shows setting.now family id scope) (operand : Operand) :
    Counts level (operandValue setting inner family id operand)
      (Counting.operandValue setting counted (base.scope setting.now) scope operand) := by
  induction operand with
  | missing => exact counts_throw _
  | negative operand ih => exact counts_bind ih fun value => counts_pure value.negate
  | bracket text => exact inners text shows
  | call name arguments => exact callValue_counts inners built shows name arguments
  | numeral token => exact counts_lift _
  | word token =>
    rw [operandValue, wordValue_scope shows]
    exact counts_lift _

theorem parseRest_counts (inners : InnerCounts base setting.now level inner counted)
    (built : base.Built) (shows : base.Shows setting.now family id scope) (rest : Continuation) :
    ∀ (chain : StepChain) (left : Decimal),
      Counts level (parseRest setting inner family id chain left rest)
        (Counting.parseRest setting counted (base.scope setting.now) scope chain left rest) := by
  induction rest with
  | done => exact fun _ _ => counts_pure _
  | broken form => exact fun _ _ => counts_throw _
  | brokenValue symbol form =>
    intro chain left
    rw [parseRest, operatorOf_scope shows]
    exact counts_bind (counts_lift _) fun _ => counts_throw _
  | clause symbol token next ih =>
    intro chain left
    rw [parseRest, operatorOf_scope shows]
    refine counts_bind (counts_lift _) fun binding => ?_
    refine counts_bind (operandValue_counts inners built shows _) fun right => ?_
    exact ih _ right

theorem evaluateOpen_counts (inners : InnerCounts base setting.now level inner counted)
    (built : base.Built) (shows : base.Shows setting.now family id scope) (text : List Char) :
    Counts level (evaluateOpen setting inner family id text)
      (Counting.evaluateOpen setting counted (base.scope setting.now) scope text) := by
  have options : family.options id = scope.options := by rw [← shows.same]; rfl
  unfold evaluateOpen Counting.evaluateOpen
  rw [options]
  refine counts_bind (counts_lift _) fun _ => counts_bind ?_ fun chain =>
    counts_bind (counts_lift _) fun _ => counts_lift _
  unfold parse Counting.parse
  cases Phrase.read text with
  | error form => exact counts_throw _
  | ok phrase =>
    refine counts_bind (operandValue_counts inners built shows _) fun first => ?_
    exact parseRest_counts inners built shows phrase.rest .empty first

/-- Evaluation is counted evaluation, and the counter is put back however it ends. The induction is
on the room that is left; all expressions inside of the text have less. -/
theorem evaluateAt_counts (setting : Setting) (built : base.Built) (room : Nat) :
    ∀ level, InnerCounts base setting.now level (evaluateAt setting room level)
      (Counting.evaluateAt setting (base.scope setting.now) room) := by
  induction room with
  | zero =>
    intro level family id scope text shows
    have options : family.options id = scope.options := by rw [← shows.same]; rfl
    rw [evaluateAt, Counting.evaluateAt, options]
    refine counts_get fun c at_level => ?_
    rw [at_level]
    split
    · exact counts_throw _
    · exact counts_throw _
  | succ room ih =>
    intro level family id scope text shows
    have options : family.options id = scope.options := by rw [← shows.same]; rfl
    rw [evaluateAt, Counting.evaluateAt, options]
    refine counts_get fun c at_level => ?_
    rw [at_level]
    split
    · exact counts_throw _
    · exact counts_opened (evaluateOpen_counts (ih (level + 1)) built shows text)

end

end Evaluation
end Calculator
