import Calculator.Proofs.OperatorOrder
import Calculator.Proofs.Parsing

/-!
# Calculator.Proofs.FailingPoints

Where an expression fails, and how that is told.

The tokens of an expression are resolved from left to right: a symbol before the value at its right,
and a bracket, the arguments of a call and the body of a function completely before what follows.
Only then are operators applied, in the order of `OperatorFails`. The failing point is the first in
this order at which something fails.

* `Point`: a place, told by what encloses it, and what is raised there.
* `Point.cause`, `Point.message`: what is raised, and its text after the names of the functions whose
  run is going on at that place.
* `TextFails` and the relations it rests on, one for each kind of thing that is evaluated: a rule for
  each place that may fail, whose premises say that everything before that place succeeds.
* `TextFailsAt`: the same for an expression with everything inside of it.
-/

namespace Calculator

/-! ## Points -/

/-- What encloses a place, inside of an expression. -/
inductive Frame where
  /-- A bracket that holds no arguments. -/
  | bracket
  /-- An argument of a function, whose run has not begun. -/
  | argument (function : String)
  /-- The run of a function. -/
  | run (function : String)
  deriving DecidableEq, Repr

def Frame.running? : Frame → Option String
  | run function => some function
  | _ => none

/-- A place that fails. -/
structure Point where
  /-- What encloses the place, outermost first. -/
  frames : List Frame
  /-- The symbol of the operator that is applied there, if one is. -/
  operator : Option String
  /-- What is raised there. -/
  raised : Failure
  deriving DecidableEq, Repr

namespace Point

def here (failure : Failure) : Point := ⟨[], none, failure⟩

def atOperator (symbol : String) (failure : Failure) : Point := ⟨[], some symbol, failure⟩

def inside (frame : Frame) (p : Point) : Point := { p with frames := frame :: p.frames }

/-- The functions whose run is going on, outermost first. -/
def running (p : Point) : List String := p.frames.filterMap Frame.running?

/-- What is raised, without the functions whose run is going on. A fault has become a failed
evaluation. -/
def cause (p : Point) : Cause :=
  match p.raised with
  | .problem q => q.cause
  | .fault f => .evaluation p.operator f

/-- The text of what is raised. A fault has its description, after the symbol of its operator. -/
def text (p : Point) : String :=
  match p.raised, p.operator with
  | .problem q, _ => q.message
  | .fault f, none => f.describe
  | .fault f, some symbol => symbol ++ ": " ++ f.describe

/-- The text after the names of the functions whose run is going on; alone if nesting is too deep. -/
def message (p : Point) : String :=
  if p.cause.isLocated then p.running.foldr (fun name text => name ++ ": " ++ text) p.text
  else p.text

/-- What evaluation fails with. A fault that arises in no operator and no run of a function stays
what it is. -/
def reported (p : Point) : Failure :=
  match p.raised with
  | .problem q =>
    .problem (if q.cause.isLocated then ⟨p.running ++ q.callers, q.cause⟩ else q)
  | .fault f =>
    if p.operator = none ∧ p.running = [] then .fault f
    else .problem ⟨p.running, .evaluation p.operator f⟩

theorem reported_here (failure : Failure) : (here failure).reported = failure := by
  cases failure with
  | fault f => rfl
  | problem q => simp [here, reported, running]

theorem reported_atOperator (symbol : String) (failure : Failure) :
    (atOperator symbol failure).reported = failure.atOperator symbol := by
  cases failure with
  | fault f => rfl
  | problem q => simp [atOperator, reported, running, Failure.atOperator]

/-- What encloses a place leaves the failure as it is, unless it is the run of a function. -/
theorem reported_inside {frame : Frame} (passive : frame.running? = none) (p : Point) :
    (p.inside frame).reported = p.reported := by
  have same : (p.inside frame).running = p.running := List.filterMap_cons_none passive
  rw [reported, reported, same]
  rfl

theorem reported_run (name : String) (p : Point) :
    (p.inside (.run name)).reported = p.reported.within name := by
  have more : (p.inside (.run name)).running = name :: p.running := rfl
  rw [reported, reported, more]
  obtain ⟨frames, operator, raised⟩ := p
  cases raised with
  | problem q =>
    cases located : q.cause.isLocated with
    | true => simp [inside, located, Failure.within, Problem.within]
    | false => simp [inside, located, Failure.within]
  | fault f =>
    by_cases alone : operator = none ∧ (⟨frames, operator, .fault f⟩ : Point).running = []
    · obtain ⟨rfl, none⟩ := alone
      simp [inside, none, Failure.within]
    · simp [inside, alone, Failure.within, Problem.within, Cause.isLocated]

/-- A point that is reported as a problem, is reported as its cause and with its message. -/
theorem reported_problem {p : Point} {e : Problem} (h : p.reported = .problem e) :
    e.cause = p.cause ∧ e.message = p.message := by
  obtain ⟨frames, operator, raised⟩ := p
  cases raised with
  | problem q =>
    obtain rfl := Failure.problem.inj h
    cases located : q.cause.isLocated with
    | true => simp [cause, message, text, located, Problem.message]
    | false => simp [cause, message, text, located]
  | fault f =>
    rw [reported] at h
    dsimp only at h
    split at h
    · cases h
    · obtain rfl := Failure.problem.inj h
      cases operator <;> exact ⟨rfl, rfl⟩

end Point

namespace Evaluation

/-! ## What fails where -/

/-- A session with one more event, if events are reported. -/
def noted (setting : Setting) (event : Event) (s : Session) : Session :=
  if setting.tracing then { s with events := event :: s.events } else s

/-- The points at which expressions inside of an expression fail. -/
abbrev InnerPoints := Family → EnvId → List Char → Session → Point → Prop

section

variable (setting : Setting) (inner : Inner) (points : InnerPoints)

/-- The first of several expressions that fails, when they are evaluated one after another. -/
inductive ArgumentFails (family : Family) (id : EnvId) :
    List (List Char) → Session → Point → Prop where
  | here {text : List Char} {rest : List (List Char)} {s : Session} {p : Point} :
      points family id text s p → ArgumentFails family id (text :: rest) s p
  | later {text : List Char} {rest : List (List Char)} {value : Decimal} {s s' : Session}
      {p : Point} :
      inner family id text s = .ok value s' → ArgumentFails family id rest s' p →
      ArgumentFails family id (text :: rest) s p

/-- The environment in which the expressions of a function are evaluated. -/
def entered (family : Family) (id : EnvId) (f : UserFunction) (values : List Decimal) :
    Except Refusal (Family × EnvId) :=
  let (family, scope) := family.overlay (f.scope.getD id)
  match bindParameters family scope f.parameters values with
  | .error refusal => .error refusal
  | .ok bound => .ok (bound, scope)

/-- What fails in the environment of a function: its condition, and then the expression that the
condition chooses. -/
inductive BodyFails (bound : Family) (scope : EnvId) (f : UserFunction) :
    Session → Point → Prop where
  | body {s : Session} {p : Point} : f.guard = none → points bound scope f.body.toList s p →
      BodyFails bound scope f s p
  | condition {guard : Guard} {s : Session} {p : Point} : f.guard = some guard →
      points bound scope guard.condition.toList s p → BodyFails bound scope f s p
  | result {guard : Guard} {value : Decimal} {s s' : Session} {p : Point} : f.guard = some guard →
      inner bound scope guard.condition.toList s = .ok value s' → value.sameValue .one = true →
      points bound scope guard.result.toList s' p → BodyFails bound scope f s p
  | otherwise {guard : Guard} {value : Decimal} {s s' : Session} {p : Point} :
      f.guard = some guard → inner bound scope guard.condition.toList s = .ok value s' →
      value.sameValue .one = false → points bound scope f.body.toList s' p →
      BodyFails bound scope f s p

/-- What fails in the run of a user function: the number of its arguments, the binding of its
parameters, or its body. -/
inductive UserFails (family : Family) (id : EnvId) (f : UserFunction) (values : List Decimal) :
    Session → Point → Prop where
  | arity {s : Session} : values.length ≠ f.parameters.length →
      UserFails family id f values s
        (.here (.ofCause (.arity (.exactly f.parameters.length) values.length)))
  | refused {refusal : Refusal} {s : Session} : values.length = f.parameters.length →
      entered family id f values = .error refusal →
      UserFails family id f values s (.here (.refused refusal))
  | body {bound : Family} {scope : EnvId} {s : Session} {p : Point} :
      values.length = f.parameters.length → entered family id f values = .ok (bound, scope) →
      BodyFails inner points bound scope f s p → UserFails family id f values s p

/-- What fails in the run of a native function: the number of its arguments, or its result. -/
inductive NativeFails (ctx : Context) (f : NativeFunction) (values : List Decimal) (s : Session) :
    Point → Prop where
  | arity : f.accepts values.length = false →
      NativeFails ctx f values s (.here (.ofCause (.arity f.arity values.length)))
  | plain {run : Context → List Decimal → Except Failure Decimal} {failure : Failure} :
      f.accepts values.length = true → f.body = .plain run → run ctx values = .error failure →
      NativeFails ctx f values s (.here failure)
  | drawing {run : Context → Decimal → List Decimal → Except Failure Decimal} {failure : Failure} :
      f.accepts values.length = true → f.body = .drawing run →
      run ctx (fractionOf (nextSeed s.seed)) values = .error failure →
      NativeFails ctx f values s (.here failure)

/-- What fails in the run of a function. -/
inductive RunFails (family : Family) (id : EnvId) (values : List Decimal) (s : Session) (p : Point) :
    Function → Prop where
  | native {f : NativeFunction} : NativeFails (family.options id).context f values s p →
      RunFails family id values s p (.native f)
  | user {f : UserFunction} : UserFails inner points family id f values s p →
      RunFails family id values s p (.user f)

/-- What fails of a product with a factor before a bracket: the factor, the bracket, and then the
multiplication. -/
inductive ProductFails (family : Family) (id : EnvId) (token arguments : List Char) :
    Session → Point → Prop where
  | factor {failure : Failure} {s : Session} : parseLiteral token = .error failure →
      ProductFails family id token arguments s (.here failure)
  | bracket {factor : Decimal} {s : Session} {p : Point} : parseLiteral token = .ok factor →
      points family id arguments s p → ProductFails family id token arguments s (p.inside .bracket)
  | product {factor value : Decimal} {f : Fault} {s s' : Session} :
      parseLiteral token = .ok factor → inner family id arguments s = .ok value s' →
      factor.multiply (family.options id).context value = .error f →
      ProductFails family id token arguments s (.here (.fault f))

/-- What fails of a call of a function: its name, the commas, the arguments from left to right, and
then the run. -/
inductive FunctionFails (family : Family) (id : EnvId) (name : String) (arguments : List Char) :
    Session → Point → Prop where
  | undefined {s : Session} : family.lookup id .functions name = none →
      FunctionFails family id name arguments s (.here (.undefined .functions name))
  | malformed {f : Function} {form : Malformation} {s : Session} :
      family.lookup id .functions name = some f → splitArguments arguments = .error form →
      FunctionFails family id name arguments s (.here (.malformed form))
  | argument {f : Function} {texts : List (List Char)} {s : Session} {p : Point} :
      family.lookup id .functions name = some f → splitArguments arguments = .ok texts →
      ArgumentFails inner points family id texts s p →
      FunctionFails family id name arguments s (p.inside (.argument name))
  | run {f : Function} {texts : List (List Char)} {values : List Decimal} {s s' : Session}
      {p : Point} :
      family.lookup id .functions name = some f → splitArguments arguments = .ok texts →
      evaluateAll inner family id texts s = .ok values s' →
      RunFails inner points family id values (noted setting (.call name values) s') p f →
      FunctionFails family id name arguments s (p.inside (.run name))

/-- Whether a numeral may stand for the name of a call, as a factor, and one does. -/
def IsFactor (family : Family) (id : EnvId) (token : List Char) : Prop :=
  ((family.options id).bracketMultiply && token.all isFactorSymbol) = true

/-- Whether a factor may stand before a variable, and one does. -/
def BeginsWithFactor (family : Family) (id : EnvId) (token : List Char) : Prop :=
  ((family.options id).variableMultiply && (token.head?.map isFactorSymbol).getD false) = true

/-- What fails of a call. -/
inductive CallFails (family : Family) (id : EnvId) (token arguments : List Char) (s : Session)
    (p : Point) : Prop where
  | product : IsFactor family id token →
      ProductFails inner points family id token arguments s p → CallFails family id token arguments s p
  | function : ¬ IsFactor family id token →
      FunctionFails setting inner points family id (String.ofList token) arguments s p →
      CallFails family id token arguments s p

/-- What fails of a word: its factor, if it may begin with one and does, then the name of a variable,
and then the multiplication. -/
inductive WordFails (family : Family) (id : EnvId) (token : List Char) : Point → Prop where
  | factor {failure : Failure} : BeginsWithFactor family id token →
      parseLiteral (token.takeWhile isFactorSymbol) = .error failure →
      WordFails family id token (.here failure)
  | multiplied {factor : Decimal} : BeginsWithFactor family id token →
      parseLiteral (token.takeWhile isFactorSymbol) = .ok factor →
      family.lookup id .vars (String.ofList (token.dropWhile isFactorSymbol)) = none →
      WordFails family id token
        (.here (.undefined .vars (String.ofList (token.dropWhile isFactorSymbol))))
  | product {factor : Decimal} {v : Variable} {f : Fault} : BeginsWithFactor family id token →
      parseLiteral (token.takeWhile isFactorSymbol) = .ok factor →
      family.lookup id .vars (String.ofList (token.dropWhile isFactorSymbol)) = some v →
      factor.multiply (family.options id).context (family.valueOf setting.now v) = .error f →
      WordFails family id token (.here (.fault f))
  | undefined : ¬ BeginsWithFactor family id token →
      family.lookup id .vars (String.ofList token) = none →
      WordFails family id token (.here (.undefined .vars (String.ofList token)))

/-- What fails of an operand. -/
inductive OperandFails (family : Family) (id : EnvId) : Operand → Session → Point → Prop where
  | missing {s : Session} :
      OperandFails family id .missing s (.here (.malformed .missingValue))
  | negative {operand : Operand} {s : Session} {p : Point} :
      OperandFails family id operand s p → OperandFails family id (.negative operand) s p
  | bracket {text : List Char} {s : Session} {p : Point} : points family id text s p →
      OperandFails family id (.bracket text) s (p.inside .bracket)
  | call {name arguments : List Char} {s : Session} {p : Point} :
      CallFails setting inner points family id name arguments s p →
      OperandFails family id (.call name arguments) s p
  | numeral {token : List Char} {failure : Failure} {s : Session} :
      parseLiteral token = .error failure →
      OperandFails family id (.numeral token) s (.here failure)
  | word {token : List Char} {s : Session} {p : Point} : WordFails setting family id token p →
      OperandFails family id (.word token) s p

/-- What fails after the first value of an expression: the first symbol or value, or else the place
where the text breaks off. -/
inductive RestFails (family : Family) (id : EnvId) : Continuation → Session → Point → Prop where
  | broken {form : Malformation} {s : Session} :
      RestFails family id (.broken form) s (.here (.malformed form))
  | lastSymbol {symbol : List Char} {form : Malformation} {s : Session} :
      family.lookup id .operators (String.ofList symbol) = none →
      RestFails family id (.brokenValue symbol form) s
        (.here (.undefined .operators (String.ofList symbol)))
  | brokenValue {symbol : List Char} {form : Malformation} {operator : Binding} {s : Session} :
      family.lookup id .operators (String.ofList symbol) = some operator →
      RestFails family id (.brokenValue symbol form) s (.here (.malformed form))
  | symbol {symbol token : List Char} {next : Continuation} {s : Session} :
      family.lookup id .operators (String.ofList symbol) = none →
      RestFails family id (.clause symbol token next) s
        (.here (.undefined .operators (String.ofList symbol)))
  | value {symbol token : List Char} {next : Continuation} {operator : Binding} {s : Session}
      {p : Point} :
      family.lookup id .operators (String.ofList symbol) = some operator →
      OperandFails setting inner points family id (.ofToken token) s p →
      RestFails family id (.clause symbol token next) s p
  | later {symbol token : List Char} {next : Continuation} {operator : Binding} {value : Decimal}
      {s s' : Session} {p : Point} :
      family.lookup id .operators (String.ofList symbol) = some operator →
      operandValue setting inner family id (.ofToken token) s = .ok value s' →
      RestFails family id next s' p → RestFails family id (.clause symbol token next) s p

/-- What fails of an expression: its first value, what follows it, or, when everything is resolved,
the first operator to fail. -/
inductive TextFails (family : Family) (id : EnvId) (text : List Char) (s : Session) :
    Point → Prop where
  | unreadable {form : Malformation} : Phrase.read text = .error form →
      TextFails family id text s (.here (.malformed form))
  | first {phrase : Phrase} {p : Point} : Phrase.read text = .ok phrase →
      OperandFails setting inner points family id (.ofToken phrase.first) s p →
      TextFails family id text s p
  | rest {phrase : Phrase} {value : Decimal} {s' : Session} {p : Point} :
      Phrase.read text = .ok phrase →
      operandValue setting inner family id (.ofToken phrase.first) s = .ok value s' →
      RestFails setting inner points family id phrase.rest s' p → TextFails family id text s p
  | operator {token : List Char} {tokens : List (List Char × List Char)} {first : Decimal}
      {cs : List Clause} {s' s'' : Session} {operator : Binding} {raised : Failure} :
      Phrase.read text = .ok ⟨token, .ofTokens tokens⟩ →
      operandValue setting inner family id (.ofToken token) s = .ok first s' →
      readClauses setting inner family id tokens s' = .ok cs s'' →
      OperatorFails (family.options id).context first cs operator raised →
      TextFails family id text s (.atOperator operator.symbol raised)

end

/-- What fails of an expression while `depth` others are open and there is room for `room` more:
the opening of it, or what is in it. -/
def TextFailsAt (setting : Setting) : Nat → Nat → InnerPoints
  | room, depth, family, id, text, s, p =>
    let most := (family.options id).maxDepth
    if most < depth + 1 then p = .here (.tooDeep (.limit most))
    else
      match room with
      | 0 => p = .here (.tooDeep .stack)
      | room + 1 =>
        TextFails setting (evaluateAt setting room (depth + 1))
          (TextFailsAt setting room (depth + 1)) family id text
          (noted setting (.parsing (String.ofList text)) s) p

end Evaluation
end Calculator
