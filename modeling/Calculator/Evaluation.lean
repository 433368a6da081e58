import Calculator.Decimal.Arithmetic
import Calculator.Environment.Registration
import Calculator.Lexer
import Calculator.Reduction

/-!
# Calculator.Evaluation

Evaluation of expressions. The tokens of an expression are resolved from left to right into a
chain, which is then reduced. Bracketed spans, arguments, and the bodies of user functions are
expressions of their own, evaluated while the outer one is open.

An environment limits how many expressions may be open at once. Besides, there is room for so many
of them only, as each takes a part of the machine's stack: any room in `evaluateAt`, and `stackRoom`
in `evaluate`.
-/

namespace Calculator

/-- What evaluation takes from outside: the time, in milliseconds since 1970, and whether to report
on its course. -/
structure Setting where
  now : Int
  tracing : Bool
  deriving DecidableEq, Repr

/-- What evaluation leaves behind: its report, the newest event first, and the state of the random
number generator. -/
structure Session where
  events : List Event
  seed : Nat

def Session.start (seed : Nat) : Session := ⟨[], seed⟩

/-- The report from the beginning on. -/
def Session.report (session : Session) : List String := (session.events.map Event.line).reverse

abbrev Evaluation := EStateM Failure Session

/-- How many expressions `evaluate` has room for at once. The bound is this library's own and
stands for the machine's stack, on which a run ends between 110 and 141 open expressions, by the
kind of nesting; up to 100 there is room for every kind. -/
def stackRoom : Nat := 140

namespace Evaluation

def ofExcept {α : Type} : Except Failure α → Evaluation α
  | .ok a => pure a
  | .error failure => throw failure

def reportEvent (setting : Setting) (event : Unit → Event) : Evaluation Unit :=
  modify fun s => if setting.tracing then { s with events := event () :: s.events } else s

/-- The state of the random number generator that follows a state. The generator is this library's
own; all that is used of what it gives is that it is finite. -/
def nextSeed (seed : Nat) : Nat :=
  (seed * 6364136223846793005 + 1442695040888963407) % 18446744073709551616

/-- The fraction that a state of the generator gives: at least zero and less than one. Its
seventeen digits come from the upper half of the state. -/
def fractionOf (seed : Nat) : Decimal :=
  .finite false (seed % 18446744073709551616 / 4294967296 * tenPow 17 / 4294967296) (-17)

def draw : Evaluation Decimal := do
  let seed := nextSeed (← get).seed
  modify fun s => { s with seed := seed }
  return fractionOf seed

/-- A run of a function, whose failures are named after it. -/
def within {α : Type} (name : String) (run : Evaluation α) : Evaluation α := fun s =>
  match run s with
  | .error failure s => .error (failure.within name) s
  | .ok a s => .ok a s

/-- How expressions inside an expression are evaluated. -/
abbrev Inner := Family → EnvId → List Char → Evaluation Decimal

/-! ## Calls -/

def callNative (ctx : Context) (f : NativeFunction) (arguments : List Decimal) :
    Evaluation Decimal := do
  if !f.accepts arguments.length then
    throw (.ofCause (.arity f.arity arguments.length))
  match f.body with
  | .plain run => ofExcept (run ctx arguments)
  | .drawing run => do
    let fraction ← draw
    ofExcept (run ctx fraction arguments)

/-- Lets parameters stand for arguments. -/
def bindParameters (family : Family) (id : EnvId) : List String → List Decimal →
    Except Refusal Family
  | name :: names, value :: values =>
    match family.setVariable id (some name) (.number value) with
    | .error refusal => .error refusal
    | .ok family => bindParameters family id names values
  | _, _ => .ok family

/-- Calls a user function: its parameters are bound in an overlay of its environment, or of the
calling one, and its body is evaluated there; or the other expression, when its condition gives
one. A condition that is a signaling NaN, which only a constant or a native function of the host
can bring in, counts as false, where a comparison that signals would end in a fault. -/
def callUser (inner : Inner) (family : Family) (id : EnvId) (f : UserFunction)
    (arguments : List Decimal) : Evaluation Decimal := do
  if arguments.length ≠ f.parameters.length then
    throw (.ofCause (.arity (.exactly f.parameters.length) arguments.length))
  let (family, scope) := family.overlay (f.scope.getD id)
  match bindParameters family scope f.parameters arguments with
  | .error refusal => throw (.refused refusal)
  | .ok family =>
    match f.guard with
    | none => inner family scope f.body.toList
    | some guard => do
      let condition ← inner family scope guard.condition.toList
      if condition.sameValue .one then inner family scope guard.result.toList
      else inner family scope f.body.toList

def callFunction (inner : Inner) (family : Family) (id : EnvId) (arguments : List Decimal) :
    Function → Evaluation Decimal
  | .native f => callNative (family.options id).context f arguments
  | .user f => callUser inner family id f arguments

/-- Evaluates arguments from left to right. -/
def evaluateAll (inner : Inner) (family : Family) (id : EnvId) :
    List (List Char) → Evaluation (List Decimal)
  | [] => return []
  | text :: rest => do
    let value ← inner family id text
    return value :: (← evaluateAll inner family id rest)

/-! ## Values -/

/-- The characters of a factor directly before what it multiplies. -/
def isFactorSymbol (c : Char) : Bool := isAsciiDigit c || c == '-' || c == '.'

def variableValue (setting : Setting) (family : Family) (id : EnvId) (name : String) :
    Evaluation Decimal :=
  match family.lookup id .vars name with
  | none => throw (.undefined .vars name)
  | some v => return family.valueOf setting.now v

def implicitProduct (ctx : Context) (factor value : Decimal) : Evaluation Decimal :=
  match factor.multiply ctx value with
  | .error f => throw (.fault f)
  | .ok product => return product

/-- The value of a word: that of a variable, possibly after a factor. -/
def wordValue (setting : Setting) (family : Family) (id : EnvId) (token : List Char) :
    Evaluation Decimal := do
  let options := family.options id
  if options.variableMultiply && (token.head?.map isFactorSymbol).getD false then
    let factor ← ofExcept (parseLiteral (token.takeWhile isFactorSymbol))
    let name := String.ofList (token.dropWhile isFactorSymbol)
    implicitProduct options.context factor (← variableValue setting family id name)
  else variableValue setting family id (String.ofList token)

/-- The value of a call: what the function gives, or a product with a factor in place of a name.
For the positional texts of the arguments there is assumed to be memory, as in
`Reduction.resolve`. -/
def callValue (setting : Setting) (inner : Inner) (family : Family) (id : EnvId)
    (token arguments : List Char) : Evaluation Decimal := do
  let options := family.options id
  if options.bracketMultiply && token.all isFactorSymbol then
    let factor ← ofExcept (parseLiteral token)
    implicitProduct options.context factor (← inner family id arguments)
  else
    let name := String.ofList token
    match family.lookup id .functions name with
    | none => throw (.undefined .functions name)
    | some f =>
      match splitArguments arguments with
      | .error form => throw (.malformed form)
      | .ok texts => do
        let values ← evaluateAll inner family id texts
        reportEvent setting fun _ => .call name values
        within name (callFunction inner family id values f)

def operandValue (setting : Setting) (inner : Inner) (family : Family) (id : EnvId) :
    Operand → Evaluation Decimal
  | .missing => throw (.malformed .missingValue)
  | .negative operand => do
    let value ← operandValue setting inner family id operand
    return value.negate
  | .bracket text => inner family id text
  | .call name arguments => callValue setting inner family id name arguments
  | .numeral token => ofExcept (parseLiteral token)
  | .word token => wordValue setting family id token

/-! ## Expressions -/

def operatorOf (family : Family) (id : EnvId) (symbol : List Char) : Evaluation Binding :=
  let symbol := String.ofList symbol
  match family.lookup id .operators symbol with
  | none => throw (.undefined .operators symbol)
  | some binding => return binding

/-- Extends a chain, whose last value is `left`, by what follows. -/
def parseRest (setting : Setting) (inner : Inner) (family : Family) (id : EnvId) :
    StepChain → Decimal → Continuation → Evaluation StepChain
  | chain, left, .done => return if chain.steps.isEmpty then .ofValue left else chain
  | _, _, .broken form => throw (.malformed form)
  | _, _, .brokenValue symbol form => do
    let _ ← operatorOf family id symbol
    throw (.malformed form)
  | chain, left, .clause symbol token next => do
    let binding ← operatorOf family id symbol
    let right ← operandValue setting inner family id (.ofToken token)
    let step : Step :=
      { left := left, operation := binding.operation, right := right
        precedence := binding.precedence, symbol := binding.symbol }
    parseRest setting inner family id (chain.append step) right next

/-- The chain of an expression, all of whose values are resolved. -/
def parse (setting : Setting) (inner : Inner) (family : Family) (id : EnvId)
    (text : List Char) : Evaluation StepChain :=
  match Phrase.read text with
  | .error form => throw (.malformed form)
  | .ok phrase => do
    let first ← operandValue setting inner family id (.ofToken phrase.first)
    parseRest setting inner family id .empty first phrase.rest

/-- Reduces the chain of an expression, which has at least one step. -/
def reduce (setting : Setting) (ctx : Context) (chain : StepChain) : Evaluation Decimal := fun s =>
  match (Reduction.complete ctx setting.tracing) (.start chain) with
  | .error failure r => .error failure { s with events := r.events ++ s.events }
  | .ok value r => .ok (value.getD .zero) { s with events := r.events ++ s.events }

def evaluateOpen (setting : Setting) (inner : Inner) (family : Family) (id : EnvId)
    (text : List Char) : Evaluation Decimal := do
  reportEvent setting fun _ => .parsing (String.ofList text)
  let chain ← parse setting inner family id text
  reportEvent setting fun _ => .evaluating
  reduce setting (family.options id).context chain

/-- Evaluates an expression while `depth` others are open and there is room for `room` more. -/
def evaluateAt (setting : Setting) : Nat → Nat → Inner
  | room, depth, family, id, text =>
    let most := (family.options id).maxDepth
    if most < depth + 1 then throw (.tooDeep (.limit most))
    else
      match room with
      | 0 => throw (.tooDeep .stack)
      | room + 1 => evaluateOpen setting (evaluateAt setting room (depth + 1)) family id text

/-- Evaluates an expression in an environment. -/
def evaluate (setting : Setting) (family : Family) (id : EnvId) (text : String) :
    Evaluation Decimal :=
  evaluateAt setting stackRoom 0 family id text.toList

/-- The chain of an expression, before it is reduced. -/
def parseChain (setting : Setting) (family : Family) (id : EnvId) (text : String) :
    Evaluation StepChain :=
  parse setting (evaluateAt setting stackRoom 0) family id text.toList

end Evaluation

/-! ## Expressions as objects -/

/-- An expression with the environment it is evaluated in, and the value that the last successful
evaluation gave. -/
structure Expression where
  text : String
  environment : EnvId
  value : Option Decimal
  deriving DecidableEq, Repr

namespace Expression

/-- An expression that has not been evaluated; it has to have an environment. -/
def create (text : String) : Option EnvId → Except Refusal Expression
  | none => .error .absentEnvironment
  | some id => .ok ⟨text, id, none⟩

/-- Evaluates the expression and keeps the value. -/
def calculate (setting : Setting) (family : Family) (expression : Expression) :
    Evaluation Expression := do
  let value ← Evaluation.evaluate setting family expression.environment expression.text
  return { expression with value := some value }

/-- A short description of the expression, for inspection. -/
def inspect (expression : Expression) : String :=
  "<Expression " ++ quote expression.text ++ ">"

end Expression
end Calculator
