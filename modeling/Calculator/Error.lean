import Calculator.Fault

/-!
# Calculator.Error

What can go wrong with an expression, and how it is reported. A `Problem` is a cause together with
the functions in whose run it arose, outermost first; each puts its name before the message. A
`Failure` is a problem, or a fault that no operator and no function has claimed.
-/

namespace Calculator

/-- What is wrong with the form of an expression. -/
inductive Malformation where
  | missingValue
  | missingOperator
  | missingRight
  | brokenOperator
  | unmatchedOpen
  | unmatchedClose
  | trailingComma
  deriving DecidableEq, Repr

def Malformation.message : Malformation → String
  | missingValue => "Missing value."
  | missingOperator => "Missing operator between values."
  | missingRight => "Missing right-hand side of operator."
  | brokenOperator => "Invalid whitespace inside operator."
  | unmatchedOpen => "Unmatched '(' bracket."
  | unmatchedClose => "Unmatched ')' bracket."
  | trailingComma => "Trailing \",\" in function parameters."

/-- The kinds of things an environment gives names to. -/
inductive Kind where
  | operators
  | functions
  | vars
  deriving DecidableEq, Repr

/-- One thing of a kind, in words. -/
def Kind.word : Kind → String
  | operators => "operator"
  | functions => "function"
  | vars => "variable"

/-- How a missing thing of a kind is called. -/
def Kind.missingWord : Kind → String
  | operators => "Unknown"
  | functions => "Undeclared"
  | vars => "Undefined"

/-- What a name is given to. -/
inductive Role where
  | variableName
  | functionName
  | parameterName
  deriving DecidableEq, Repr

def Role.word : Role → String
  | variableName => "variable"
  | functionName => "function"
  | parameterName => "parameter"

/-- What is wrong with the name of a variable, function or parameter. -/
inductive NameProblem where
  | absent
  | empty
  | numericStart
  | bracket
  | character
  deriving DecidableEq, Repr

def NameProblem.message (role : Role) : NameProblem → String
  | absent => "The " ++ role.word ++ " name cannot be None!"
  | empty => "The " ++ role.word ++ " name cannot be empty!"
  | numericStart => "The " ++ role.word ++ " name cannot start with a numeric character!"
  | bracket => "The " ++ role.word ++ " name cannot contain \"(\" or \")\""
  | character => "The " ++ role.word ++ " name must be alphanumeric!"

/-- What is wrong with the symbol of an operator. -/
inductive SymbolProblem where
  | absent
  | empty
  | numeric
  | underscore
  | letter
  | blank
  deriving DecidableEq, Repr

def SymbolProblem.message : SymbolProblem → String
  | absent => "The operator cannot be None!"
  | empty => "The operator cannot be empty!"
  | numeric => "The operator cannot contain numeric characters!"
  | underscore => "The operator cannot contain underscores!"
  | letter => "The operator cannot contain alphabetic characters!"
  | blank => "The operator cannot contain whitespace!"

/-- Why something cannot be registered or set. -/
inductive Refusal where
  | name (role : Role) (problem : NameProblem)
  | symbol (problem : SymbolProblem)
  | absentValue
  | value (shown : String)
  | noFunction (name : String) (kind : String)
  | noOperation (symbol : String) (kind : String)
  | precedence (symbol : String)
  | absentContext
  | noContext (kind : String)
  | precision (digits : Int)
  | unknownContext (name : String)
  | absentEnvironment
  deriving DecidableEq, Repr

def Refusal.message : Refusal → String
  | name role problem => problem.message role
  | symbol problem => problem.message
  | absentValue => "The variable value cannot be None!"
  | value shown => "Invalid variable value \"" ++ shown ++ "\"."
  | noFunction key kind => "Expected a Function for \"" ++ key ++ "\", got " ++ kind
  | noOperation key kind => "Expected an Operation for \"" ++ key ++ "\", got " ++ kind
  | precedence key => "The precedence of \"" ++ key ++ "\" must be a non-negative integer."
  | absentContext => "The math context cannot be None!"
  | noContext kind => "Expected a decimal.Context, got " ++ kind
  | precision digits => "Invalid precision: " ++ toString digits
  | unknownContext key => "Unknown math context \"" ++ key ++ "\"."
  | absentEnvironment => "An Expression requires an environment."

/-- How many arguments a function takes: a fixed number, or a range in words. -/
inductive Arity where
  | exactly (count : Int)
  | range (words : String)
  deriving DecidableEq, Repr

namespace Arity

/-- The arity of a function that takes at least `least` arguments and at most `most`, if there is
a most. -/
def ofBounds (least : Nat) : Option Nat → Arity
  | none => range ("at least " ++ toString least)
  | some most =>
    if most = least then exactly least
    else range ("between " ++ toString least ++ " and " ++ toString most)

def message : Arity → String
  | exactly count =>
    if count = 1 then "requires exactly one parameter."
    else "requires exactly " ++ toString count ++ " parameters."
  | range words => "requires " ++ words ++ " parameters."

end Arity

/-- Why too many expressions are open at once. -/
inductive DepthProblem where
  /-- More than the environment allows. -/
  | limit (most : Int)
  /-- More than there is room for. -/
  | stack
  deriving DecidableEq, Repr

def DepthProblem.message : DepthProblem → String
  | limit most => "Expression nesting exceeds the maximum depth of " ++ toString most ++ "."
  | stack => "Stack overflow!"

/-- What went wrong, wherever it did. -/
inductive Cause where
  | malformed (form : Malformation)
  | undefined (kind : Kind) (name : String)
  | literal (token : String)
  | arity (expected : Arity) (received : Nat)
  | refused (refusal : Refusal)
  /-- A fault of an operator, which is named, or of a function, whose name is added as that of
  every function in whose run something fails. -/
  | evaluation (operator : Option String) (fault : Fault)
  | depth (problem : DepthProblem)
  deriving DecidableEq, Repr

namespace Cause

/-- The name of the kind of error. -/
def kindName : Cause → String
  | malformed _ => "SyntaxError"
  | undefined .. => "UndefinedSymbol"
  | literal _ => "InvalidLiteral"
  | arity .. => "ArityError"
  | refused _ => "ValidationError"
  | evaluation .. => "EvaluationError"
  | depth _ => "NestingDepthError"

def message : Cause → String
  | malformed form => form.message
  | undefined kind name => kind.missingWord ++ " " ++ kind.word ++ " \"" ++ name ++ "\"."
  | literal token => "Invalid numeric value \"" ++ token ++ "\"."
  | arity expected _ => expected.message
  | refused refusal => refusal.message
  | evaluation none fault => fault.describe
  | evaluation (some symbol) fault => symbol ++ ": " ++ fault.describe
  | depth problem => problem.message

/-- Whether the functions in whose run it arose are named: all but too deep nesting. -/
def isLocated : Cause → Bool
  | depth _ => false
  | _ => true

end Cause

/-- A cause and the functions in whose run it arose, outermost first. -/
structure Problem where
  callers : List String
  cause : Cause
  deriving DecidableEq, Repr

namespace Problem

/-- A cause that arose outside of every function. -/
def ofCause (cause : Cause) : Problem := ⟨[], cause⟩

/-- The problem as it leaves the run of a function. -/
def within (name : String) (p : Problem) : Problem := { p with callers := name :: p.callers }

def message (p : Problem) : String :=
  p.callers.foldr (fun name text => name ++ ": " ++ text) p.cause.message

end Problem

/-- The failure of a calculation. -/
inductive Failure where
  | problem (p : Problem)
  | fault (f : Fault)
  deriving DecidableEq, Repr

namespace Failure

def ofCause (cause : Cause) : Failure := .problem (.ofCause cause)

def malformed (form : Malformation) : Failure := .ofCause (.malformed form)

def undefined (kind : Kind) (name : String) : Failure := .ofCause (.undefined kind name)

def refused (refusal : Refusal) : Failure := .ofCause (.refused refusal)

/-- A refusal or a fault as a failure. -/
def ofEither : Refusal ⊕ Fault → Failure
  | .inl refusal => .refused refusal
  | .inr f => .fault f

def tooDeep (problem : DepthProblem) : Failure := .ofCause (.depth problem)

/-- A failure as it leaves the run of a function: it is named there, unless the nesting was too
deep. -/
def within (name : String) : Failure → Failure
  | .problem p => .problem (if p.cause.isLocated then p.within name else p)
  | .fault f => .problem ⟨[name], .evaluation none f⟩

/-- A failure as it leaves an operator: a fault is claimed, a problem stays as it is. -/
def atOperator (symbol : String) : Failure → Failure
  | .problem p => .problem p
  | .fault f => .ofCause (.evaluation (some symbol) f)

/-- The name of the kind of failure. -/
def kindName : Failure → String
  | .problem p => p.cause.kindName
  | .fault f => f.name

def message : Failure → String
  | .problem p => p.message
  | .fault f => f.describe

/-- The failure as one line: a problem after the name of its kind, a fault by its description. -/
def line : Failure → String
  | .problem p => p.cause.kindName ++ ": " ++ p.message
  | .fault f => f.describe

end Failure
end Calculator
