import Calculator.Definition
import Calculator.Evaluation
import Calculator.Files.Interaction
import Calculator.Library.Standard
import Calculator.Settings.Basic

/-!
# Calculator.Runner.Basic

The state of a calculator that handles line after line: an environment, what the user has defined in
it, and how results are shown. Definitions are kept in the order in which their names were first
defined.
-/

namespace Calculator

/-- How a command is used wrongly. -/
inductive CommandProblem where
  | unknown (name : String)
  | undefineNothing
  | undefineNoFunction
  | undefineNativeFunction
  | undefineNoVariable
  | undefineNativeVariable
  | statNothing
  | statNoFunction
  | statNoOperator
  | statNoVariable
  | statKind
  | page
  | context
  | format
  | traceArguments
  | traceNothing
  | quitArguments
  deriving DecidableEq, Repr

def CommandProblem.message : CommandProblem → String
  | unknown name => "expcalc: unknown command \"" ++ name ++ "\""
  | undefineNothing => "undefine: requires argument."
  | undefineNoFunction => "undefine: function is already undefined!"
  | undefineNativeFunction => "undefine: cannot remove native function!"
  | undefineNoVariable => "undefine: variable is already undefined!"
  | undefineNativeVariable => "undefine: cannot remove native variable!"
  | statNothing => "stat: requires two arguments."
  | statNoFunction => "stat: undefined function."
  | statNoOperator => "stat: undefined operator."
  | statNoVariable => "stat: undefined variable."
  | statKind => "stat: can only stat \"function\", \"operator\", or \"variable\""
  | page => "env: invalid page."
  | context => "context: unknown math context."
  | format => "format: unknown number formatting type."
  | traceArguments => "trace: requires no arguments."
  | traceNothing => "trace: no error recorded"
  | quitArguments => "quit: requires no arguments."

/-- Why a line fails: in a command, or in a calculation. -/
inductive LineFailure where
  | command (problem : CommandProblem)
  | definition (problem : DefinitionProblem)
  | state (problem : StateProblem)
  | calculation (failure : Failure)
  deriving DecidableEq, Repr

namespace LineFailure

def ofEither (failure : Refusal ⊕ Fault) : LineFailure := .calculation (.ofEither failure)

/-- What went wrong, without the kind of failure. -/
def message : LineFailure → String
  | command problem => problem.message
  | definition problem => problem.message
  | state problem => problem.message
  | calculation failure => failure.message

/-- The failure as it is shown: a calculation's after the name of its kind. -/
def line : LineFailure → String
  | calculation failure => failure.line
  | failure => failure.message

/-- The failure as that of a numbered line of a state file; a fault stays what it is. -/
def inFile (number : Nat) : LineFailure → LineFailure
  | calculation (.fault f) => calculation (.fault f)
  | failure => state (.definition number failure.message)

end LineFailure

structure Runner where
  family : Family
  environment : EnvId
  /-- The register of the last answer. -/
  answer : Nat
  printer : Printer
  /-- The name of the state file that is used when none is given. -/
  stateFile : String
  /-- The directory of state files. -/
  base : Path
  running : Bool
  /-- The last failure of a calculation. -/
  lastFailure : Option Failure
  functions : List (String × UserFunction)
  vars : List (String × Decimal)
  session : Session

/-- A step of a runner. A failing step may have changed the runner. -/
abbrev Running := EStateM LineFailure Runner

namespace Runner

/-- The register of the last answer in an environment. A variable of that name which is none is
replaced by one. -/
def answerRegister (family : Family) (id : EnvId) : Family × Nat :=
  match family.lookup id .vars "ans" with
  | some (.answer register) => (family, register)
  | _ =>
    let register := family.answers.size
    let (family, v) := family.addAnswer
    (family.store id .vars "ans" v, register)

/-- A runner with some settings in an environment. -/
def create (settings : Settings) (base : Path) (seed : Nat) (family : Family) (id : EnvId) :
    Except (Refusal ⊕ Fault) Runner := do
  let family ← settings.apply family id
  let printer ← match Printer.ofName settings.format with
    | .ok printer => .ok printer
    | .error f => .error (.inr f)
  let (family, register) := answerRegister family id
  return { family := family, environment := id, answer := register, printer := printer
           stateFile := settings.stateFile, base := base, running := true, lastFailure := none
           functions := [], vars := [], session := .start seed }

def standard (settings : Settings) (base : Path) (seed : Nat) :
    Except (Refusal ⊕ Fault) Runner :=
  let (family, id) := Family.empty.addStandard
  create settings base seed family id

/-- A list in which a name has a value; a name that is there keeps its place. -/
def assign {α : Type} (key : String) (value : α) : List (String × α) → List (String × α)
  | [] => [(key, value)]
  | (other, old) :: rest =>
    if other = key then (key, value) :: rest else (other, old) :: assign key value rest

/-- A list without a name. -/
def unassign {α : Type} (key : String) (entries : List (String × α)) : List (String × α) :=
  entries.filter fun (other, _) => other != key

def options (r : Runner) : Options := r.family.options r.environment

def answerValue (r : Runner) : Decimal := (r.family.answers[r.answer]?).getD .zero

def lookup (r : Runner) (kind : Kind) (key : String) : Option kind.Value :=
  r.family.lookup r.environment kind key

def shown (r : Runner) (value : Decimal) : Except Fault String := value.shown r.printer.format

/-! ## Steps -/

def calculate (setting : Setting) (text : String) : Running Decimal := fun r =>
  match Evaluation.evaluate setting r.family r.environment text r.session with
  | .ok value session => .ok value { r with session := session }
  | .error failure session => .error (.calculation failure) { r with session := session }

/-- Changes the family, unless the change is refused. -/
def change (result : Runner → Except Refusal Family) : Running Unit := fun r =>
  match result r with
  | .ok family => .ok () { r with family := family }
  | .error refusal => .error (.calculation (.refused refusal)) r

/-- Evaluates an expression and keeps its value as the last answer. -/
def answerTo (setting : Setting) (text : String) : Running Decimal := do
  let value ← calculate setting text
  modify fun r => { r with family := r.family.setAnswer r.answer value }
  return value

end Runner
end Calculator
