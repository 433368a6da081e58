import Calculator.Environment.ContextName
import Calculator.Environment.Registration
import Calculator.Files.State
import Calculator.Settings.Datum

/-!
# Calculator.Settings.Basic

The settings of a calculator, and the checks that their values have to pass.
-/

namespace Calculator

/-- What is wrong with settings or with the file that holds them. -/
inductive SettingsProblem where
  | unreadable (path : String)
  | unparsable (name : String)
  | noMapping
  | unknown (name : String)
  | depthOverride
  | refused (refusal : Refusal)
  | precision
  | flag (name : String)
  | maxDepth
  | format (shown : String)
  | stateFile
  deriving DecidableEq, Repr

namespace SettingsProblem

/-- What is wrong, without saying that it concerns the settings. -/
def text : SettingsProblem → String
  | unreadable path => "unable to read \"" ++ path ++ "\"."
  | unparsable file => "unable to parse \"" ++ file ++ "\"."
  | noMapping => "the top level must be a mapping."
  | unknown key => "unknown setting \"" ++ key ++ "\"."
  | depthOverride => "EXPCALC_MAX_DEPTH must be an integer."
  | refused refusal => refusal.message
  | precision => "precision must be a positive integer."
  | flag key => key ++ " must be true or false."
  | maxDepth => "max_depth must be a positive integer."
  | format shown => "unknown format \"" ++ shown ++ "\"."
  | stateFile => "state_file must be a file name."

def message (problem : SettingsProblem) : String := "config: " ++ problem.text

end SettingsProblem

/-- Why there are no settings: something is wrong with them, or a fault has come up. -/
inductive SettingsFailure where
  | problem (p : SettingsProblem)
  | fault (f : Fault)
  deriving DecidableEq, Repr

namespace SettingsFailure

/-- The name of the kind of failure. -/
def kindName : SettingsFailure → String
  | problem _ => "ConfigError"
  | fault f => f.name

def message : SettingsFailure → String
  | problem p => p.message
  | fault f => f.describe

end SettingsFailure

structure Settings where
  /-- The name of the decimal context, unless the precision or nothing is set. -/
  context : Option String := none
  precision : Option Int := none
  bracketMultiply : Bool := false
  variableMultiply : Bool := false
  maxDepth : Int := 100
  /-- The name of the number format. -/
  format : String := "plain"
  /-- The name of the state file that is used when none is given. -/
  stateFile : String := StateFile.usualName
  deriving DecidableEq, Repr

namespace Settings

/-- The names of all settings. -/
def names : List String :=
  ["context", "precision", "bracket_multiply", "variable_multiply", "max_depth", "format",
    "state_file"]

/-- A check that fails. -/
def wrong {α : Type} (problem : SettingsProblem) : Except SettingsFailure α :=
  .error (.problem problem)

/-- The name of a context, which has to be known. Other values than texts are taken as they are
shown. -/
def checkContext : Option Datum → Except SettingsFailure (Option String)
  | none => .ok none
  | some .null => .ok none
  | some d =>
    match Context.ofName d.shown with
    | .ok _ => .ok (some d.shown)
    | .error (.inl refusal) => wrong (.refused refusal)
    | .error (.inr f) => .error (.fault f)

def checkPrecision : Option Datum → Except SettingsFailure (Option Int)
  | none => .ok none
  | some .null => .ok none
  | some (.int n) => if n < 1 then wrong .precision else .ok (some n)
  | some _ => wrong .precision

def checkFlag (name : String) : Option Datum → Except SettingsFailure Bool
  | none => .ok false
  | some (.bool b) => .ok b
  | some _ => wrong (.flag name)

def checkDepth : Option Datum → Except SettingsFailure Int
  | none => .ok 100
  | some (.int n) => if n < 1 then wrong .maxDepth else .ok n
  | some _ => wrong .maxDepth

def checkFormat : Option Datum → Except SettingsFailure String
  | none => .ok "plain"
  | some (.text s) => if (NumberFormat.ofName? s).isSome then .ok s else wrong (.format s)
  | some d => wrong (.format d.shown)

def checkStateFile : Option Datum → Except SettingsFailure String
  | none => .ok StateFile.usualName
  | some (.text s) => if s.toList.all isBlank then wrong .stateFile else .ok s
  | some _ => wrong .stateFile

/-- The settings with given values, the first that fails its check being reported. -/
def ofValues (value : String → Option Datum) : Except SettingsFailure Settings := do
  let context ← checkContext (value "context")
  let precision ← checkPrecision (value "precision")
  let bracketMultiply ← checkFlag "bracket_multiply" (value "bracket_multiply")
  let variableMultiply ← checkFlag "variable_multiply" (value "variable_multiply")
  let maxDepth ← checkDepth (value "max_depth")
  let format ← checkFormat (value "format")
  let stateFile ← checkStateFile (value "state_file")
  return ⟨context, precision, bracketMultiply, variableMultiply, maxDepth, format, stateFile⟩

/-- The decimal context that is set, if one is. The precision comes before the name. -/
def chosenContext (settings : Settings) : Except (Refusal ⊕ Fault) (Option Context) :=
  match settings.precision, settings.context with
  | some n, _ => (Context.ofPrecision n).map some
  | none, some name => (Context.ofName name).map some
  | none, none => .ok none

/-- Puts the settings in force in an environment. -/
def apply (settings : Settings) (family : Family) (id : EnvId) :
    Except (Refusal ⊕ Fault) Family := do
  let ctx ← settings.chosenContext
  return family.modifyOptions id fun options =>
    { context := ctx.getD options.context
      bracketMultiply := settings.bracketMultiply
      variableMultiply := settings.variableMultiply
      maxDepth := settings.maxDepth }

end Settings
end Calculator
