import Calculator.Runner.Line
import Calculator.Settings.Load
import Calculator.Settings.Yaml

/-!
# Calculator.Console

The calculator at a console. With a file name as its argument it runs the lines of that file and
stops at the first that fails; otherwise it prompts for lines until it is told to stop or there are
no more. Results are printed, failures go to the error output.
-/

namespace Calculator

/-- Loads the settings; YAML texts are read as far as `YamlText.parse` goes. -/
def Settings.load (path : Option String) (environ : List (String × String)) :
    Interaction (Except SettingsFailure Settings) :=
  loadWith (fun cs => .ok (YamlText.parse cs)) path environ

namespace Console

/-- What is written to the two outputs. -/
structure Output where
  out : String
  err : String
  deriving DecidableEq, Repr

namespace Output

def none : Output := ⟨"", ""⟩

def toOut (text : String) : Output := ⟨text, ""⟩

def toErr (text : String) : Output := ⟨"", text⟩

def append (a b : Output) : Output := ⟨a.out ++ b.out, a.err ++ b.err⟩

instance : Append Output := ⟨append⟩

end Output

def written (lines : List String) : String := lines.foldl (fun text line => text ++ line ++ "\n") ""

inductive Mode where
  | script (file : String)
  | interactive
  deriving DecidableEq, Repr

/-- The use that arguments ask for: a first argument that is no option names a script. -/
def mode : List String → Mode
  | [] => .interactive
  | file :: _ => if file.startsWith "-" then .interactive else .script file

/-- What is printed before the first prompt. -/
def banner : Output := .toOut <| written
  ["Expression Calculator v0.1", "Type ':help' for commands, ':quit' or Ctrl+D to quit."]

def prompt : String := "Calc$ "

/-- What is printed when there are no more lines. -/
def farewell : String := "\nExiting.\n"

/-- Whether the process environment asks for reports. -/
def wantsReport (environ : List (String × String)) : Bool :=
  (Settings.variableOf environ "EXPCALC_DEBUG").isSome

/-- Why the calculator ends before its time: with an exit code, and something to say. -/
structure Ending where
  code : Nat
  output : Output
  deriving DecidableEq, Repr

/-- The end that a fault brings which nothing has claimed. -/
def crash (f : Fault) : Ending := ⟨1, .toErr (f.describe ++ "\n")⟩

/-- Starts a runner with the settings that are found, and with state files in a directory. -/
def start (environ : List (String × String)) (base : Path) (seed : Nat) :
    Interaction (Except Ending Runner) := do
  match ← Settings.load none environ with
  | .error (.problem p) => return .error ⟨2, .toErr ("Error: " ++ p.message ++ "\n")⟩
  | .error (.fault f) => return .error (crash f)
  | .ok settings =>
    match Runner.standard settings base seed with
    | .error (.inr f) => return .error (crash f)
    | .error (.inl refusal) => return .error ⟨1, .toErr (refusal.message ++ "\n")⟩
    | .ok runner => return .ok runner

/-- A handled line: what it prints, the runner after it, and the exit code if it ends everything. -/
structure Turn where
  output : Output
  runner : Runner
  exit : Option Nat

/-- What the result of a line prints, and whether the calculator crashes at it. -/
def display (r : Runner) (result : LineResult) : Output × Option Ending :=
  let report := Output.toErr (written result.report)
  match result.failure with
  | some failure => (report ++ .toErr (failure.line ++ "\n"), none)
  | none =>
    let lines := report ++ .toOut (written result.output)
    match result.value with
    | none => (lines, none)
    | some value =>
      match r.shown value with
      | .ok text => (lines ++ .toOut (text ++ "\n"), none)
      | .error f => (lines, some (crash f))

/-- Handles a line and prints its result; a failure ends everything in a script. -/
def turn (setting : Setting) (inScript : Bool) (line : String) (r : Runner) : Interaction Turn := do
  let (r, result) ← r.handle setting (some line)
  let (output, crashed) := display r result
  return match crashed with
    | some ending => ⟨output ++ ending.output, r, some ending.code⟩
    | none => ⟨output, r, if inScript && result.failure.isSome then some 1 else none⟩

/-- Handles a line of a script. Comments are passed over. -/
def scriptTurn (setting : Setting) (line : String) (r : Runner) : Interaction Turn :=
  if (trimLeft line.toList).head? == some '#' then return ⟨.none, r, none⟩
  else turn setting true line r

/-- Handles a line that was entered at the prompt. Blank ones are passed over. -/
def promptTurn (setting : Setting) (line : String) (r : Runner) : Interaction Turn :=
  let line := trimString line
  if line.isEmpty then return ⟨.none, r, none⟩ else turn setting false line r

/-! ## Scripts -/

/-- The steps of the path to a script; steps that lead nowhere are left out. -/
def scriptSteps (file : String) : List String :=
  (Path.steps file).filter fun name => name != "" && name != "."

/-- The path to a script as it is opened. -/
def scriptPath (file : String) : String :=
  let text := String.intercalate "/" (scriptSteps file)
  if Path.isAbsolute file then "/" ++ text else if text.isEmpty then "." else text

/-- The directory of a script, which is that of its state files. -/
def scriptBase (base : Path) (file : String) : Path :=
  Path.follow (if Path.isAbsolute file then [] else base) (scriptSteps file).dropLast

def openScript (file : String) : Interaction (Except Ending (List String)) := do
  match ← Interaction.readFile (scriptPath file) with
  | .error .missing => return .error ⟨1, .toErr ("Error: file not found: " ++ file ++ "\n")⟩
  | .error _ => return .error ⟨1, .toErr ("Error: unable to read: " ++ file ++ "\n")⟩
  | .ok text => return .ok ((lines (normalizeNewlines text.toList)).map String.ofList)

/-! ## Whole runs -/

/-- The rest of a script. -/
def runScript (setting : Setting) : List String → Runner → Interaction (Output × Nat)
  | [], _ => return (.none, 0)
  | line :: rest, r => do
    let turn ← scriptTurn setting line r
    match turn.exit with
    | some code => return (turn.output, code)
    | none =>
      if !turn.runner.running then return (turn.output, 0)
      let (output, code) ← runScript setting rest turn.runner
      return (turn.output ++ output, code)

/-- The rest of a dialogue, with the lines that will be entered. -/
def runPrompt (setting : Setting) : List String → Runner → Interaction (Output × Nat)
  | [], r => return (if r.running then .toOut (prompt ++ farewell) else .none, 0)
  | line :: rest, r => do
    if !r.running then return (.none, 0)
    let turn ← promptTurn setting line r
    let output := Output.toOut prompt ++ turn.output
    match turn.exit with
    | some code => return (output, code)
    | none =>
      let (further, code) ← runPrompt setting rest turn.runner
      return (output ++ further, code)

/-- The lines of what is entered: one for each line end, and one for what follows the last. -/
def enteredLines (entered : String) : List String :=
  let pieces := (splitOnChar '\n' (normalizeNewlines entered.toList)).map String.ofList
  if pieces.getLast? == some "" then pieces.dropLast else pieces

/-- A whole run: what the arguments ask for, in a directory and with a process environment. -/
def run (setting : Setting) (arguments : List String) (entered : String)
    (environ : List (String × String)) (base : Path) (seed : Nat) : Interaction (Output × Nat) := do
  match mode arguments with
  | .script file =>
    match ← openScript file with
    | .error ending => return (ending.output, ending.code)
    | .ok lines =>
      match ← start environ (scriptBase base file) seed with
      | .error ending => return (ending.output, ending.code)
      | .ok r => runScript setting lines r
  | .interactive =>
    match ← start environ base seed with
    | .error ending => return (banner ++ ending.output, ending.code)
    | .ok r =>
      let (output, code) ← runPrompt setting (enteredLines entered) r
      return (banner ++ output, code)

end Console
end Calculator
