import Calculator.Runner.Command

/-!
# Calculator.Runner.Line

Handling a line: a command after a colon, or an expression, whose value becomes the last answer.
A line that fails says why and leaves the runner running.
-/

namespace Calculator

/-- What handling a line has led to. -/
structure LineResult where
  /-- The value of an expression. -/
  value : Option Decimal
  /-- The lines to be printed. -/
  output : List String
  failure : Option LineFailure
  /-- The report, when one is asked for. -/
  report : List String

namespace Runner

/-- What a step that succeeds has to show. -/
structure Shown where
  value : Option Decimal
  output : List String

/-- The end of handling a line. Failures of calculations are remembered. -/
def finish (setting : Setting) : EStateM.Result LineFailure Runner Shown → Runner × LineResult
  | .ok s r => (r, ⟨s.value, s.output, none, r.session.report⟩)
  | .error failure r =>
    let events := if setting.tracing then [Event.failed failure.line] else []
    let session := { r.session with events := events ++ r.session.events }
    let last := match failure with
      | .calculation f => some f
      | _ => r.lastFailure
    ({ r with lastFailure := last }, ⟨none, [], some failure, session.report⟩)

def printing (step : Running (List String)) : Running Shown := do
  return ⟨none, ← step⟩

/-- Defines what the lines of a state file say, up to the first that fails; gives the number of
definitions. -/
def defineAll (setting : Setting) : List (Nat × String) → Running Nat
  | [] => return 0
  | (number, text) :: rest => do
    let _ ← fun r =>
      match define setting text r with
      | .error failure r => .error (failure.inFile number) r
      | result => result
    return (← defineAll setting rest) + 1

/-- The path of a state file, the usual one if none is named. -/
def statePath (r : Runner) (name : String) : Except LineFailure Path :=
  match StateFile.path r.base (some (if name.isEmpty then r.stateFile else name)) with
  | .ok path => .ok path
  | .error (.inl problem) => .error (.state problem)
  | .error (.inr f) => .error (.calculation (.fault f))

def save (setting : Setting) (name : String) (r : Runner) : Interaction (Runner × LineResult) :=
  match r.statePath name with
  | .error failure => .done (finish setting (.error failure r))
  | .ok path =>
    let text := StateFile.format (r.functions.map (·.2)) r.vars
    .write path text fun isWritten =>
      if isWritten then
        let events := if setting.tracing then [Event.saved path.text] else []
        let session := { r.session with events := events ++ r.session.events }
        .done (finish setting (.ok ⟨none, ["Saved."]⟩ { r with session := session }))
      else .done (finish setting (.error (.state (.unwritable path.basename)) r))

def load (setting : Setting) (name : String) (r : Runner) : Interaction (Runner × LineResult) :=
  match r.statePath name with
  | .error failure => .done (finish setting (.error failure r))
  | .ok path =>
    .read path.text fun answer =>
      match answer with
      | .error problem =>
        .done (finish setting (.error (.state (StateFile.readProblem path problem)) r))
      | .ok text =>
        let step : Running (List String) := do
          let count ← defineAll setting (StateFile.definitions text)
          return ["Loaded " ++ toString count ++ " definitions."]
        .done (finish setting (printing step r))

def command (setting : Setting) (arguments : String) (r : Runner) :
    Command → Interaction (Runner × LineResult)
  | .save => save setting arguments r
  | .load => load setting arguments r
  | .help => .done (finish setting (printing help r))
  | .define => .done (finish setting (printing (do return [← define setting arguments]) r))
  | .undefine => .done (finish setting (printing (do return [← undefine arguments]) r))
  | .stat => .done (finish setting (printing (do return [← stat arguments]) r))
  | .environment => .done (finish setting (printing (listPage arguments) r))
  | .context => .done (finish setting (printing (do return [← changeContext arguments]) r))
  | .format => .done (finish setting (printing (do changeFormat arguments; return []) r))
  | .trace => .done (finish setting (printing (do return [← showFailure arguments]) r))
  | .quit => .done (finish setting (printing (do quit arguments; return []) r))

def expression (setting : Setting) (text : String) : Running Shown := do
  return ⟨some (← answerTo setting text), []⟩

/-- Handles a line. Nothing happens on a blank one. -/
def handle (setting : Setting) (line : Option String) (r : Runner) :
    Interaction (Runner × LineResult) :=
  let r := { r with session := { r.session with events := [] } }
  match trim (line.getD "").toList with
  | [] => .done (r, ⟨none, [], none, []⟩)
  | ':' :: rest =>
    let (name, arguments) := Command.parse rest
    match Command.ofName? name with
    | none => .done (finish setting (.error (.command (.unknown name)) r))
    | some c => command setting arguments r c
  | text => .done (finish setting (expression setting (String.ofList text) r))

end Runner
end Calculator
