import Calculator.Console
import Std.Time.DateTime.Timestamp

/-!
# Calculator.Main

The calculator as a program: interactions are carried out on the real files, and lines are read and
printed one at a time.
-/

namespace Calculator
namespace Program

/-- What an error in reading a file amounts to. -/
def readProblem : IO.Error → ReadProblem
  | .noFileOrDirectory .. => .missing
  | .noSuchThing .. => .missing
  | .inappropriateType .. => .directory
  | _ => .unreadable

/-- Reads a real file. -/
def readReal (path : String) : IO (Except ReadProblem String) := do
  try return .ok (← IO.FS.readFile path)
  catch e => return .error (readProblem e)

/-- Writes a real file, and says whether it could be written. -/
def writeReal (path : Path) (content : String) : IO Bool := do
  try
    IO.FS.createDirAll (Path.text path.dropLast)
    IO.FS.writeFile path.text content
    return true
  catch _ => return false

/-- Carries out an interaction on the real files. -/
def perform {α : Type} : Interaction α → IO α
  | .done a => return a
  | .read path resume => do perform (resume (← readReal path))
  | .write path content resume => do perform (resume (← writeReal path content))

/-- The time in milliseconds since 1970. -/
def clock : IO Int := do
  return (← Std.Time.Timestamp.now).toMillisecondsSinceUnixEpoch.val

/-- Prints to both outputs. -/
def emit (output : Console.Output) : IO Unit := do
  if !output.out.isEmpty then
    IO.print output.out
    (← IO.getStdout).flush
  if !output.err.isEmpty then IO.eprint output.err

/-- The variables of the process environment that matter. -/
def environment : IO (List (String × String)) := do
  let names :=
    ["EXPCALC_MAX_DEPTH", "EXPCALC_CONTEXT", "EXPCALC_FORMAT", "EXPCALC_DEBUG"]
  let values ← names.mapM fun name => return (name, ← IO.getEnv name)
  return values.filterMap fun (name, value) => value.map fun value => (name, value)

/-- Ends before a runner has started. -/
def finish (ending : Console.Ending) : IO UInt32 := do
  emit ending.output
  return ending.code.toUInt32

/-- Runs the rest of a script. -/
def runScript (tracing : Bool) : List String → Runner → IO UInt32
  | [], _ => return 0
  | line :: rest, r => do
    let turn ← perform (Console.scriptTurn ⟨← clock, tracing⟩ line r)
    emit turn.output
    match turn.exit with
    | some code => return code.toUInt32
    | none => if turn.runner.running then runScript tracing rest turn.runner else return 0

/-- Prompts for lines until there are no more or the runner stops. `waiting` holds lines that have
been read already. -/
partial def runPrompt (tracing : Bool) (waiting : List String) (r : Runner) : IO UInt32 := do
  if !r.running then return 0
  emit (.toOut Console.prompt)
  let lines ← match waiting with
    | [] => do
      let entered ← (← IO.getStdin).getLine
      pure (if entered.isEmpty then [] else Console.enteredLines entered)
    | lines => pure lines
  match lines with
  | [] =>
    emit (.toOut Console.farewell)
    return 0
  | line :: rest =>
    let turn ← perform (Console.promptTurn ⟨← clock, tracing⟩ line r)
    emit turn.output
    match turn.exit with
    | some code => return code.toUInt32
    | none => runPrompt tracing rest turn.runner

end Program
end Calculator

open Calculator in
/-- Runs the script that is named, or prompts for lines. -/
def main (arguments : List String) : IO UInt32 := do
  let base : Path := Path.follow [] (Path.steps (← IO.currentDir).toString)
  let environ ← Program.environment
  let tracing := Console.wantsReport environ
  let seed := (← Program.clock).toNat
  match Console.mode arguments with
  | .script file =>
    match ← Program.perform (Console.openScript file) with
    | .error ending => Program.finish ending
    | .ok lines =>
      match ← Program.perform (Console.start environ (Console.scriptBase base file) seed) with
      | .error ending => Program.finish ending
      | .ok r => Program.runScript tracing lines r
  | .interactive =>
    Program.emit Console.banner
    match ← Program.perform (Console.start environ base seed) with
    | .error ending => Program.finish ending
    | .ok r => Program.runPrompt tracing [] r
