import Calculator.Runner.Basic
import Calculator.Text.Integer

/-!
# Calculator.Runner.Command

The commands of a runner that need no files. Each gives the lines it prints. A name stands for a
native thing or for one that a user has defined; only the latter can be redefined or removed.
-/

namespace Calculator

inductive Command where
  | help
  | define
  | undefine
  | stat
  | environment
  | context
  | format
  | save
  | load
  | trace
  | quit
  deriving DecidableEq, Repr

namespace Command

def names : List (String × Command) := [
  ("help", help), ("?", help),
  ("define", define), ("set", define), ("=", define),
  ("undefine", undefine), ("unset", undefine), ("-", undefine),
  ("stat", stat), ("env", environment), ("context", context), ("format", format),
  ("save", save), ("load", load), ("trace", trace), ("quit", quit), ("q", quit)]

def ofName? (name : String) : Option Command := names.lookup name

/-- The text before the first space, and the text after it without white space around it. -/
def cut (text : List Char) : String × String :=
  match Definition.cutAt ' ' text with
  | none => (String.ofList text, "")
  | some (before, after) => (String.ofList before, String.ofList (trim after))

/-- The name of the command on a line, in lower case, and its arguments. -/
def parse (line : List Char) : String × String :=
  let (name, arguments) := cut (trim line)
  (lowerString name, arguments)

end Command

namespace Runner

/-- A text filled up with spaces to a width. -/
def padded (width : Nat) (text : String) : String :=
  text ++ String.ofList (List.replicate (width - text.length) ' ')

def fail {α : Type} (problem : CommandProblem) : Running α := throw (.command problem)

/-- What the commands do, one line each. -/
def helpLines : List (String × String) := [
  (":help", "Expression calculator command reference."),
  (":define", "Define a variable or function (also :set, :=)."),
  (":undefine", "Undefine a variable or function (also :unset, :-)."),
  (":stat", "Show a function, operator, or variable definition."),
  (":env", "List the variables and functions defined."),
  (":context", "Change the decimal context (32bit, 64bit, 128bit, unlimited, <digits>)."),
  (":format", "Change the output format (plain, scientific, separated)."),
  (":save", "Save user definitions to a state file."),
  (":load", "Load user definitions from a state file."),
  (":trace", "Show the stack trace of the last error."),
  (":quit", "Exit the calculator.")]

def help : Running (List String) :=
  return helpLines.map fun (name, text) => padded 10 name ++ " - " ++ text

/-! ## Definitions -/

/-- Defines a function, bound to the environment. -/
def defineFunction (d : Definition) (parameters : List String) : Running String := do
  let r ← get
  match r.lookup .functions d.name with
  | some (.native _) => throw (.definition .nativeFunction)
  | _ =>
    let f := d.function parameters (some r.environment)
    change fun r => r.family.setFunction r.environment (some d.name) (.given (.user f))
    modify fun r => { r with functions := assign d.name f r.functions }
    let extra := if d.guard.isSome then " with condition" else ""
    return "Defined \"" ++ f.describe ++ "\" as \"" ++ d.body ++ "\"" ++ extra ++ "."

/-- The value of an expression that defines a variable. A problem becomes one of the definition; a
fault stays what it is. -/
def definingValue (setting : Setting) (text : String) : Running Decimal := fun r =>
  match calculate setting text r with
  | .error (.calculation (.problem p)) r => .error (.definition (.unevaluated p.message)) r
  | result => result

/-- Defines a variable and says so, when its value is stored already. It is assumed that there is
always memory for the positional text of the value, although in a context without limits it can
have 10 ^ 15 digits; running out of it would be a failure that leaves the variable defined. -/
def defineVariable (setting : Setting) (d : Definition) : Running String := do
  let value ← definingValue setting d.body
  let isNative := match (← get).lookup .vars d.name with
    | none => false
    | some v => !v.isFixed
  if isNative then throw (.definition .nativeVariable)
  change fun r => r.family.setVariable r.environment (some d.name) (.number value)
  modify fun r => { r with vars := assign d.name value r.vars }
  return "Defined \"" ++ d.name ++ "\" as " ++ value.positionalText ++ "."

def define (setting : Setting) (text : String) : Running String :=
  match Definition.parse text with
  | .error problem => throw (.definition problem)
  | .ok d =>
    match d.parameters with
    | some parameters => defineFunction d parameters
    | none => defineVariable setting d

def undefineFunction (name : String) : Running String := do
  match (← get).lookup .functions name with
  | none => fail .undefineNoFunction
  | some (.native _) => fail .undefineNativeFunction
  | some (.user _) =>
    change fun r => r.family.setFunction r.environment (some name) .nothing
    modify fun r => { r with functions := unassign name r.functions }
    return "Successfully removed function."

def undefineVariable (name : String) : Running String := do
  match (← get).lookup .vars name with
  | none => fail .undefineNoVariable
  | some (.fixed _) =>
    change fun r => r.family.setVariable r.environment (some name) .nothing
    modify fun r => { r with vars := unassign name r.vars }
    return "Successfully removed variable."
  | some _ => fail .undefineNativeVariable

/-- Removes what a text names: a function if empty brackets follow, and a variable otherwise. -/
def undefine (text : String) : Running String :=
  let cs := text.toList
  if cs.isEmpty then fail .undefineNothing
  else if text.endsWith "()" then
    undefineFunction (String.ofList (trim (cs.take (cs.length - 2))))
  else undefineVariable text

/-! ## Inspection -/

def functionWords : List String := ["f", "func", "function"]
def operatorWords : List String := ["o", "op", "operation", "operator"]
def variableWords : List String := ["v", "var", "variable"]

def stat (text : String) : Running String := do
  let (what, name) := Command.cut text.toList
  let what := lowerString what
  if what.isEmpty || name.isEmpty then fail .statNothing
  let r ← get
  if functionWords.contains what then
    match r.lookup .functions name with
    | none => fail .statNoFunction
    | some f => return r.printer.function name f
  else if operatorWords.contains what then
    match r.lookup .operators name with
    | none => fail .statNoOperator
    | some binding => return r.printer.operator binding
  else if variableWords.contains what then
    match r.lookup .vars name with
    | none => fail .statNoVariable
    | some v =>
      match r.printer.variableText name v with
      | .error f => throw (.calculation (.fault f))
      | .ok shown => return shown
  else fail .statKind

def pageSize : Nat := 9

/-- Every variable and every function with a label, and whether a user has defined it, in the order
of labels. -/
def listing (r : Runner) : List (String × Bool) :=
  let vars := (r.family.names r.environment .vars).map fun name =>
    (name, ((r.lookup .vars name).map Variable.isFixed).getD false)
  let functions := (r.family.names r.environment .functions).map fun name =>
    (name ++ "()", ((r.lookup .functions name).map Function.isUser).getD false)
  (vars ++ functions).mergeSort fun a b => decide (a.1 ≤ b.1)

/-- The number of pages for a number of names; there is always one. -/
def pageCount (count : Nat) : Nat := max 1 ((count + (pageSize - 1)) / pageSize)

/-- The page that a text asks for; the first, if it asks for none. -/
def askedPage (text : String) : Option Int :=
  if text.isEmpty then some 1 else (readInteger text.toList).toOption

/-- A page of names, counted from zero. -/
def pageOf {α : Type} (page : Nat) (entries : List α) : List α :=
  (entries.drop (page * pageSize)).take pageSize

def listPage (text : String) : Running (List String) := do
  let entries := (← get).listing
  let pages := pageCount entries.length
  match askedPage text with
  | none => fail .page
  | some page =>
    if page < 1 ∨ (pages : Int) < page then fail .page
    let head := "Environment (" ++ toString page ++ " of " ++ toString pages ++ ")"
    return head :: (pageOf (page.toNat - 1) entries).map fun (label, isUser) =>
      padded 70 label ++ " " ++ if isUser then "user" else "native"

/-! ## Options -/

/-- Shows or changes the decimal context. -/
def changeContext (text : String) : Running String := do
  if text.isEmpty then
    return "Current context is " ++ (← get).options.context.name ++ "."
  match Context.ofName text with
  | .error (.inl _) => fail .context
  | .error (.inr f) => throw (.calculation (.fault f))
  | .ok ctx =>
    change fun r => r.family.setContext r.environment (some ctx)
    return "Changed context to " ++ ctx.name ++ "."

def changeFormat (text : String) : Running Unit :=
  match NumberFormat.ofName? (lowerString text) with
  | none => fail .format
  | some format =>
    modify fun r => { r with printer := { r.printer with format := format } }

def showFailure (text : String) : Running String := do
  if !text.isEmpty then fail .traceArguments
  match (← get).lastFailure with
  | none => fail .traceNothing
  | some failure => return "<traceback> " ++ failure.line

def quit (text : String) : Running Unit := do
  if !text.isEmpty then fail .quitArguments
  modify fun r => { r with running := false }

end Runner
end Calculator
