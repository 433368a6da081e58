import Calculator.Fault
import Calculator.Files.Tree
import Calculator.Function
import Calculator.Printer
import Calculator.Text.Blank

/-!
# Calculator.Files.State

State files, which hold definitions, one a line: first the functions, then the variables. Blank
lines and lines that begin with a number sign are ignored. A state file has to lie in the base
directory or below it.
-/

namespace Calculator

inductive StateProblem where
  | absolute
  | outside
  | missing (name : String)
  | unreadable (name : String)
  | unwritable (name : String)
  /-- A definition in the file fails; the message says why. -/
  | definition (line : Nat) (message : String)
  deriving DecidableEq, Repr

def StateProblem.message : StateProblem → String
  | absolute => "state file: the path must be relative."
  | outside => "state file: the path must stay inside the working directory."
  | missing name => "load: no such file \"" ++ name ++ "\"."
  | unreadable name => "load: unable to read \"" ++ name ++ "\"."
  | unwritable name => "save: unable to write \"" ++ name ++ "\"."
  | definition line message => "load: line " ++ toString line ++ ": " ++ message

namespace StateFile

def ending : String := ".ecj"

/-- The name of the state file where none is given. -/
def usualName : String := "default.ecj"

/-- The name of a state file, without white space around it. -/
def trimmedName (name : Option String) : String :=
  trimString (if name.getD "" = "" then usualName else name.getD "")

/-- The name of a state file with its ending. -/
def completeName (name : String) : String :=
  if name.endsWith ending then name else name ++ ending

/-- The path that the name of a state file leads to from a base directory. -/
def path (base : Path) (name : Option String) : Except (StateProblem ⊕ Fault) Path :=
  let name := trimmedName name
  if Path.isAbsolute name || name.toList.head? == some '~' then .error (.inl .absolute)
  else if name.toList.contains '\x00' then .error (.inr (.host "ValueError" "embedded null byte"))
  else
    let path := base.follow (Path.steps (completeName name))
    if base.isPrefixOf path then .ok path else .error (.inl .outside)

/-- The text of a state file. -/
def format (functions : List UserFunction) (vars : List (String × Decimal)) : String :=
  let head := ["# Expcalc state file.", "", "# Functions"]
  let functionLines := functions.map (·.definitionLine)
  let variableLines := vars.map fun (name, value) =>
    name ++ " = " ++ String.ofList value.toPlain
  String.intercalate "\n" (head ++ functionLines ++ ["", "# Variables"] ++ variableLines) ++ "\n"

/-- The lines of a list from a number on that hold definitions, with their numbers. -/
def definitionsFrom (number : Nat) : List (List Char) → List (Nat × String)
  | [] => []
  | line :: rest =>
    let line := trim line
    if line.isEmpty || line.head? == some '#' then definitionsFrom (number + 1) rest
    else (number, String.ofList line) :: definitionsFrom (number + 1) rest

/-- The definitions in the text of a state file, with the numbers of their lines. -/
def definitions (text : String) : List (Nat × String) :=
  definitionsFrom 1 (lines (normalizeNewlines text.toList))

/-- What a failed reading of a state file is reported as. -/
def readProblem (path : Path) : ReadProblem → StateProblem
  | .missing => .missing path.basename
  | _ => .unreadable path.basename

end StateFile
end Calculator
