import Calculator.Files.Interaction
import Calculator.Settings.Basic
import Calculator.Settings.Json
import Calculator.Text.Integer
import Calculator.Text.Lines

/-!
# Calculator.Settings.Load

Where settings come from: a file, the process environment, which comes before the file, and the
usual values. The file is the one that is named, or else the first of three that is there.

What a YAML text says is left to a reader, of which nothing is assumed.
-/

namespace Calculator
namespace Settings

/-- A reader of YAML texts: what a text says, if it is well-formed, or a fault of the reader. -/
abbrev YamlReader := List Char → Except Fault (Option Datum)

def fileNames : List String := ["expcalc.yaml", "expcalc.yml", "expcalc.json"]

/-- The ending of a file name, from the last point on; points at the beginning do not count. -/
def endingOf (name : String) : String :=
  let stem := name.toList.dropWhile (· == '.')
  if stem.contains '.' then
    String.ofList ('.' :: (stem.reverse.takeWhile (· != '.')).reverse)
  else ""

/-- The last part of a path as it is written. -/
def writtenName (path : String) : String := (Path.steps path).getLast?.getD ""

def parseFile (yaml : YamlReader) (path : String) (content : String) :
    Except SettingsFailure (List (Datum × Datum)) :=
  let cs := normalizeNewlines content.toList
  let name := writtenName path
  let parsed := if lowerString (endingOf name) = ".json" then .ok (JsonText.parse cs) else yaml cs
  match parsed with
  | .error f => .error (.fault f)
  | .ok none => wrong (.unparsable name)
  | .ok (some .null) => .ok []
  | .ok (some (.mapping entries)) => .ok entries
  | .ok (some _) => wrong .noMapping

def readFile (yaml : YamlReader) (path : String) :
    Interaction (Except SettingsFailure (List (Datum × Datum))) := do
  match ← Interaction.readFile path with
  | .error _ => return wrong (.unreadable path)
  | .ok content => return parseFile yaml path content

/-- The first name of a file that is there. -/
def findAmong : List String → Interaction (Option String)
  | [] => return none
  | name :: rest => do
    match ← Interaction.readFile name with
    | .error .missing => findAmong rest
    | .error .directory => findAmong rest
    | _ => return some name

def find : Interaction (Option String) := findAmong fileNames

/-- The place of a key among others: numbers by size, between the infinities, and everything else
after them. -/
def keyPlace : Datum → Nat × Rat
  | .bool b => (1, if b then 1 else 0)
  | .int n => (1, n)
  | .real (.finite negative m e) => (1, (if negative then -(m : Rat) else m) * 2 ^ e)
  | .real (.infinity true) => (0, 0)
  | .real (.infinity false) => (2, 0)
  | _ => (3, 0)

/-- The order of keys: by their places, and at one place as they are shown. -/
def keyOrder (a b : Datum) : Bool :=
  let (i, x) := keyPlace a
  let (j, y) := keyPlace b
  decide (i < j ∨ i = j ∧ (x < y ∨ x = y ∧ a.shown ≤ b.shown))

/-- The first unknown setting, in the order of keys. Keys of different kinds, such as a text and a
number, are given an order here too, so that there always is a first one. Where such keys cannot be
compared, sorting them is a fault, whose words depend on which two of them meet. -/
def unknown? (entries : List (Datum × Datum)) : Option String :=
  let isKnown : Datum → Bool
    | .text s => names.contains s
    | _ => false
  let unknown := (entries.map (·.1)).filter fun key => !isKnown key
  (unknown.mergeSort keyOrder).head?.map (·.shown)

/-- The value that a file gives a setting: the last one. -/
def fileValue (entries : List (Datum × Datum)) (name : String) : Option Datum :=
  let isNamed : Datum → Bool
    | .text s => s == name
    | _ => false
  (entries.reverse.find? fun (key, _) => isNamed key).map (·.2)

/-- A variable of the process environment, unless it is empty. -/
def variableOf (environ : List (String × String)) (name : String) : Option String :=
  (environ.lookup name).filter fun value => !value.isEmpty

def depthOverride (environ : List (String × String)) :
    Except SettingsFailure (Option Datum) :=
  match variableOf environ "EXPCALC_MAX_DEPTH" with
  | none => .ok none
  | some value =>
    match readInteger value.toList with
    | .ok n => .ok (some (.int n))
    | .error _ => wrong .depthOverride

/-- The settings that a file and the process environment give together. A context in the process
environment also replaces a precision in the file. -/
def combine (entries : List (Datum × Datum)) (environ : List (String × String)) :
    Except SettingsFailure Settings := do
  match unknown? entries with
  | some name => wrong (.unknown name)
  | none =>
    let depth ← depthOverride environ
    let context := (variableOf environ "EXPCALC_CONTEXT").map Datum.text
    let format := (variableOf environ "EXPCALC_FORMAT").map fun value =>
      Datum.text (lowerString (trimString value))
    let value (name : String) : Option Datum :=
      match name with
      | "max_depth" => depth.or (fileValue entries name)
      | "context" => context.or (fileValue entries name)
      | "precision" => if context.isSome then none else fileValue entries name
      | "format" => format.or (fileValue entries name)
      | name => fileValue entries name
    ofValues value

/-- Loads the settings: from the file at a path, from none if the path is empty, or from the file
that is found. -/
def loadWith (yaml : YamlReader) (path : Option String) (environ : List (String × String)) :
    Interaction (Except SettingsFailure Settings) := do
  let path ← match path with
    | none => find
    | some path => pure (if path.isEmpty then none else some path)
  let entries ← match path with
    | none => pure (.ok [])
    | some path => readFile yaml path
  match entries with
  | .error failure => return .error failure
  | .ok entries => return combine entries environ

end Settings
end Calculator
