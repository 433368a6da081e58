import Calculator.Environment.Table
import Calculator.Function
import Calculator.Operation
import Calculator.Variable

/-!
# Calculator.Environment.Family

Environments: what the names in expressions stand for, with the decimal context and the options in
force. An environment is a root or an overlay. An overlay says only what differs from the
environment it lies over and shows everything else through, so that later changes below it are seen;
its options are its own from the beginning. All environments of a calculator form one family, in
which each has a number.

Mathematical meaning: an environment denotes, for each kind, the partial map `lookup` from names to
values; `names` lists the domain of that map.
-/

namespace Calculator

/-- What names of a kind stand for. -/
@[reducible] def Kind.Value : Kind → Type
  | operators => Binding
  | functions => Function
  | vars => Variable

/-- What is in force while an expression is evaluated, names apart. -/
structure Options where
  context : Context
  /-- Whether a numeral directly before a bracket multiplies it. -/
  bracketMultiply : Bool
  /-- Whether a numeral directly before a variable multiplies it. -/
  variableMultiply : Bool
  /-- How many expressions may be open at once. -/
  maxDepth : Int
  deriving DecidableEq, Repr

def Options.bare : Options := ⟨.unlimited, false, false, 100⟩

structure Environment where
  /-- The environments it lies over, the nearest first. -/
  lineage : List EnvId
  operators : Table Binding
  functions : Table Function
  vars : Table Variable
  options : Options

namespace Environment

/-- A root without any names. -/
def bare : Environment := ⟨[], [], [], [], .bare⟩

def table (env : Environment) : (kind : Kind) → Table kind.Value
  | .operators => env.operators
  | .functions => env.functions
  | .vars => env.vars

def setTable (env : Environment) : (kind : Kind) → Table kind.Value → Environment
  | .operators, table => { env with operators := table }
  | .functions, table => { env with functions := table }
  | .vars, table => { env with vars := table }

def isOverlay (env : Environment) : Bool := !env.lineage.isEmpty

end Environment

/-- All environments, and the registers that hold last answers. -/
structure Family where
  members : Array Environment
  answers : Array Decimal

namespace Family

def empty : Family := ⟨#[], #[]⟩

def environment (family : Family) (id : EnvId) : Environment :=
  (family.members[id]?).getD .bare

def options (family : Family) (id : EnvId) : Options := (family.environment id).options

/-- An environment and those it lies over, from the top down. -/
def layers (family : Family) (id : EnvId) : List EnvId := id :: (family.environment id).lineage

/-! ## Looking up -/

/-- What a name stands for, seen from the top of some layers. -/
def lookupIn (family : Family) (kind : Kind) (key : String) : List EnvId → Option kind.Value
  | [] => none
  | id :: below =>
    match ((family.environment id).table kind).find? key with
    | some entry => entry.visible?
    | none => lookupIn family kind key below

/-- What a name of a kind stands for in an environment. -/
def lookup (family : Family) (id : EnvId) (kind : Kind) (key : String) : Option kind.Value :=
  family.lookupIn kind key (family.layers id)

/-- The names visible from the top of some layers. -/
def namesIn (family : Family) (kind : Kind) : List EnvId → List String
  | [] => []
  | id :: below => ((family.environment id).table kind).override (family.namesIn kind below)

/-- The names of a kind that stand for something in an environment. -/
def names (family : Family) (id : EnvId) (kind : Kind) : List String :=
  family.namesIn kind (family.layers id)

/-! ## Changing -/

def modifyEnvironment (family : Family) (id : EnvId) (change : Environment → Environment) :
    Family :=
  { family with members := family.members.modify id change }

def modifyOptions (family : Family) (id : EnvId) (change : Options → Options) : Family :=
  family.modifyEnvironment id fun env => { env with options := change env.options }

def modifyTable (family : Family) (id : EnvId) (kind : Kind)
    (change : Table kind.Value → Table kind.Value) : Family :=
  family.modifyEnvironment id fun env => env.setTable kind (change (env.table kind))

/-- Lets a name stand for a value. -/
def store (family : Family) (id : EnvId) (kind : Kind) (key : String) (value : kind.Value) :
    Family :=
  family.modifyTable id kind (Table.set key (.value value))

/-- Lets a name stand for nothing. An overlay has to say so when the name would show through. -/
def discard (family : Family) (id : EnvId) (kind : Kind) (key : String) : Family :=
  if (family.lookupIn kind key (family.environment id).lineage).isSome then
    family.modifyTable id kind (Table.set key .removed)
  else family.modifyTable id kind (Table.erase key)

/-! ## New environments -/

/-- Adds an environment, and gives its number. -/
def add (family : Family) (env : Environment) : Family × EnvId :=
  ({ family with members := family.members.push env }, family.members.size)

/-- Adds a root without names. -/
def addRoot (family : Family) : Family × EnvId := family.add .bare

/-- Adds an overlay of an environment. -/
def overlay (family : Family) (id : EnvId) : Family × EnvId :=
  family.add { Environment.bare with lineage := family.layers id, options := family.options id }

/-- The table that says itself everything that is visible of a kind. -/
def flatTable (family : Family) (id : EnvId) (kind : Kind) : Table kind.Value :=
  (family.names id kind).filterMap fun key =>
    (family.lookup id kind key).map fun value => (key, .value value)

/-- Adds a root that shows what an environment shows now. -/
def snapshot (family : Family) (id : EnvId) : Family × EnvId :=
  family.add
    { lineage := []
      operators := family.flatTable id .operators
      functions := family.flatTable id .functions
      vars := family.flatTable id .vars
      options := family.options id }

/-! ## Variables -/

/-- Adds a register for a last answer, which is zero at first. -/
def addAnswer (family : Family) : Family × Variable :=
  ({ family with answers := family.answers.push .zero }, .answer family.answers.size)

/-- Puts a value into a register. -/
def setAnswer (family : Family) (register : Nat) (value : Decimal) : Family :=
  { family with answers := family.answers.setIfInBounds register value }

/-- The value of a variable at a time. -/
def valueOf (family : Family) (now : Int) : Variable → Decimal
  | .fixed value => value
  | .constant value => value
  | .clock => .ofInt now
  | .answer register => (family.answers[register]?).getD .zero

/-! ## Inspection -/

/-- The numbers of names that a root has of each kind. -/
def inspectRoot (family : Family) (id : EnvId) : String :=
  let count (kind : Kind) : String := toString (family.names id kind).length
  "<Environment operators=" ++ count .operators ++ " functions=" ++ count .functions ++
    " variables=" ++ count .vars ++ ">"

/-- Layers in words, from the top down. -/
def inspectLayers (family : Family) : List EnvId → String
  | [] => ""
  | [root] => family.inspectRoot root
  | _ :: below => "<Overlay over " ++ inspectLayers family below ++ ">"

/-- A short description of an environment, for inspection. -/
def inspect (family : Family) (id : EnvId) : String := family.inspectLayers (family.layers id)

end Family
end Calculator
