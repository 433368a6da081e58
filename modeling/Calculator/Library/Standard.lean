import Calculator.Environment.Registration
import Calculator.Library.Functions

/-!
# Calculator.Library.Standard

Libraries, which are installed into an environment as a whole, and the standard library: twelve
operators, nine functions, the number pi, the time, and the last answer, in the 128 bit context.
-/

namespace Calculator

structure Library where
  operators : List Binding
  functions : List (String × Function)
  vars : List (String × Variable)
  context : Option Context

namespace Library

/-- The library that has variables only. -/
def ofVariables (vars : List (String × Variable)) : Library := ⟨[], [], vars, none⟩

/-- The number pi to fifty-one digits. -/
def pi : Decimal :=
  .finite false 314159265358979323846264338327950288419716939937510 (-50)

/-- The standard library with its register for the last answer. -/
def standard (answer : Variable) : Library where
  operators := Operators.all
  functions := Functions.all.map fun f => (f.name, .native f)
  vars := [("pi", .constant pi), ("now", .clock), ("ans", answer)]
  context := some (.ofDigits 34)

/-- The registrations that install a library. -/
def registrations (library : Library) (id : EnvId) : List (Family → Except Refusal Family) :=
  (library.operators.map fun binding family =>
    family.setOperation id (some binding.symbol) (.given binding.operation)
      (.given binding.precedence)) ++
  (library.functions.map fun (name, f) family => family.setFunction id (some name) (.given f)) ++
  (library.vars.map fun (name, v) family =>
    family.setVariable id (some name) (.variable v)) ++
  match library.context with
  | none => []
  | some ctx => [fun family => family.setContext id (some ctx)]

end Library

namespace Family

/-- Installs a library. What was registered before a refusal stays. -/
def install (family : Family) (id : EnvId) (library : Library) : Family × Option Refusal :=
  family.applyAll (library.registrations id)

/-- Installs the standard library with a fresh register, which is never refused. -/
def installStandard (family : Family) (id : EnvId) : Family :=
  let (family, answer) := family.addAnswer
  (family.install id (.standard answer)).1

def addStandard (family : Family) : Family × EnvId :=
  let (family, id) := family.addRoot
  (family.installStandard id, id)

end Family
end Calculator
