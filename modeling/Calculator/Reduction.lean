import Calculator.Trace

/-!
# Calculator.Reduction

Reducing a chain to a value: the steps of the highest precedence first, those of one precedence
from left to right. A step that fails stops the reduction, and the chain stays as far as it has
been reduced.

Mathematical meaning: an operator of higher precedence binds tighter, and operators of equal
precedence associate to the left.
-/

namespace Calculator

/-- A reduction on its way: the chain that is left, the value of the last step resolved, and what
there is to report, the newest first. -/
structure Reduction where
  chain : StepChain
  value : Option Decimal
  events : List Event

abbrev Reducing := EStateM Failure Reduction

namespace Reduction

def start (chain : StepChain) : Reduction := ⟨chain, none, []⟩

def report (tracing : Bool) (event : Unit → Event) : Reducing Unit :=
  modify fun r => if tracing then { r with events := event () :: r.events } else r

/-- Resolves the step at a place. The positional texts of its operands are asked for at every step,
reported or not, and before any failure is caught; here they are made in reports only. It is
assumed that there is always memory for them, although in a context without limits such a text can
have 10 ^ 15 digits. -/
def resolve (ctx : Context) (tracing : Bool) (index : Nat) (step : Step) : Reducing Unit := do
  report tracing fun _ => .step step
  match step.operation.apply ctx step.left step.right with
  | .error failure => throw (failure.atOperator step.symbol)
  | .ok value =>
    modify fun r => { r with chain := r.chain.splice index value, value := some value }
    if tracing then
      let chain := (← get).chain
      match chain.steps[index]? with
      | some step => if step.active then pure () else report true fun _ => .remaining chain
      | none => pure ()

/-- Resolves the steps of one precedence, from a place on along the links; at most `fuel` steps
are visited. -/
def resolveLevel (ctx : Context) (tracing : Bool) (level : Nat) : Nat → Option Nat → Reducing Unit
  | 0, _ => pure ()
  | _, none => pure ()
  | fuel + 1, some index => do
    match (← get).chain.steps[index]? with
    | none => pure ()
    | some step =>
      if step.precedence = level then resolve ctx tracing index step
      resolveLevel ctx tracing level fuel step.next

/-- Resolves the steps of a precedence from the head on. -/
def resolveAll (ctx : Context) (tracing : Bool) (level : Nat) : Reducing Unit := do
  let chain := (← get).chain
  resolveLevel ctx tracing level chain.steps.size chain.head

/-- Resolves the steps of a precedence and then of all lower ones. -/
def resolveDown (ctx : Context) (tracing : Bool) : Nat → Reducing Unit
  | 0 => resolveAll ctx tracing 0
  | level + 1 => do
    resolveAll ctx tracing (level + 1)
    resolveDown ctx tracing level

/-- Reduces the chain to its value, which an empty chain does not have. -/
def complete (ctx : Context) (tracing : Bool) : Reducing (Option Decimal) := do
  resolveDown ctx tracing (← get).chain.maxPrecedence
  return (← get).value

end Reduction
end Calculator
