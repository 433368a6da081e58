import Calculator.Decimal.Text
import Calculator.Operation

/-!
# Calculator.Chain

Chains of steps. An expression without brackets is a chain: each operator, with the values at its
sides, is one step, linked to its neighbours by their places. Steps are added at the end; a step
that has been resolved is spliced out, which hands its value to its neighbours and leaves the step
itself behind, inactive.

Mathematical meaning: the steps met on the way from the head along the links are an alternating
list of values and operators.
-/

namespace Calculator

structure Step where
  left : Decimal
  operation : Operation
  right : Decimal
  precedence : Nat
  symbol : String
  previous : Option Nat := none
  next : Option Nat := none
  active : Bool := true

namespace Step

/-- The symbol that stands for the step: the one it was given, or that of its operation. -/
def shownSymbol (step : Step) : String :=
  if step.symbol.isEmpty then step.operation.symbol else step.symbol

/-- The step as text: its values around its symbol. -/
def text (step : Step) : String :=
  step.left.positionalText ++ step.shownSymbol ++ step.right.positionalText

end Step

structure StepChain where
  steps : Array Step
  head : Option Nat

namespace StepChain

def empty : StepChain := ⟨#[], none⟩

def append (chain : StepChain) (step : Step) : StepChain :=
  let index := chain.steps.size
  if index = 0 then ⟨#[step], some 0⟩
  else
    let steps := chain.steps.modify (index - 1) fun last => { last with next := some index }
    { chain with steps := steps.push { step with previous := some (index - 1) } }

/-- The chain that a single value makes. -/
def ofValue (value : Decimal) : StepChain :=
  empty.append
    { left := value, operation := .handBack, right := value, precedence := 0,
      symbol := Operation.handBack.symbol }

/-- The places met along the links from a place on, at most `fuel` of them. -/
def walkFrom (chain : StepChain) : Nat → Option Nat → List Nat
  | 0, _ => []
  | _, none => []
  | fuel + 1, some index =>
    match chain.steps[index]? with
    | none => []
    | some step => index :: walkFrom chain fuel step.next

/-- The places of the steps from the head on. Links lead forwards, so that no more steps are met
than there are. -/
def walk (chain : StepChain) : List Nat := chain.walkFrom chain.steps.size chain.head

def activeSteps (chain : StepChain) : List Step := chain.walk.filterMap (chain.steps[·]?)

/-- The highest precedence of the steps from the head on. -/
def maxPrecedence (chain : StepChain) : Nat :=
  chain.activeSteps.foldl (fun most step => max most step.precedence) 0

/-- The steps from the head on as text: values and symbols in turn. -/
def text (chain : StepChain) : String :=
  let steps := chain.activeSteps
  match steps.getLast? with
  | none => ""
  | some last =>
    steps.foldl (fun text step => text ++ step.left.positionalText ++ step.shownSymbol) "" ++
      last.right.positionalText

/-- Hands the value of a resolved step to the step before it, and links that past it. -/
def handBackwards (steps : Array Step) (step : Step) (value : Decimal) : Array Step :=
  match step.previous with
  | none => steps
  | some before => steps.modify before fun s => { s with right := value, next := step.next }

/-- Hands the value of a resolved step to the step after it, and links that past it. -/
def handForwards (steps : Array Step) (step : Step) (value : Decimal) : Array Step :=
  match step.next with
  | none => steps
  | some after => steps.modify after fun s => { s with left := value, previous := step.previous }

/-- The chain in which the step at a place has been resolved to a value. The last step that is
left stays, and has the value at its right. -/
def splice (chain : StepChain) (index : Nat) (value : Decimal) : StepChain :=
  match chain.steps[index]? with
  | none => chain
  | some step =>
    if step.previous.isNone && step.next.isNone then
      { chain with steps := chain.steps.modify index fun s => { s with right := value } }
    else
      let steps := handForwards (handBackwards chain.steps step value) step value
      { steps := steps.modify index fun s => { s with active := false }
        head := if chain.head = some index then step.next else chain.head }

end StepChain
end Calculator
