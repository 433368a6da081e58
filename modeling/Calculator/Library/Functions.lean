import Calculator.Function
import Calculator.Library.Operators

/-!
# Calculator.Library.Functions

The functions of the standard library. Rounding, absolute values, minima and maxima are exact; the
others compute in the context in force.
-/

namespace Calculator
namespace Functions

/-- A standard function. -/
def standard (name : String) (least : Nat) (most : Option Nat) (body : NativeBody) :
    NativeFunction where
  name := name
  label := "NativeFunction"
  origin := "expcalc.expcalc_runtime.StdLib._" ++ name
  least := least
  most := most
  body := body

def unary (name : String) (run : Context → Decimal → Except Fault Decimal) : NativeFunction :=
  standard name 1 (some 1) <| .plain fun ctx arguments =>
    match arguments with
    | [a] => faultToFailure (run ctx a)
    | _ => .error (.ofCause (.arity (.exactly 1) arguments.length))

def binary (name : String) (run : Context → Decimal → Decimal → Except Fault Decimal) :
    NativeFunction :=
  standard name 2 (some 2) <| .plain fun ctx arguments =>
    match arguments with
    | [a, b] => faultToFailure (run ctx a b)
    | _ => .error (.ofCause (.arity (.exactly 2) arguments.length))

/-- The first of two numbers when their order is accepted, and the second otherwise. -/
def choose (accept : Ordering → Bool) (_ : Context) (a b : Decimal) : Except Fault Decimal :=
  match Decimal.order a b with
  | none => Decimal.invalid .operation
  | some o => .ok (if accept o then a else b)

/-- The number at a fraction of the way between two numbers. -/
def between (ctx : Context) (fraction low high : Decimal) : Except Fault Decimal := do
  low.add ctx (← (← high.subtract ctx low).multiply ctx fraction)

/-- A random number: from zero to one, to a bound, or between two bounds. -/
def random (ctx : Context) (fraction : Decimal) (arguments : List Decimal) :
    Except Failure Decimal :=
  match arguments with
  | [] => .ok fraction
  | [high] => faultToFailure (between ctx fraction .zero high)
  | [low, high] => faultToFailure (between ctx fraction low high)
  | _ => .error (.ofCause (.arity (.ofBounds 0 (some 2)) arguments.length))

/-- The standard functions. -/
def all : List NativeFunction := [
  unary "abs" fun _ a => .ok a.absolute,
  unary "ceil" fun _ a => a.toIntegral .ceiling,
  unary "floor" fun _ a => a.toIntegral .floor,
  binary "max" (choose (· != .lt)),
  binary "min" (choose (· != .gt)),
  unary "neg" fun ctx a => a.minus ctx,
  standard "random" 0 (some 2) (.drawing random),
  unary "round" fun _ a => a.toIntegral .halfUp,
  unary "sqrt" fun ctx a => a.squareRoot ctx]

def find? (name : String) : Option NativeFunction := all.find? (·.name = name)

end Functions
end Calculator
