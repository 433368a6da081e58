import Calculator.Decimal.Power
import Calculator.Operation

/-!
# Calculator.Library.Operators

The operators of the standard library: arithmetic in the context in force, powers with whole
exponents, and comparisons, which are exact and give one for true and zero for false.
-/

namespace Calculator

/-- A decimal result as the result of an operation. -/
def faultToFailure {α : Type} : Except Fault α → Except Failure α
  | .ok a => .ok a
  | .error f => .error (.fault f)

def truth (holds : Bool) : Decimal := if holds then .one else .zero

namespace Operators

/-- The whole number that an integral decimal is. -/
def wholeNumber : Decimal → Except Fault Int
  | .finite n c e => .ok ((if n then -1 else 1) * (c * tenPow e.toNat : Nat))
  | .infinity _ => .error .infiniteWhole
  | .nan .. => .error .nanWhole

/-- The left operand raised to the right one, which is rounded down to a whole number; to the
power of zero everything is one. -/
def power (ctx : Context) (a b : Decimal) : Except Fault Decimal := do
  let exponent ← wholeNumber (← b.toIntegral .floor)
  if exponent = 0 then .ok .one else a.power ctx exponent

def isSignaling : Decimal → Bool
  | .nan _ true _ => true
  | _ => false

/-- A test for equality or its opposite: a NaN is unequal to everything. -/
def equality (test : Option Ordering → Bool) (_ : Context) (a b : Decimal) :
    Except Fault Decimal :=
  if isSignaling a || isSignaling b then Decimal.invalid .operation
  else .ok (truth (test (Decimal.order a b)))

/-- A test of order, which a NaN does not have. -/
def comparison (test : Ordering → Bool) (_ : Context) (a b : Decimal) : Except Fault Decimal :=
  match Decimal.order a b with
  | none => Decimal.invalid .operation
  | some o => .ok (truth (test o))

/-- A standard operator: its symbol, its precedence, the name of its definition, and what it
computes. -/
def standard (symbol : String) (precedence : Nat) (name : String)
    (apply : Context → Decimal → Decimal → Except Fault Decimal) : Binding where
  symbol := symbol
  precedence := precedence
  operation :=
    { symbol := symbol
      precedence := precedence
      label := "NativeOperation"
      origin := "expcalc.expcalc_runtime._" ++ name
      apply := fun ctx a b => faultToFailure (apply ctx a b) }

/-- The standard operators. -/
def all : List Binding := [
  standard "+" 1 "add" fun ctx a b => a.add ctx b,
  standard "-" 1 "sub" fun ctx a b => a.subtract ctx b,
  standard "*" 2 "mul" fun ctx a b => a.multiply ctx b,
  standard "/" 2 "div" fun ctx a b => a.divide ctx b,
  standard "%" 2 "rem" fun ctx a b => a.remainder ctx b,
  standard "^" 3 "pow" power,
  standard "==" 0 "eq" (equality (· == some .eq)),
  standard "!=" 0 "neq" (equality (· != some .eq)),
  standard "<" 0 "lt" (comparison (· == .lt)),
  standard ">" 0 "gt" (comparison (· == .gt)),
  standard "<=" 0 "lte" (comparison (· != .gt)),
  standard ">=" 0 "gte" (comparison (· != .lt))]

/-- The operation of a standard operator with a precedence of its own. -/
def operation? (symbol : String) (precedence : Int) : Option Operation :=
  (all.find? (·.symbol = symbol)).map fun binding =>
    { binding.operation with precedence := precedence }

end Operators
end Calculator
