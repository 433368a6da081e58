import Calculator.Decimal.Basic
import Calculator.Fault

/-!
# Calculator.Decimal.Context

Decimal contexts: how many digits a result keeps, which exponents it may have, and whether rounding
is an error. Every rounding goes to the nearest number and, at a tie, to the even digit.

Mathematical meaning: `ctx.round n c e` is the number of the context that is nearest to
`±c · 10 ^ e`, together with what was lost.
-/

namespace Calculator

structure Context where
  precision : Nat
  maxExponent : Int
  minExponent : Int
  /-- Whether a result that had to be rounded is an error. -/
  trapsInexact : Bool
  deriving DecidableEq, Repr

/-- The conditions a context can turn into an error. -/
inductive Signal where
  | divisionByZero
  | invalidOperation
  | overflow
  | underflow
  | inexact
  deriving DecidableEq, Repr

namespace Context

/-- The context of the given number of digits; rounding is silent. -/
def ofDigits (digits : Nat) : Context := ⟨digits, 999999, -999999, false⟩

/-- The context that never rounds: a result that does not fit exactly is an error. -/
def unlimited : Context := ⟨10000, 999999999999999999, -999999999999999999, true⟩

/-- The context in force where no environment provides one. -/
def ambient : Context := ofDigits 28

def maxPrecision : Nat := 999999999999999999

def traps (ctx : Context) : List Signal :=
  [.divisionByZero, .invalidOperation, .overflow] ++ if ctx.trapsInexact then [.inexact] else []

/-- The exponent of the last digit of the smallest numbers. -/
def tiniest (ctx : Context) : Int := ctx.minExponent - ctx.precision + 1

end Context

/-- The nearest natural number to `n / d`, the even one at a tie. -/
def divideHalfEven (n d : Nat) : Nat :=
  let q := n / d
  let r := n % d
  if d < 2 * r || (2 * r == d && q % 2 == 1) then q + 1 else q

/-- A rounded number and what the rounding lost. -/
structure Rounded where
  value : Decimal
  overflow : Bool
  inexact : Bool
  deriving DecidableEq, Repr

namespace Context

/-- A number that was not changed by rounding. -/
def exact (value : Decimal) : Rounded := ⟨value, false, false⟩

/-- A result too large for the context: an infinity. -/
def tooLarge (negative : Bool) : Rounded := ⟨.infinity negative, true, true⟩

/-- A nonzero result after its rounding, if its exponent is not too large. -/
def fit (ctx : Context) (negative : Bool) (c : Nat) (e : Int) (inexact : Bool) : Rounded :=
  if c ≠ 0 ∧ ctx.maxExponent < Decimal.adjusted c e then tooLarge negative
  else ⟨.finite negative c e, false, inexact⟩

/-- The number of the context nearest to `±c · 10 ^ e`. The exponent of a zero is brought into
range; a number with too many digits, or with digits below the smallest exponent, loses its last
ones. -/
def round (ctx : Context) (negative : Bool) (c : Nat) (e : Int) : Rounded :=
  if c = 0 then exact (.finite negative 0 (max ctx.tiniest (min ctx.maxExponent e)))
  else
    let digits := digitCount c
    let drop := max ((digits : Int) - ctx.precision) (ctx.tiniest - e)
    if ctx.maxExponent < Decimal.adjusted c e then tooLarge negative
    else if drop ≤ 0 then exact (.finite negative c e)
    else if (digits : Int) < drop then ⟨.finite negative 0 (e + drop), false, true⟩
    else
      let unit := tenPow drop.toNat
      let q := divideHalfEven c unit
      let inexact := c % unit != 0
      if ctx.precision < digitCount q then ctx.fit negative (q / 10) (e + drop + 1) inexact
      else ctx.fit negative q (e + drop) inexact

/-- A rounded number as the result of an operation: the conditions that the context traps are
errors. -/
def deliver (ctx : Context) (r : Rounded) : Except Fault Decimal :=
  if r.overflow then .error (.overflow ctx.trapsInexact)
  else if r.inexact && ctx.trapsInexact then .error .inexact
  else .ok r.value

/-- The result of an operation whose exact value is `±c · 10 ^ e`. -/
def finish (ctx : Context) (negative : Bool) (c : Nat) (e : Int) : Except Fault Decimal :=
  ctx.deliver (ctx.round negative c e)

end Context
end Calculator
