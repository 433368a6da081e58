import Calculator.Decimal.Context

/-!
# Calculator.Decimal.Arithmetic

Arithmetic in a context: each operation forms its exact result, or one close enough to round alike,
and rounds once.

Mathematical meaning: on finite operands an operation that succeeds gives the number of the context
nearest to the exact result. Exponents follow the ideal of each operation: the smaller one for sums
and remainders, the sum for products, the difference for exact quotients, half for exact roots.
-/

namespace Calculator
namespace Decimal

def invalid (reason : InvalidReason) : Except Fault Decimal := .error (.invalidOperation reason)

/-- A NaN as the result of an operation; its payload is cut to the digits of the context. -/
def quietNan (ctx : Context) (negative : Bool) (payload : Nat) : Decimal :=
  .nan negative false (if ctx.precision < digitCount payload then payload % tenPow ctx.precision
    else payload)

/-- The result that NaN operands force: a signaling NaN is an error, a quiet one is passed on, the
first before the second. -/
def nanResult? (ctx : Context) : Decimal → Decimal → Option (Except Fault Decimal)
  | .nan _ true _, _ => some (invalid .operation)
  | _, .nan _ true _ => some (invalid .operation)
  | .nan n false p, _ => some (.ok (quietNan ctx n p))
  | _, .nan n false p => some (.ok (quietNan ctx n p))
  | _, _ => none

/-! ## Sums -/

/-- The smaller-exponent operand of a sum as far as the context can see it: when all of its digits
lie far to the right of the digits of `c · 10 ^ e`, a single digit stands for them. -/
def visible (ctx : Context) (c : Nat) (e : Int) (small : Nat) (f : Int) : Nat × Int :=
  let digits := digitCount c
  let last := if ctx.precision < digits then e - 1 else e - 2 + digits - ctx.precision
  if c ≠ 0 ∧ adjusted small f < last then (if small = 0 then 0 else 1, last) else (small, f)

/-- The coefficient of `c · 10 ^ e` at a smaller exponent. -/
def lowered (c : Nat) (e f : Int) : Nat :=
  if c = 0 then 0 else c * tenPow (e - f).toNat

/-- Both coefficients of a sum at a common exponent, and that exponent. -/
def aligned (ctx : Context) (c : Nat) (e : Int) (d : Nat) (f : Int) : Nat × Nat × Int :=
  if e = f then (c, d, e)
  else if f < e then
    let (d, f) := visible ctx c e d f
    (lowered c e f, d, f)
  else
    let (c, e) := visible ctx d f c e
    (c, lowered d f e, e)

def signed (negative : Bool) (c : Nat) : Int := if negative then -(c : Int) else c

/-- The sum of two numbers. An exact zero is negative only if both operands are. -/
def add (ctx : Context) (a b : Decimal) : Except Fault Decimal :=
  match nanResult? ctx a b with
  | some r => r
  | none =>
    match a, b with
    | .infinity n, .infinity m => if n = m then .ok (.infinity n) else invalid .operation
    | .infinity n, _ => .ok (.infinity n)
    | _, .infinity m => .ok (.infinity m)
    | .finite n c e, .finite m d f =>
      let (c, d, e) := aligned ctx c e d f
      let sum := signed n c + signed m d
      let negative := if sum = 0 then n && m else decide (sum < 0)
      ctx.finish negative sum.natAbs e
    | _, _ => invalid .operation

def subtract (ctx : Context) (a b : Decimal) : Except Fault Decimal :=
  match nanResult? ctx a b with
  | some r => r
  | none => add ctx a b.negate

/-- The number taken from zero; the result for a zero is a positive zero. -/
def minus (ctx : Context) (a : Decimal) : Except Fault Decimal :=
  match nanResult? ctx a a with
  | some r => r
  | none =>
    match a with
    | .finite n c e => ctx.finish (if c = 0 then false else !n) c e
    | a => .ok a.negate

/-! ## Products -/

/-- The product of two numbers; zero times an infinity has no value. -/
def multiply (ctx : Context) (a b : Decimal) : Except Fault Decimal :=
  match nanResult? ctx a b with
  | some r => r
  | none =>
    match a, b with
    | .infinity n, .infinity m => .ok (.infinity (n ^^ m))
    | .infinity n, .finite m d _ => if d = 0 then invalid .operation else .ok (.infinity (n ^^ m))
    | .finite n c _, .infinity m => if c = 0 then invalid .operation else .ok (.infinity (n ^^ m))
    | .finite n c e, .finite m d f => ctx.finish (n ^^ m) (c * d) (e + f)
    | _, _ => invalid .operation

/-! ## Quotients -/

/-- `c` with up to `limit` of its trailing zeros removed, and how many were; `fuel` bounds the
search. -/
def stripZeros : Nat → Nat → Int → Nat × Int
  | 0, c, _ => (c, 0)
  | fuel + 1, c, limit =>
    if 0 < limit ∧ c ≠ 0 ∧ c % 10 = 0 then
      let (c, n) := stripZeros fuel (c / 10) (limit - 1)
      (c, n + 1)
    else (c, 0)

/-- The quotient of nonzero coefficients, before rounding: one digit more than the context keeps.
When the division leaves a remainder, a last digit 0 or 5 is raised by one, so that the rounding
sees that something follows; when it leaves none, zeros are removed down to the ideal exponent. -/
def quotient (ctx : Context) (c : Nat) (e : Int) (d : Nat) (f : Int) : Nat × Int :=
  let shift := (digitCount d : Int) - digitCount c + ctx.precision + 1
  let n := c * tenPow shift.toNat
  let m := d * tenPow (-shift).toNat
  let ideal := e - f
  let q := n / m
  if n % m = 0 then
    let (q, removed) := stripZeros (digitCount q) q shift
    (q, ideal - shift + removed)
  else if q % 5 = 0 then (q + 1, ideal - shift)
  else (q, ideal - shift)

/-- A quotient as far as it can be formed without looking at traps. -/
def divideRounded (ctx : Context) (n : Bool) (c : Nat) (e : Int) (m : Bool) (d : Nat) (f : Int) :
    Rounded :=
  if c = 0 then ctx.round (n ^^ m) 0 (e - f)
  else
    let (q, e) := quotient ctx c e d f
    ctx.round (n ^^ m) q e

def divide (ctx : Context) (a b : Decimal) : Except Fault Decimal :=
  match nanResult? ctx a b with
  | some r => r
  | none =>
    match a, b with
    | .infinity _, .infinity _ => invalid .operation
    | .infinity n, .finite m _ _ => .ok (.infinity (n ^^ m))
    | .finite n _ _, .infinity m => .ok (.finite (n ^^ m) 0 ctx.tiniest)
    | .finite n c e, .finite m d f =>
      if d = 0 then
        if c = 0 then invalid .divisionUndefined else .error .divisionByZero
      else ctx.deliver (divideRounded ctx n c e m d f)
    | _, _ => invalid .operation

/-- The remainder of a division whose quotient is cut to an integer; it has the sign of the
dividend. A quotient with more digits than the context keeps is an error. -/
def remainder (ctx : Context) (a b : Decimal) : Except Fault Decimal :=
  match nanResult? ctx a b with
  | some r => r
  | none =>
    match a, b with
    | .infinity _, _ => invalid .operation
    | .finite n c e, .infinity _ => ctx.finish n c e
    | .finite n c e, .finite _ d f =>
      if d = 0 then invalid (if c = 0 then .divisionUndefined else .operation)
      else
        let low := min e f
        if c = 0 then ctx.finish n 0 low
        else if orderMagnitudes c e d f == .lt then ctx.finish n (lowered c e low) low
        else if (ctx.precision : Int) < adjusted c e - adjusted d f then
          invalid .divisionImpossible
        else
          let c := lowered c e low
          let d := lowered d f low
          if ctx.precision < digitCount (c / d) then invalid .divisionImpossible
          else ctx.finish n (c % d) low
    | _, _ => invalid .operation

/-! ## Roots and whole numbers -/

/-- The root of a nonzero coefficient, before rounding: one digit more than the context keeps. An
exact root gets the ideal exponent; of any other, a last digit 0 or 5 is raised by one. -/
def root (ctx : Context) (c : Nat) (e : Int) : Nat × Int :=
  let half := e.fdiv 2
  let odd := e % 2 = 1
  let digits := digitCount c
  let (c, places) := if odd then (c * 10, digits / 2 + 1) else (c, (digits + 1) / 2)
  let shift := (ctx.precision : Int) + 1 - places
  let unit := tenPow (-(2 * shift)).toNat
  let n := if 0 ≤ shift then c * tenPow (2 * shift).toNat else c / unit
  let whole := 0 ≤ shift || c % unit == 0
  let r := n.sqrt
  if whole && r * r == n then (r / tenPow shift.toNat * tenPow (-shift).toNat, half)
  else if r % 5 = 0 then (r + 1, half - shift)
  else (r, half - shift)

/-- The square root of a number; a negative number has none. -/
def squareRoot (ctx : Context) (a : Decimal) : Except Fault Decimal :=
  match nanResult? ctx a a with
  | some r => r
  | none =>
    match a with
    | .infinity false => .ok a
    | .finite n c e =>
      if c = 0 then ctx.finish n 0 (e.fdiv 2)
      else if n then invalid .operation
      else
        let (r, e) := root ctx c e
        ctx.finish false r e
    | _ => invalid .operation

/-- How a number is brought to an integer. -/
inductive Rounding where
  | floor
  | ceiling
  | halfUp
  deriving DecidableEq, Repr

/-- Whether an integer part goes one away from zero, given the remaining `rest` out of `unit`. -/
def Rounding.away (mode : Rounding) (negative : Bool) (rest unit : Nat) : Bool :=
  match mode with
  | .floor => negative && rest != 0
  | .ceiling => !negative && rest != 0
  | .halfUp => unit ≤ 2 * rest

/-- The integer next to `c · 10 ^ e` for a negative `e`, away from zero as the mode says. -/
def integralCoefficient (mode : Rounding) (negative : Bool) (c : Nat) (e : Int) : Nat :=
  if (digitCount c : Int) < -e then
    if c ≠ 0 ∧ mode.away negative 1 10 then 1 else 0
  else
    let unit := tenPow (-e).toNat
    if mode.away negative (c % unit) unit then c / unit + 1 else c / unit

/-- The number as an integer; it keeps its sign, and an exponent that is not negative. -/
def toIntegral (mode : Rounding) : Decimal → Except Fault Decimal
  | .finite n c e =>
    if 0 ≤ e then .ok (.finite n c e) else .ok (.finite n (integralCoefficient mode n c e) 0)
  | .nan _ true _ => invalid .operation
  | a => .ok a

/-! ## Reduction -/

/-- The number rounded to the context and without trailing zeros. -/
def reduce (ctx : Context) (a : Decimal) : Except Fault Decimal :=
  match nanResult? ctx a a with
  | some r => r
  | none =>
    match a with
    | .finite n c e =>
      match ctx.finish n c e with
      | .ok (.finite n c e) =>
        if c = 0 then .ok (.finite n 0 0)
        else
          let (c, removed) := stripZeros (digitCount c) c (ctx.maxExponent - e)
          .ok (.finite n c (e + removed))
      | r => r
    | a => .ok a

end Decimal
end Calculator
