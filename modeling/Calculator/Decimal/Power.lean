import Calculator.Decimal.Arithmetic

/-!
# Calculator.Decimal.Power

Integer powers in a context. A few extra digits are carried while the power is formed by squaring
and multiplying, and the result is rounded once more at the end. Powers that are certain to leave
the range of exponents are recognised first, so that the work is bounded by the digits of the
exponent.
-/

namespace Calculator
namespace Decimal

/-- The product of two rounded numbers, with what was lost so far. -/
def multiplyRounded (ctx : Context) (a b : Rounded) : Rounded :=
  let overflow := a.overflow || b.overflow
  let inexact := a.inexact || b.inexact
  match a.value, b.value with
  | .finite n c e, .finite m d f =>
    let r := ctx.round (n ^^ m) (c * d) (e + f)
    ⟨r.value, overflow || r.overflow, inexact || r.inexact⟩
  | .infinity n, .finite m _ _ => ⟨.infinity (n ^^ m), overflow, inexact⟩
  | .finite n _ _, .infinity m => ⟨.infinity (n ^^ m), overflow, inexact⟩
  | .infinity n, .infinity m => ⟨.infinity (n ^^ m), overflow, inexact⟩
  | value, _ => ⟨value, overflow, inexact⟩

/-- Whether further multiplication leaves a number as it is. -/
def settled : Decimal → Bool
  | .finite _ c _ => c == 0
  | _ => true

/-- The binary digits of a number, the lowest first. -/
def bits : Nat → Nat → List Bool
  | 0, _ => []
  | fuel + 1, n => if n = 0 then [] else (n % 2 == 1) :: bits fuel (n / 2)

/-- The power whose exponent has the given binary digits left, from the highest on: square for
each, and multiply where it is set. -/
def powerDown (ctx : Context) (base : Rounded) : Rounded → List Bool → Rounded
  | acc, [] => acc
  | acc, bit :: rest =>
    let acc := multiplyRounded ctx acc acc
    let acc := if bit then multiplyRounded ctx acc base else acc
    if settled acc.value then acc else powerDown ctx base acc rest

/-- The power whose exponent has the given binary digits left, from the lowest on: multiply where
one is set, and square the base for each. -/
def powerUp (ctx : Context) : Rounded → Rounded → List Bool → Rounded
  | acc, _, [] => acc
  | acc, base, bit :: rest =>
    let acc := if bit then multiplyRounded ctx acc base else acc
    if bit && settled acc.value then acc
    else powerUp ctx acc (multiplyRounded ctx base base) rest

/-- How many numbers a machine word can hold. -/
def wordSize : Nat := 18446744073709551616

/-- A power with a positive exponent. An exponent that fills a machine word is taken from its
lowest digit, a longer one likewise but from the other end. -/
def powerNat (ctx : Context) (base : Rounded) (n : Nat) : Rounded :=
  let digits := bits (n.log2 + 1) n
  if n < wordSize then
    match digits.reverse with
    | [] => base
    | _ :: rest => powerDown ctx base base rest
  else powerUp ctx (Context.exact .one) base digits

def exponentDigits (e : Int) : Int := digitCount e.natAbs

/-- A lower bound of the exponent of the logarithm of `c · 10 ^ e`, which is not one. -/
def logarithmExponent (c : Nat) (e : Int) : Int :=
  let t := adjusted c e
  if 0 < t then exponentDigits t - 1
  else if t < -1 then exponentDigits (t + 1) - 1
  else
    let low := min e 0
    let distance := (((c * tenPow (e - low).toNat : Nat) : Int) - tenPow (-low).toNat).natAbs
    let u := adjusted distance low
    if t = 0 then u - 2 else u - 1

/-- A number raised to a nonzero integer power. -/
def power (ctx : Context) (a : Decimal) (exponent : Int) : Except Fault Decimal :=
  match nanResult? ctx a a with
  | some r => r
  | none =>
    let n := exponent.natAbs
    let down := decide (exponent < 0)
    match a with
    | .infinity negative =>
      let sign := negative && n % 2 == 1
      .ok (if down then .finite sign 0 0 else .infinity sign)
    | .finite negative c e =>
      let sign := negative && n % 2 == 1
      if c = 0 then .ok (if down then .infinity sign else .finite sign 0 0)
      else if orderMagnitudes c e 1 0 == .eq then
        let places := if down then 0 else min (n * (-e).toNat) (ctx.precision - 1)
        .ok (.finite sign (tenPow places) (-places))
      else
        let reach := logarithmExponent c e + exponentDigits exponent - 1
        let shrinks := decide (adjusted c e < 0) ^^ down
        if !shrinks && decide (exponentDigits ctx.maxExponent < reach) then
          ctx.deliver (Context.tooLarge sign)
        else if shrinks && decide (exponentDigits ctx.tiniest < reach) then
          ctx.finish sign 1 (ctx.tiniest - 1)
        else
          let wider : Context :=
            { ctx with precision := ctx.precision + digitCount n + 2 + if down then 1 else 0 }
          let base :=
            if down then divideRounded wider false 1 0 negative c e
            else Context.exact (.finite negative c e)
          let r := powerNat wider base n
          match r.value with
          | .finite _ c e =>
            let final := ctx.round sign c e
            ctx.deliver
              ⟨final.value, r.overflow || final.overflow, r.inexact || final.inexact⟩
          | _ => ctx.deliver (Context.tooLarge sign)
    | .nan .. => invalid .operation

end Decimal
end Calculator
