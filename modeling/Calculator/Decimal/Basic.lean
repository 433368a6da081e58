/-!
# Calculator.Decimal.Basic

Decimal numbers: a sign, a coefficient and an exponent of ten, or a special value. Numbers that
denote the same rational may differ in coefficient and exponent (`1.5` and `1.50`), and zero has a
sign; `order` compares what is denoted.

Mathematical meaning: `finite n c e` denotes `±c · 10 ^ e`, negative when `n` holds.
-/

namespace Calculator

/-- The number of decimal digits of `n`, by dividing by ten at most `fuel` times. -/
def digitCountBy : Nat → Nat → Nat
  | 0, _ => 1
  | fuel + 1, n => if n < 10 then 1 else digitCountBy fuel (n / 10) + 1

def tenPow (n : Nat) : Nat := Nat.pow 10 n

/-- The number of decimal digits of `n`; zero has one. Most of the digits are counted at once:
`2 ^ 10` exceeds `10 ^ 3`, so `10 ^ (3 b / 10)` is at most `2 ^ b`. -/
def digitCount (n : Nat) : Nat :=
  let sure := n.log2 * 3 / 10
  sure + digitCountBy (n.log2 + 1) (n / tenPow sure)

inductive Decimal where
  | finite (negative : Bool) (coefficient : Nat) (exponent : Int)
  | infinity (negative : Bool)
  | nan (negative : Bool) (signaling : Bool) (payload : Nat)
  deriving DecidableEq, Repr

namespace Decimal

def ofNat (n : Nat) : Decimal := .finite false n 0

def ofInt (z : Int) : Decimal := .finite (z < 0) z.natAbs 0

def zero : Decimal := .ofNat 0

def one : Decimal := .ofNat 1

def isFinite : Decimal → Bool
  | .finite .. => true
  | _ => false

/-- The same number with the opposite sign, zero and special values included. -/
def negate : Decimal → Decimal
  | .finite n c e => .finite (!n) c e
  | .infinity n => .infinity (!n)
  | .nan n s p => .nan (!n) s p

/-- The same number with a positive sign. -/
def absolute : Decimal → Decimal
  | .finite _ c e => .finite false c e
  | .infinity _ => .infinity false
  | .nan _ s p => .nan false s p

/-- The exponent of the leading digit of `c · 10 ^ e`. -/
def adjusted (c : Nat) (e : Int) : Int := e + digitCount c - 1

/-- The order of `c₁ · 10 ^ e₁` and `c₂ · 10 ^ e₂`. Only numbers of the same leading exponent are
brought to a common exponent, so no power of ten longer than a coefficient is formed. -/
def orderMagnitudes (c₁ : Nat) (e₁ : Int) (c₂ : Nat) (e₂ : Int) : Ordering :=
  if c₁ = 0 then (if c₂ = 0 then .eq else .lt)
  else if c₂ = 0 then .gt
  else if adjusted c₁ e₁ < adjusted c₂ e₂ then .lt
  else if adjusted c₂ e₂ < adjusted c₁ e₁ then .gt
  else compare (c₁ * tenPow (e₁ - e₂).toNat) (c₂ * tenPow (e₂ - e₁).toNat)

/-- The exact order of two numbers, signed zeros being equal; a NaN has no order. -/
def order : Decimal → Decimal → Option Ordering
  | .nan .., _ => none
  | _, .nan .. => none
  | .infinity n, .infinity m =>
    some (if n = m then .eq else if n then .lt else .gt)
  | .infinity n, .finite .. => some (if n then .lt else .gt)
  | .finite .., .infinity m => some (if m then .gt else .lt)
  | .finite n c e, .finite m d f =>
    match n && c != 0, m && d != 0 with
    | false, false => some (orderMagnitudes c e d f)
    | true, false => some .lt
    | false, true => some .gt
    | true, true => some (orderMagnitudes d f c e)

/-- Whether two numbers are equal in value; a NaN equals nothing. -/
def sameValue (a b : Decimal) : Bool := order a b == some .eq

end Decimal
end Calculator
