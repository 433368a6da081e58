import Calculator.Decimal.Context

/-!
# Calculator.Text.Double

Binary floating point numbers of 64 bits, as far as settings files need them: the number nearest to
a decimal fraction, and its shortest decimal text.

Mathematical meaning: `finite n m e` denotes `±m · 2 ^ e` with `m < 2 ^ 53` and `-1074 ≤ e ≤ 971`.
-/

namespace Calculator

inductive Double where
  | finite (negative : Bool) (mantissa : Nat) (exponent : Int)
  | infinity (negative : Bool)
  | nan
  deriving DecidableEq, Repr

namespace Double

/-- The numerator and the denominator of `c · b ^ e`. -/
def ratio (b c : Nat) (e : Int) : Nat × Nat := (c * b.pow e.toNat, b.pow (-e).toNat)

/-- The least mantissa of 53 binary digits. -/
def leastFull : Nat := 4503599627370496

/-- The number nearest to a positive ratio, the one with the even mantissa at a tie. -/
def nearest (negative : Bool) (num den : Nat) : Double :=
  let guess := (num.log2 : Int) - den.log2 - 52
  let scaled (e : Int) : Nat × Nat := (num * Nat.pow 2 (-e).toNat, den * Nat.pow 2 e.toNat)
  let (n, d) := scaled guess
  let e := max (if n < d * leastFull then guess - 1 else guess) (-1074)
  let (n, d) := scaled e
  let m := divideHalfEven n d
  let (m, e) := if m = 2 * leastFull then (leastFull, e + 1) else (m, e)
  if 971 < e then infinity negative else finite negative m e

/-- The number nearest to `±c · 10 ^ e`. -/
def ofDecimal (negative : Bool) (c : Nat) (e : Int) : Double :=
  if c = 0 || Decimal.adjusted c e < -400 then finite negative 0 (-1074)
  else if 400 < Decimal.adjusted c e then infinity negative
  else
    let (num, den) := ratio 10 c e
    nearest negative num den

/-- The exponent of the leading decimal digit of a positive ratio. -/
def leading (num den : Nat) : Int :=
  let guess := (digitCount num : Int) - digitCount den
  let (scale, unit) := ratio 10 1 guess
  if num * unit < den * scale then guess - 1 else guess

/-- The first of `count` numbers of digits, from `digits` on, that are enough to tell the number
from all others; the digits, and the exponent of the last one. -/
def shortest (m : Nat) (e : Int) : Nat → Nat → Nat × Int
  | 0, _ => (m, e)
  | count + 1, digits =>
    let (num, den) := ratio 2 m e
    let last := leading num den - digits + 1
    let (scale, unit) := ratio 10 1 last
    let c := divideHalfEven (num * unit) (den * scale)
    if ofDecimal false c last = finite false m e then (c, last)
    else shortest m e count (digits + 1)

/-- The text of a number: positional unless it is very large or very small. -/
def text : Double → String
  | nan => "nan"
  | infinity negative => if negative then "-inf" else "inf"
  | finite negative m e =>
    let sign := if negative then "-" else ""
    if m = 0 then sign ++ "0.0"
    else
      let (c, last) := shortest m e 17 1
      let all := Nat.toDigits 10 c
      let ds := (all.reverse.dropWhile (· == '0')).reverse
      let place := last + all.length
      let zeros (n : Int) : List Char := List.replicate n.toNat '0'
      let digits :=
        if place ≤ -4 || 16 < place then
          let fraction := if ds.length ≤ 1 then [] else '.' :: ds.drop 1
          let shown := Nat.toDigits 10 (place - 1).natAbs
          let shown := if shown.length < 2 then '0' :: shown else shown
          ds.take 1 ++ fraction ++ 'e' :: (if place - 1 < 0 then '-' else '+') :: shown
        else if place ≤ 0 then '0' :: '.' :: zeros (-place) ++ ds
        else if ds.length ≤ place then ds ++ zeros (place - ds.length) ++ ['.', '0']
        else ds.take place.toNat ++ '.' :: ds.drop place.toNat
      sign ++ String.ofList digits

end Double
end Calculator
