import Calculator.Decimal.Basic
import Calculator.Text.Blank
import Calculator.Text.Digit

/-!
# Calculator.Decimal.Text

Written forms of decimals, and reading them. The scientific form shows sign, coefficient and
exponent; the engineering form has exponents divisible by three; the positional form has no exponent
at all. Reading takes every digit of the text.
-/

namespace Calculator
namespace Decimal

def digits (n : Nat) : List Char := Nat.toDigits 10 n

def zeros (n : Nat) : List Char := List.replicate n '0'

def sign (negative : Bool) : List Char := if negative then ['-'] else []

/-- Digits with a point after the first `place` of them; zeros fill the gap when `place` lies
outside. -/
def pointed (ds : List Char) (place : Int) : List Char :=
  if place ≤ 0 then '0' :: '.' :: zeros (-place).toNat ++ ds
  else if ds.length ≤ place then ds ++ zeros (place - ds.length).toNat
  else ds.take place.toNat ++ '.' :: ds.drop place.toNat

def specialText (negative : Bool) : Decimal → List Char
  | .infinity _ => sign negative ++ "Infinity".toList
  | .nan _ signaling payload =>
    sign negative ++ (if signaling then "sNaN" else "NaN").toList ++
      (if payload = 0 then [] else digits payload)
  | .finite .. => []

/-- An exponent with its sign, after the letter E. -/
def exponentText (e : Int) : List Char :=
  'E' :: (if e < 0 then '-' else '+') :: digits e.natAbs

/-- The text of a finite number whose point stands after `place` digits when its exponent is
shown; `left` digits stand left of the point when it is not. -/
def withExponent (negative : Bool) (ds : List Char) (left place : Int) : List Char :=
  sign negative ++ pointed ds place ++ (if left = place then [] else exponentText (left - place))

/-- The scientific form: positional while the exponent is not positive and at most six places lie
between the point and the first digit, otherwise one digit before the point. -/
def toScientific : Decimal → List Char
  | .finite n c e =>
    let ds := digits c
    let left := e + ds.length
    withExponent n ds left (if e ≤ 0 ∧ -6 < left then left else 1)
  | .infinity n => specialText n (.infinity n)
  | .nan n s p => specialText n (.nan n s p)

/-- The engineering form: like the scientific form, with exponents that are multiples of three. -/
def toEngineering : Decimal → List Char
  | .finite n c e =>
    let ds := digits c
    let left := e + ds.length
    let place := if e ≤ 0 ∧ -6 < left then left
      else if c = 0 then (left + 1) % 3 - 1
      else (left - 1) % 3 + 1
    withExponent n ds left place
  | .infinity n => specialText n (.infinity n)
  | .nan n s p => specialText n (.nan n s p)

/-- The positional form: every digit in its place, no exponent. -/
def toPositional : Decimal → List Char
  | .finite n c e =>
    let ds := digits c
    if c = 0 ∧ 0 < e then sign n ++ ['0'] else sign n ++ pointed ds (e + ds.length)
  | .infinity n => specialText n (.infinity n)
  | .nan n s p => specialText n (.nan n s p)

/-- The scientific form as a string. -/
def text (a : Decimal) : String := String.ofList a.toScientific

/-- The positional form as a string. -/
def positionalText (a : Decimal) : String := String.ofList a.toPositional

/-! ## Reading -/

/-- The value of a run of ASCII digits. -/
def digitsValue (ds : List Char) : Nat := ds.foldl (fun n c => n * 10 + (c.toNat - 48)) 0

/-- The decimal of digits with at most one point. -/
def ofNumeral (negative : Bool) (cs : List Char) : Decimal :=
  let whole := cs.takeWhile (· != '.')
  let fraction := (cs.dropWhile (· != '.')).drop 1
  .finite negative (digitsValue (whole ++ fraction)) (-(fraction.length : Int))

/-- The largest exponent of a leading digit, and the smallest exponent of a last one, that a
decimal can be read with. -/
def largestExponent : Int := 999999999999999999
def smallestExponent : Int := -1999999999999999997

/-- A finite number as read, if its exponent is in range. -/
def inRange? (negative : Bool) (c : Nat) (e : Int) : Option Decimal :=
  if e < smallestExponent ∨ largestExponent < adjusted c e then none
  else some (.finite negative c e)

/-- A text with the digits of every script turned into ASCII ones, without underscores. -/
def plainDigits? : List Char → Option (List Char)
  | [] => some []
  | c :: rest =>
    if c == '_' then plainDigits? rest
    else if c.toNat < 128 then (plainDigits? rest).map (c :: ·)
    else
      match decimalDigit? c with
      | some d => (plainDigits? rest).map (Char.ofNat (48 + d) :: ·)
      | none => none

/-- The exponent that follows a coefficient: nothing, or an E and a signed number. -/
def readExponent? : List Char → Option Int
  | [] => some 0
  | e :: rest =>
    if e.toLower != 'e' then none
    else
      let (negative, ds) := match rest with
        | '-' :: ds => (true, ds)
        | '+' :: ds => (false, ds)
        | ds => (false, ds)
      if ds.isEmpty || !ds.all isAsciiDigit then none
      else some (if negative then -(digitsValue ds : Int) else digitsValue ds)

/-- A number without its sign. -/
def readUnsigned? (negative : Bool) (cs : List Char) : Option Decimal :=
  let word := cs.map Char.toLower
  if word == "inf".toList || word == "infinity".toList then some (.infinity negative)
  else if word.take 3 == "nan".toList && (word.drop 3).all isAsciiDigit then
    some (.nan negative false (digitsValue (word.drop 3)))
  else if word.take 4 == "snan".toList && (word.drop 4).all isAsciiDigit then
    some (.nan negative true (digitsValue (word.drop 4)))
  else
    let whole := cs.takeWhile isAsciiDigit
    let rest := cs.dropWhile isAsciiDigit
    let (fraction, rest) := match rest with
      | '.' :: rest => (rest.takeWhile isAsciiDigit, rest.dropWhile isAsciiDigit)
      | rest => ([], rest)
    if whole.isEmpty && fraction.isEmpty then none
    else
      match readExponent? rest with
      | none => none
      | some e => inRange? negative (digitsValue (whole ++ fraction)) (e - fraction.length)

/-- The decimal that a text writes: white space around it and underscores within it are ignored,
and digits of every script are taken. -/
def read? (cs : List Char) : Option Decimal :=
  match plainDigits? (trim cs) with
  | some ('-' :: cs) => readUnsigned? true cs
  | some ('+' :: cs) => readUnsigned? false cs
  | some cs => readUnsigned? false cs
  | none => none

def ofString? (s : String) : Option Decimal := read? s.toList

end Decimal
end Calculator
