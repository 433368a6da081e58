import Calculator.Decimal.Text
import Calculator.Settings.Datum
import Calculator.Text.Lines

/-!
# Calculator.Settings.Scalar

What the unquoted scalars of YAML stand for: nothing, truth values, whole numbers in several bases,
fractions, dates, and otherwise themselves.
-/

namespace Calculator
namespace YamlText

def nullWords : List String := ["", "~", "null", "Null", "NULL"]

def trueWords : List String :=
  ["yes", "Yes", "YES", "true", "True", "TRUE", "on", "On", "ON"]

def falseWords : List String :=
  ["no", "No", "NO", "false", "False", "FALSE", "off", "Off", "OFF"]

/-- Whether every character is an underscore or passes a test. -/
def allDigits (test : Char → Bool) (cs : List Char) : Bool := cs.all fun c => c == '_' || test c

/-- The value of a digit of any base up to sixteen. -/
def digitValue (c : Char) : Nat :=
  if isAsciiDigit c then c.toNat - 48 else c.toLower.toNat - 87

/-- The value of digits in a base, without underscores. -/
def digitsIn (base : Nat) (cs : List Char) : Nat :=
  (cs.filter (· != '_')).foldl (fun n c => n * base + digitValue c) 0

def isOctal (c : Char) : Bool := '0' ≤ c && c ≤ '7'

def isBinary (c : Char) : Bool := c == '0' || c == '1'

def isHexadecimal (c : Char) : Bool :=
  isAsciiDigit c || ('a' ≤ c && c ≤ 'f') || ('A' ≤ c && c ≤ 'F')

/-- A text without its sign, and whether the sign is a minus. -/
def splitSign : List Char → Bool × List Char
  | '-' :: rest => (true, rest)
  | '+' :: rest => (false, rest)
  | rest => (false, rest)

/-- The parts of a text between colons, if there are at least two and all but the first are
numbers below sixty. -/
def sexagesimalParts? (cs : List Char) : Option (List (List Char)) :=
  let isPart (part : List Char) : Bool :=
    part.all isAsciiDigit &&
      (part.length == 1 || (part.length == 2 && part.head?.any fun c => '0' ≤ c && c ≤ '5'))
  match splitOnChar ':' cs with
  | first :: second :: rest =>
    if (second :: rest).all isPart then some (first :: second :: rest) else none
  | _ => none

/-- The whole number that a scalar without its sign stands for. -/
def readNatural? (cs : List Char) : Option Nat :=
  match cs with
  | '0' :: 'b' :: ds => if !ds.isEmpty && allDigits isBinary ds then some (digitsIn 2 ds) else none
  | '0' :: 'x' :: ds =>
    if !ds.isEmpty && allDigits isHexadecimal ds then some (digitsIn 16 ds) else none
  | '0' :: ds => if allDigits isOctal ds then some (digitsIn 8 ds) else none
  | d :: ds =>
    if !isAsciiDigit d then none
    else if allDigits isAsciiDigit ds then some (digitsIn 10 cs)
    else
      match sexagesimalParts? cs with
      | some (first :: rest) =>
        if allDigits isAsciiDigit first then
          some (rest.foldl (fun n part => n * 60 + digitsIn 10 part) (digitsIn 10 first))
        else none
      | _ => none
  | [] => none

/-- The exponent that ends a fraction; its sign has to be written. -/
def exponentOf? : List Char → Option Int
  | [] => some 0
  | e :: sign :: ds =>
    if (e == 'e' || e == 'E') && !ds.isEmpty && ds.all isAsciiDigit then
      if sign == '-' then some (-(Decimal.digitsValue ds : Int))
      else if sign == '+' then some (Decimal.digitsValue ds)
      else none
    else none
  | _ => none

/-- The fraction that a scalar without its sign stands for. -/
def readFraction? (negative : Bool) (cs : List Char) : Option Double :=
  if [".inf", ".Inf", ".INF"].contains (String.ofList cs) then some (.infinity negative)
  else
    let whole := cs.takeWhile fun c => c == '_' || isAsciiDigit c
    match cs.drop whole.length with
    | '.' :: rest =>
      let fraction := rest.takeWhile fun c => c == '_' || isAsciiDigit c
      let tail := rest.drop fraction.length
      let startsWell (ds : List Char) : Bool := ds.head?.any isAsciiDigit
      if startsWell whole || (whole.isEmpty && startsWell fraction) then
        (exponentOf? tail).map fun e =>
          let places := (fraction.filter (· != '_')).length
          Double.ofDecimal negative (digitsIn 10 (whole ++ fraction)) (e - places)
      else none
    | _ => none

/-- Whether a scalar has the form of a date. -/
def isDate (cs : List Char) : Bool :=
  match cs with
  | [a, b, c, d, m, e, f, n, g, h] =>
    m == '-' && n == '-' && [a, b, c, d, e, f, g, h].all isAsciiDigit
  | _ => false

/-- What an unquoted scalar stands for. Two signs have meanings that no setting can have. -/
def resolve (cs : List Char) : Option Datum :=
  let word := String.ofList cs
  let (negative, body) := splitSign cs
  if word = "=" ∨ word = "<<" then none
  else if nullWords.contains word then some .null
  else if trueWords.contains word then some (.bool true)
  else if falseWords.contains word then some (.bool false)
  else if [".nan", ".NaN", ".NAN"].contains word then some (.real .nan)
  else if isDate cs then some (.date word)
  else
    match readNatural? body with
    | some n => some (.int (if negative then -(n : Int) else n))
    | none =>
      match readFraction? negative body with
      | some x => some (.real x)
      | none => some (.text word)

end YamlText
end Calculator
