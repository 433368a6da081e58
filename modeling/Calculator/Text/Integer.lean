import Calculator.Text.Blank
import Calculator.Text.Digit

/-!
# Calculator.Text.Integer

Reading whole numbers: digits of any script after an optional sign, single underscores between
digits, and white space around the number. Very long numbers are not read.
-/

namespace Calculator

inductive NumeralProblem where
  | malformed
  | tooLong (digits : Nat)
  deriving DecidableEq, Repr

/-- The white space that may stand around a whole number: not the ASCII separators. -/
def isNumeralBlank (c : Char) : Bool := isBlank c && !(28 ≤ c.toNat && c.toNat ≤ 31)

def longestNumeral : Nat := 4300

/-- Whether underscores stand singly and between other characters. `fresh` says that the previous
character, if any, was an underscore or is missing. -/
def underscoresFit (fresh : Bool) : List Char → Bool
  | [] => !fresh
  | c :: rest => if c == '_' then !fresh && underscoresFit true rest else underscoresFit false rest

/-- The value of the digits of a numeral without its sign. -/
def readDigits (cs : List Char) : Except NumeralProblem Nat :=
  let isPart (c : Char) : Bool := c == '_' || (decimalDigit? c).isSome
  let run := cs.takeWhile isPart
  let digits := run.filterMap decimalDigit?
  if !underscoresFit true run then .error .malformed
  else if longestNumeral < digits.length then .error (.tooLong digits.length)
  else if (cs.dropWhile isPart).isEmpty then .ok (digits.foldl (fun n d => n * 10 + d) 0)
  else .error .malformed

def readInteger (cs : List Char) : Except NumeralProblem Int :=
  let cs := ((cs.dropWhile isNumeralBlank).reverse.dropWhile isNumeralBlank).reverse
  match cs with
  | '-' :: digits => (readDigits digits).map fun n => -(n : Int)
  | '+' :: digits => (readDigits digits).map fun n => (n : Int)
  | digits => (readDigits digits).map fun n => (n : Int)

end Calculator
