import Calculator.Text.Quoted

/-!
# Calculator.Fault

Faults of the machinery below expressions: arithmetic conditions that a context traps, conversions
that have no result, and failures of host functions. A fault carries no place; the evaluator adds
the operator or function at which it arose.
-/

namespace Calculator

/-- Why an arithmetic operation has no valid result. -/
inductive InvalidReason where
  | operation
  | conversionSyntax
  | divisionImpossible
  | divisionUndefined
  deriving DecidableEq, Repr

inductive Fault where
  | invalidOperation (reason : InvalidReason)
  | divisionByZero
  /-- The result is too large; `inexactTrapped` says that the context traps rounding as well. -/
  | overflow (inexactTrapped : Bool)
  | inexact
  /-- A whole number was needed and an infinity given. -/
  | infiniteWhole
  /-- A whole number was needed and a NaN given. -/
  | nanWhole
  /-- A numeral with digits that have no place value. -/
  | badNumeral (numeral : String)
  /-- A numeral with more digits than are read. -/
  | longNumeral (digits : Nat)
  /-- More digits of precision than any context can have. -/
  | precisionRange
  /-- More digits of precision than a machine word can count. -/
  | precisionWord
  | unknownFormat (name : String)
  /-- A host function returned something that is no decimal. -/
  | notDecimal (kind : String)
  /-- A host function failed with a named failure. -/
  | host (name : String) (text : String)
  deriving DecidableEq, Repr

namespace Fault

/-- The name of the kind of fault. -/
def name : Fault → String
  | invalidOperation _ => "InvalidOperation"
  | divisionByZero => "DivisionByZero"
  | overflow _ => "Overflow"
  | inexact => "Inexact"
  | infiniteWhole => "OverflowError"
  | nanWhole => "ValueError"
  | badNumeral _ => "ValueError"
  | longNumeral _ => "ValueError"
  | precisionRange => "ValueError"
  | precisionWord => "OverflowError"
  | unknownFormat _ => "ValueError"
  | notDecimal kind => kind
  | host name _ => name

/-- A name followed by its text, or alone when there is no text. -/
def titled (name text : String) : String :=
  if text.isEmpty then name else name ++ ": " ++ text

/-- The fault in words: its name and what is known about it. -/
def describe : Fault → String
  | invalidOperation .operation => "InvalidOperation"
  | invalidOperation .conversionSyntax => "InvalidOperation (ConversionSyntax)"
  | invalidOperation .divisionImpossible => "InvalidOperation (DivisionImpossible)"
  | invalidOperation .divisionUndefined => "InvalidOperation (DivisionUndefined)"
  | divisionByZero => "DivisionByZero"
  | overflow false => "Overflow"
  | overflow true => "Overflow (Inexact)"
  | inexact => "Inexact"
  | infiniteWhole => "OverflowError: cannot convert Infinity to integer"
  | nanWhole => "ValueError: cannot convert NaN to integer"
  | badNumeral numeral =>
    "ValueError: invalid literal for int() with base 10: " ++
      String.ofList ((Quoted.encode numeral.toList).take 200)
  | longNumeral digits =>
    "ValueError: Exceeds the limit (4300 digits) for integer string conversion: value has " ++
      toString digits ++ " digits; use sys.set_int_max_str_digits() to increase the limit"
  | precisionRange => "ValueError: valid range for prec is [1, MAX_PREC]"
  | precisionWord => "OverflowError: Python int too large to convert to C ssize_t"
  | unknownFormat name => "ValueError: Unknown number format: " ++ quote name
  | notDecimal kind => "returned " ++ kind ++ ", expected a decimal."
  | host name text => titled name text

end Fault
end Calculator
