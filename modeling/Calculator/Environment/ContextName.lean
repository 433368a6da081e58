import Calculator.Decimal.Context
import Calculator.Error
import Calculator.Text.Integer
import Calculator.Text.Lowercase

/-!
# Calculator.Environment.ContextName

The names of decimal contexts: presets such as `64bit`, a number of digits, or `unlimited`. Case,
white space around a name, and spaces and hyphens within it do not matter.
-/

namespace Calculator
namespace Context

/-- The contexts that are known by name, with their digits. -/
def presets : List (String × Nat) := [("32bit", 7), ("64bit", 16), ("128bit", 34)]

/-- The context of a number of digits, which has to be positive and not beyond all bounds. -/
def ofPrecision (digits : Int) : Except (Refusal ⊕ Fault) Context :=
  if digits < 1 then .error (.inl (.precision digits))
  else if 9223372036854775807 < digits then .error (.inr .precisionWord)
  else if (maxPrecision : Int) < digits then .error (.inr .precisionRange)
  else .ok (ofDigits digits.toNat)

/-- A name as it is looked up. -/
def nameKey (name : String) : List Char :=
  (lower (trim name.toList)).filter fun c => c != ' ' && c != '-'

/-- The number of digits that a name gives, all of whose characters are digits. -/
def digitsOf (key : List Char) : Except Fault Int :=
  match readInteger key with
  | .ok n => .ok n
  | .error .malformed => .error (.badNumeral (String.ofList key))
  | .error (.tooLong count) => .error (.longNumeral count)

def ofName (name : String) : Except (Refusal ⊕ Fault) Context :=
  let key := nameKey name
  let word := String.ofList key
  if word = "unlimited" ∨ word = "*" then .ok unlimited
  else
    match presets.lookup word with
    | some digits => .ok (ofDigits digits)
    | none =>
      if !key.isEmpty && key.all isAnyDigit then
        match digitsOf key with
        | .error f => .error (.inr f)
        | .ok digits => ofPrecision digits
      else .error (.inl (.unknownContext name))

/-- The name of a context: that of a preset with its digits, or the number of its digits. -/
def name (ctx : Context) : String :=
  if ctx.trapsInexact then "unlimited"
  else
    match presets.find? fun preset => preset.2 = ctx.precision with
    | some preset => preset.1
    | none => toString ctx.precision ++ " digits"

end Context
end Calculator
