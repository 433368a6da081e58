import Calculator.Decimal.Text
import Calculator.Error

/-!
# Calculator.Variable

Variables: fixed values, which users define, and native ones: constants, the clock, and the
register that holds the last answer. A fixed value is always finite.
-/

namespace Calculator

inductive Variable where
  | fixed (value : Decimal)
  | constant (value : Decimal)
  | clock
  | answer (register : Nat)
  deriving DecidableEq, Repr

namespace Variable

/-- A fixed value; it has to be finite. -/
def ofDecimal (value : Decimal) : Except Refusal Variable :=
  if value.isFinite then .ok (.fixed value) else .error (.value value.text)

/-- The fixed value that a text writes. -/
def ofText (shown : String) : Except Refusal Variable :=
  match Decimal.ofString? shown with
  | none => .error (.value shown)
  | some value => ofDecimal value

def isFixed : Variable → Bool
  | fixed _ => true
  | _ => false

/-- The class of variables it belongs to. -/
def label : Variable → String
  | fixed _ => "StaticVariable"
  | constant _ => "ConstantVariable"
  | clock => "TimestampVariable"
  | answer _ => "AnswerVariable"

def describe : Variable → String
  | fixed value => value.positionalText
  | v => v.label

/-- Whether two variables are the same: fixed ones by their values. -/
def same : Variable → Variable → Bool
  | fixed a, fixed b => a.sameValue b
  | v, w => v == w

end Variable
end Calculator
