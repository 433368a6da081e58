import Calculator.Decimal.Context
import Calculator.Error

/-!
# Calculator.Operation

Binary operators: what they compute, and how they present themselves. An operation suggests a
precedence; the one that counts is given when it is registered.
-/

namespace Calculator

structure Operation where
  symbol : String
  /-- The precedence used when none is given at registration. -/
  precedence : Int
  /-- The class of operations it belongs to. -/
  label : String
  /-- Where its definition is to be found. -/
  origin : String
  apply : Context → Decimal → Decimal → Except Failure Decimal

namespace Operation

/-- A short description, for inspection. -/
def inspect (op : Operation) : String :=
  "<" ++ op.label ++ " " ++ quote op.symbol ++ " precedence=" ++ toString op.precedence ++ ">"

/-- The operation of an expression without operators: it hands its value back. -/
def handBack : Operation where
  symbol := "="
  precedence := 0
  label := "ReturnOperation"
  origin := "expcalc.expcalc_datatypes.ReturnOperation"
  apply _ _ right := .ok right

end Operation

/-- An operation as it is registered: under a symbol and with a precedence. -/
structure Binding where
  symbol : String
  operation : Operation
  precedence : Nat

end Calculator
