import Calculator.Decimal.Context
import Calculator.Error

/-!
# Calculator.Function

Functions: native ones, which compute on decimals directly, and user functions, whose bodies are
expressions. A user function may be bound to the environment in which its body is read; otherwise
it is read where the function is called.
-/

namespace Calculator

/-- The number of an environment within its family. -/
abbrev EnvId := Nat

/-- What a native function computes, given the context in force. A drawing function also takes a
random fraction, at least zero and less than one. -/
inductive NativeBody where
  | plain (run : Context → List Decimal → Except Failure Decimal)
  | drawing (run : Context → Decimal → List Decimal → Except Failure Decimal)

structure NativeFunction where
  name : String
  /-- The class of functions it belongs to. -/
  label : String
  /-- Where its definition is to be found. -/
  origin : String
  /-- The least number of arguments. -/
  least : Nat
  /-- The greatest number of arguments, if there is one. -/
  most : Option Nat
  body : NativeBody

/-- A condition, and the expression that replaces the body of a function when it holds. -/
structure Guard where
  condition : String
  result : String
  deriving DecidableEq, Repr

structure UserFunction where
  name : String
  parameters : List String
  body : String
  guard : Option Guard
  scope : Option EnvId
  deriving DecidableEq, Repr

inductive Function where
  | native (f : NativeFunction)
  | user (f : UserFunction)

namespace NativeFunction

/-- Whether the function takes the given number of arguments. -/
def accepts (f : NativeFunction) (count : Nat) : Bool :=
  f.least ≤ count && match f.most with
    | none => true
    | some most => count ≤ most

/-- The number of arguments as it is reported. -/
def arity (f : NativeFunction) : Arity := .ofBounds f.least f.most

end NativeFunction

namespace UserFunction

/-- The name with the parameters. -/
def describe (f : UserFunction) : String :=
  f.name ++ "(" ++ String.intercalate ", " f.parameters ++ ")"

/-- The definition of the function as one line. -/
def definitionLine (f : UserFunction) : String :=
  let head := f.name ++ "(" ++ String.intercalate "," f.parameters ++ ") ="
  let guard := match f.guard with
    | none => ""
    | some g => " [" ++ g.condition ++ "][" ++ g.result ++ "]"
  head ++ guard ++ " " ++ f.body

end UserFunction

namespace Function

def name : Function → String
  | native f => f.name
  | user f => f.name

def isUser : Function → Bool
  | native _ => false
  | user _ => true

def describe : Function → String
  | native f => f.name ++ "()"
  | user f => f.describe

/-- A short description, for inspection. -/
def inspect : Function → String
  | native f => "<" ++ f.label ++ " " ++ f.name ++ ">"
  | user f => "<UserFunction " ++ f.name ++ ">"

end Function
end Calculator
