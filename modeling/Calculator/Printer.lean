import Calculator.Decimal.Arithmetic
import Calculator.Environment.Family
import Calculator.Text.Lines

/-!
# Calculator.Printer

How numbers and definitions are shown. The plain form of a number has no exponent and no trailing
zeros; the separated form groups the digits before the point in threes; the scientific form has an
exponent that is a multiple of three.
-/

namespace Calculator

inductive NumberFormat where
  | plain
  | scientific
  | separated
  deriving DecidableEq, Repr

namespace NumberFormat

def names : List (String × NumberFormat) :=
  [("plain", plain), ("scientific", scientific), ("separated", separated)]

/-- The format of a name. -/
def ofName? (name : String) : Option NumberFormat := names.lookup name

end NumberFormat

namespace Decimal

/-- A text without the given character at its right end. -/
def dropTrailing (c : Char) (cs : List Char) : List Char := (cs.reverse.dropWhile (· == c)).reverse

/-- The plain form: every digit in its place, and no trailing zeros after the point. -/
def toPlain (a : Decimal) : List Char :=
  let cs := a.toPositional
  let cs := if cs.contains '.' then dropTrailing '.' (dropTrailing '0' cs) else cs
  if cs == ['-', '0'] || cs.isEmpty then ['0'] else cs

/-- A text cut into pieces of three, from its right end on; at most `fuel` cuts are made. -/
def groups : Nat → List Char → List (List Char)
  | 0, cs => [cs]
  | fuel + 1, cs =>
    if cs.length ≤ 3 then [cs]
    else groups fuel (cs.take (cs.length - 3)) ++ [cs.drop (cs.length - 3)]

/-- The plain form with a separator between groups of three before the point. -/
def toSeparated (separator : List Char) (a : Decimal) : List Char :=
  let cs := a.toPlain
  let (sign, cs) := match cs with
    | '-' :: rest => (['-'], rest)
    | cs => ([], cs)
  let whole := cs.takeWhile (· != '.')
  let fraction := cs.dropWhile (· != '.')
  sign ++ separator.intercalate (groups whole.length whole) ++ fraction

def isZero : Decimal → Bool
  | .finite _ c _ => c == 0
  | _ => false

/-- The number in a format. The scientific form rounds as where no environment is. -/
def shown (format : NumberFormat) (a : Decimal) : Except Fault String :=
  match format with
  | .plain => .ok (String.ofList a.toPlain)
  | .separated => .ok (String.ofList (a.toSeparated [' ']))
  | .scientific =>
    if a.isZero then .ok "0"
    else
      match a.reduce .ambient with
      | .error f => .error f
      | .ok a => .ok (String.ofList a.toEngineering)

end Decimal

/-- How things are shown: the format of numbers, and the width of an indentation. -/
structure Printer where
  format : NumberFormat
  indent : Nat
  deriving DecidableEq, Repr

namespace Printer

/-- The printer of a format with the usual indentation. -/
def ofFormat (format : NumberFormat) : Printer := ⟨format, 4⟩

/-- The printer of the format of a name. -/
def ofName (name : String) : Except Fault Printer :=
  match NumberFormat.ofName? name with
  | some format => .ok (ofFormat format)
  | none => .error (.unknownFormat name)

/-- The indentation of a line. -/
def margin (printer : Printer) : String := String.ofList (List.replicate printer.indent ' ')

/-- Lines between a heading with an opening brace and a closing brace. -/
def block (heading : String) (lines : List String) : String :=
  String.intercalate "\n" ((heading ++ " \x7b") :: lines ++ ["\x7d"])

/-- The line that names the native definition of something. -/
def nativeLine (printer : Printer) (origin : String) : String :=
  printer.margin ++ "Python: " ++ origin

/-- A function as a definition. -/
def function (printer : Printer) (name : String) : Function → String
  | .native f => block ("function " ++ name ++ "()") [printer.nativeLine f.origin]
  | .user f =>
    let margin := printer.margin
    let guard := match f.guard with
      | none => []
      | some g =>
        [margin ++ "if (" ++ g.condition ++ ")", margin ++ margin ++ "return " ++ g.result]
    block ("function " ++ name ++ "(" ++ String.intercalate ", " f.parameters ++ ")")
      (guard ++ [margin ++ "return " ++ f.body])

/-- An operator as a definition. -/
def operator (printer : Printer) (binding : Binding) : String :=
  "@Order(" ++ toString binding.precedence ++ ")\n" ++
    block ("operator " ++ binding.symbol) [printer.nativeLine binding.operation.origin]

/-- What a variable stands for, on a line: the value of a fixed one in the format of the printer,
that of a constant in plain form. -/
def variableLine (printer : Printer) : Variable → Except Fault String
  | .fixed value =>
    match value.shown printer.format with
    | .error f => .error f
    | .ok text => .ok (printer.margin ++ "return " ++ text)
  | .constant value => .ok (printer.margin ++ "return " ++ String.ofList value.toPlain)
  | v => .ok (printer.nativeLine ("expcalc.expcalc_runtime." ++ v.label))

/-- A variable as a definition. -/
def variableText (printer : Printer) (name : String) (v : Variable) : Except Fault String :=
  match printer.variableLine v with
  | .error f => .error f
  | .ok line => .ok (block ("var " ++ name) [line])

end Printer
end Calculator
