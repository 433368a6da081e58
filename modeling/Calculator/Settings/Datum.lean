import Calculator.Text.Double
import Calculator.Text.Quoted

/-!
# Calculator.Settings.Datum

The values that settings files hold, and how they are shown in messages.
-/

namespace Calculator

inductive Datum where
  | null
  | bool (b : Bool)
  | int (n : Int)
  | real (x : Double)
  | text (s : String)
  /-- A calendar date, as it is written. -/
  | date (s : String)
  | list (items : List Datum)
  | mapping (entries : List (Datum × Datum))

namespace Datum

mutual

/-- The value as it is shown inside another one, with texts quoted. -/
def inspect : Datum → String
  | null => "None"
  | bool b => if b then "True" else "False"
  | int n => toString n
  | real x => x.text
  | text s => quote s
  | date s => s
  | list items => "[" ++ String.intercalate ", " (inspectItems items) ++ "]"
  | mapping entries => "\x7b" ++ String.intercalate ", " (inspectEntries entries) ++ "\x7d"

def inspectItems : List Datum → List String
  | [] => []
  | d :: rest => d.inspect :: inspectItems rest

def inspectEntries : List (Datum × Datum) → List String
  | [] => []
  | (key, value) :: rest => (key.inspect ++ ": " ++ value.inspect) :: inspectEntries rest

end

/-- The value as it is shown by itself. -/
def shown : Datum → String
  | text s => s
  | d => d.inspect

end Datum
end Calculator
