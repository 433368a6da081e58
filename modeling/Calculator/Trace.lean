import Calculator.Chain

/-!
# Calculator.Trace

What a calculation reports about its course, when it is asked to: the expressions it reads, the
functions it calls, and each step it resolves with the chain that is left.
-/

namespace Calculator

inductive Event where
  | parsing (text : String)
  | evaluating
  | call (name : String) (arguments : List Decimal)
  | step (resolved : Step)
  | remaining (chain : StepChain)
  | failed (message : String)
  | saved (path : String)

namespace Event

/-- A list of quoted texts between brackets. -/
def quotedList (texts : List String) : String :=
  "[" ++ String.intercalate ", " (texts.map quote) ++ "]"

def text : Event → String
  | parsing source => "Parsing... " ++ quote source
  | evaluating => "Evaluating..."
  | call name arguments => "call " ++ name ++ " " ++ quotedList (arguments.map (·.positionalText))
  | step resolved => "     " ++ resolved.text
  | remaining chain => "     -> " ++ chain.text
  | failed message => "error " ++ message
  | saved path => "saved " ++ path

/-- The event as a line of the report. -/
def line (event : Event) : String := "[DBG] " ++ event.text

end Event
end Calculator
