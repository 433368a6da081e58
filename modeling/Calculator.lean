import Calculator.Text.Blank
import Calculator.Text.Digit
import Calculator.Text.Letter
import Calculator.Text.Lines
import Calculator.Text.Lowercase
import Calculator.Text.Double
import Calculator.Text.Quoted
import Calculator.Decimal.Context
import Calculator.Decimal.Power
import Calculator.Decimal.Text
import Calculator.Error
import Calculator.Function
import Calculator.Variable
import Calculator.Reduction
import Calculator.Lexer
import Calculator.Environment.Name
import Calculator.Environment.Registration
import Calculator.Environment.ContextName
import Calculator.Library.Standard
import Calculator.Evaluation
import Calculator.Definition
import Calculator.Printer
import Calculator.Files.Interaction
import Calculator.Files.State
import Calculator.Settings.Load
import Calculator.Main
import Calculator.Proofs.Interpreter
import Calculator.Proofs.SaveLoad
import Calculator.Proofs.Faults
import Calculator.Proofs.Consistency
import Calculator.Proofs.FailedLines
import Calculator.Proofs.Nesting
import Calculator.Proofs.Snapshots
import Calculator.Proofs.RationalValue
import Calculator.Proofs.Extensions
import Calculator.Proofs.Symbols
import Calculator.Proofs.RunnerNumbers
import Calculator.Proofs.Confinement
import Calculator.Proofs.Rereading
import Calculator.Proofs.Registrations
import Calculator.Proofs.Reachability
import Calculator.Proofs.CanonicalText
import Calculator.Proofs.LineByLine
import Calculator.Proofs.FailureReports
import Calculator.Proofs.Grouping
import Calculator.Proofs.ScientificText
import Calculator.Proofs.Configuration
import Calculator.Proofs.Comparisons
import Calculator.Proofs.TokenSlices
import Calculator.Proofs.Tracing
import Calculator.Proofs.Calls
import Calculator.Proofs.Segments
import Calculator.Proofs.ArgumentLists
import Calculator.Proofs.EnvironmentPages
import Calculator.Proofs.Removals
import Calculator.Proofs.SplicedChains
import Calculator.Proofs.ForwardLinks
