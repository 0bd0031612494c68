import DeskCalc.Main
import DeskCalc.Proofs.Grammar
import DeskCalc.Proofs.Reading
import DeskCalc.Proofs.Soundness
import DeskCalc.Proofs.Completeness
import DeskCalc.Proofs.Parsing
import DeskCalc.Proofs.Stages
import DeskCalc.Proofs.Keys
import DeskCalc.Proofs.Press
import DeskCalc.Proofs.Timeline
import DeskCalc.Proofs.Failures
import DeskCalc.Proofs.Remarking
import DeskCalc.Proofs.Limits
import DeskCalc.Proofs.Counting
import DeskCalc.Proofs.Doubles
import DeskCalc.Proofs.Overflow
import DeskCalc.Proofs.Sums
import DeskCalc.Proofs.Nearest
import DeskCalc.Proofs.Intervals
import DeskCalc.Proofs.Grids
import DeskCalc.Proofs.FewestDigits
import DeskCalc.Proofs.Memory
import DeskCalc.Proofs.Values
import DeskCalc.Proofs.Printing
import DeskCalc.Proofs.Lexemes
import DeskCalc.Proofs.Scanning
import DeskCalc.Proofs.Tokenizing
import DeskCalc.Proofs.Calls
import DeskCalc.Proofs.Brackets
import DeskCalc.Proofs.RoundTrip
import DeskCalc.Proofs.Substitution
import DeskCalc.Proofs.Pasting
import DeskCalc.Proofs.Shape
import DeskCalc.Proofs.Onward
import DeskCalc.Proofs.Nesting
import DeskCalc.Proofs.Lines
import DeskCalc.Proofs.Transcript
import DeskCalc.Proofs.Dialogue
import DeskCalc.Proofs.Registers
import DeskCalc.Proofs.Clearing
import DeskCalc.Proofs.VariableNames
import DeskCalc.Proofs.Configuration
import DeskCalc.Proofs.Measuring
import DeskCalc.Proofs.Redoable
import DeskCalc.Proofs.Trace
import DeskCalc.Proofs.Results
import DeskCalc.Proofs.Contracts
import DeskCalc.Proofs.Pointing
import DeskCalc.Proofs.Lookahead
import DeskCalc.Proofs.Restyling
import DeskCalc.Proofs.Seams
import DeskCalc.Proofs.Spacing
import DeskCalc.Proofs.StackMachine
import DeskCalc.Proofs.PlainNumbers
import DeskCalc.Proofs.Negation
import DeskCalc.Proofs.ShortestText
import DeskCalc.Proofs.Numerals
import DeskCalc.Proofs.JsonReading
import DeskCalc.Proofs.Blanks
import DeskCalc.Proofs.OutputLines
import DeskCalc.Proofs.PowerSigns
import DeskCalc.Proofs.Balance
