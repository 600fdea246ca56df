import ParenLint.Description
import ParenLint.Log
import ParenLint.Session
import ParenLint.Proofs.Region
import ParenLint.Proofs.Building
import ParenLint.Proofs.Nesting
import ParenLint.Proofs.Descent
import ParenLint.Proofs.Simulation
import ParenLint.Proofs.Lexical
import ParenLint.Proofs.SourceOrder
import ParenLint.Proofs.UsedTokens
import ParenLint.Proofs.TrueColumn
import ParenLint.Proofs.Growth
import ParenLint.Proofs.Rules
import ParenLint.Proofs.Rejection
import ParenLint.Proofs.Repair
import ParenLint.Proofs.Comments
import ParenLint.Proofs.Changes
import ParenLint.Proofs.Blanks
import ParenLint.Proofs.Respacing
import ParenLint.Proofs.Tabs
import ParenLint.Proofs.Seam
import ParenLint.Proofs.Margin
import ParenLint.Proofs.Lines
import ParenLint.Proofs.LineEnds
import ParenLint.Proofs.Renaming
import ParenLint.Proofs.Image
import ParenLint.Proofs.Printing
import ParenLint.Proofs.DumpLines
import ParenLint.Proofs.Violations
import ParenLint.Proofs.Enclosing
import ParenLint.Proofs.OneLine
import ParenLint.Proofs.Consumption
import ParenLint.Proofs.BuildLog
import ParenLint.Proofs.Reading
import ParenLint.Proofs.Interleaving
import ParenLint.Proofs.WordColumns
