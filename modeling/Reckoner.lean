import Reckoner.Main
import Reckoner.Net.Settings
import Reckoner.Expr.Spelling
import Reckoner.Proofs.Expr.Conservation
import Reckoner.Proofs.Expr.Acceptance
import Reckoner.Proofs.Expr.Spelled
import Reckoner.Proofs.Expr.Lexemes
import Reckoner.Proofs.Expr.Products
import Reckoner.Proofs.Expr.Places
import Reckoner.Proofs.Expr.Balance
import Reckoner.Proofs.Expr.Recognition
import Reckoner.Proofs.Expr.DoubleMinus
import Reckoner.Proofs.Expr.Dangling
import Reckoner.Proofs.Expr.Parentheses
import Reckoner.Proofs.Expr.Frame
import Reckoner.Proofs.Expr.Shape
import Reckoner.Proofs.Work.Delivery
import Reckoner.Proofs.Work.InOrder
import Reckoner.Proofs.Work.Trace
import Reckoner.Proofs.Work.Passes
import Reckoner.Proofs.Number.Exact
import Reckoner.Proofs.Number.Nearest
import Reckoner.Proofs.Number.Shortest
import Reckoner.Proofs.Number.Bits
import Reckoner.Proofs.Number.Written
import Reckoner.Proofs.Json.Doubles
import Reckoner.Proofs.Json.RoundTrip
import Reckoner.Proofs.Text.Lines
import Reckoner.Proofs.Text.Breaks
import Reckoner.Proofs.Text.Utf8
import Reckoner.Proofs.Json.OneLine
import Reckoner.Proofs.Json.Cut
import Reckoner.Proofs.Json.Grammar
import Reckoner.Proofs.Json.Strings
import Reckoner.Proofs.Json.Numbers
import Reckoner.Proofs.Json.Reading
import Reckoner.Proofs.Json.Beyond
import Reckoner.Proofs.Expr.Quoting
import Reckoner.Proofs.Wire
import Reckoner.Proofs.Handling
import Reckoner.Proofs.Net.Session
import Reckoner.Proofs.Net.Report
import Reckoner.Proofs.Net.Framing
import Reckoner.Proofs.Naming
import Reckoner.Proofs.Net.Replies
import Reckoner.Proofs.Net.Isolation
import Reckoner.Proofs.Net.Readers
import Reckoner.Proofs.Net.Answers
import Reckoner.Proofs.Net.Settings
import Reckoner.Proofs.Command.Disk
import Reckoner.Proofs.Command.Transfer
import Reckoner.Proofs.Command.Run
import Reckoner.Proofs.Expr.Runs
import Reckoner.Proofs.Expr.Canonical
import Reckoner.Proofs.Number.Correct
import Reckoner.Proofs.Expr.Forms
import Reckoner.Proofs.Unguarded
import Reckoner.Proofs.Expr.Stretches
import Reckoner.Proofs.Command.Names
import Reckoner.Proofs.Number.Power
import Reckoner.Proofs.Number.Significant
import Reckoner.Proofs.Amounts
