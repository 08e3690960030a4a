import LineBasic.Highlight
import LineBasic.Log
import LineBasic.Main
import LineBasic.Parser
import LineBasic.Proofs.Grammar
import LineBasic.Proofs.Reply
import LineBasic.Proofs.ExprGrammar
import LineBasic.Proofs.StatementGrammar
import LineBasic.Proofs.Number.Literal
import LineBasic.Proofs.Lexing
import LineBasic.Proofs.RoundTrip
import LineBasic.Proofs.Program
import LineBasic.Proofs.Route
import LineBasic.Proofs.Reading
import LineBasic.Proofs.Text.Tight
import LineBasic.Proofs.Editing
import LineBasic.Proofs.Stored
import LineBasic.Proofs.Listing
import LineBasic.Proofs.EvenForm
import LineBasic.Proofs.NormalForm
import LineBasic.Proofs.Output
import LineBasic.Proofs.Budget
import LineBasic.Proofs.Kinds
import LineBasic.Proofs.Store
import LineBasic.Proofs.Faults
import LineBasic.Proofs.WellKinded
import LineBasic.Proofs.Renumbering
import LineBasic.Proofs.Entry
import LineBasic.Proofs.Text.Lines
import LineBasic.Proofs.Checking
import LineBasic.Proofs.Command
import LineBasic.Proofs.History
import LineBasic.Proofs.Requests
import LineBasic.Proofs.Copying
import LineBasic.Proofs.Questions
import LineBasic.Proofs.Variables
import LineBasic.Proofs.Capacity
import LineBasic.Proofs.Ownership
import LineBasic.Proofs.Munching
import LineBasic.Proofs.Segments
import LineBasic.Proofs.Respelling
import LineBasic.Proofs.Rerunning
import LineBasic.Proofs.Failing
import LineBasic.Proofs.Commenting
import LineBasic.Proofs.Window
import LineBasic.Proofs.Streaming
import LineBasic.Proofs.Attempts
import LineBasic.Proofs.Text.Recased
import LineBasic.Proofs.Casing
import LineBasic.Proofs.Rewording
import LineBasic.Proofs.Conditions
import LineBasic.Proofs.LineNumber
import LineBasic.Proofs.Highlight
import LineBasic.Proofs.Number.Reading
import LineBasic.Proofs.Echo
import LineBasic.Proofs.Calls
import LineBasic.Proofs.Progress
