import MiniLisp.Span
import MiniLisp.Text.Bytes
import MiniLisp.Token
import MiniLisp.Decimal.Basic
import MiniLisp.Decimal.Literal
import MiniLisp.Decimal.Nearest
import MiniLisp.Decimal.Shortest
import MiniLisp.Number
import MiniLisp.Node
import MiniLisp.Error
import MiniLisp.Reader
import MiniLisp.Environment
import MiniLisp.Event
import MiniLisp.Run
import MiniLisp.Evaluation
import MiniLisp.Session
import MiniLisp.Text.Blank
import MiniLisp.Text.Line
import MiniLisp.Text.Ranges
import MiniLisp.Text.Width
import MiniLisp.Text.BreakClass
import MiniLisp.Text.Cluster
import MiniLisp.Text.Backspace
import MiniLisp.Report
import MiniLisp.Report.Drawing
import MiniLisp.Parens
import MiniLisp.Completion
import MiniLisp.Console.Batch
import MiniLisp.Console.Dialogue
import MiniLisp.Main
import MiniLisp.Proofs.Depth
import MiniLisp.Proofs.Spelling
import MiniLisp.Proofs.Reading
import MiniLisp.Proofs.Cutting
import MiniLisp.Proofs.Rounding
import MiniLisp.Proofs.Numerals
import MiniLisp.Proofs.Numbers
import MiniLisp.Proofs.Seams
import MiniLisp.Proofs.Bare
import MiniLisp.Proofs.Printing
import MiniLisp.Proofs.Law
import MiniLisp.Proofs.Replay
import MiniLisp.Proofs.Semantics
import MiniLisp.Proofs.Moving
import MiniLisp.Proofs.Slices
import MiniLisp.Proofs.Values
import MiniLisp.Proofs.Blame
import MiniLisp.Proofs.Order
import MiniLisp.Proofs.Places
import MiniLisp.Proofs.Names
import MiniLisp.Proofs.Agreement
import MiniLisp.Proofs.Footprints
import MiniLisp.Proofs.Independence
import MiniLisp.Proofs.Joining
import MiniLisp.Proofs.Sequencing
import MiniLisp.Proofs.Taking
import MiniLisp.Proofs.Continuing
import MiniLisp.Proofs.Pairs
import MiniLisp.Proofs.Highlighting
import MiniLisp.Proofs.Renaming
import MiniLisp.Proofs.Replacing
import MiniLisp.Proofs.Layout
import MiniLisp.Proofs.Conversing
import MiniLisp.Proofs.Overflow
import MiniLisp.Proofs.Labels
import MiniLisp.Proofs.Partners
import MiniLisp.Proofs.Drafts
import MiniLisp.Proofs.Frames
import MiniLisp.Proofs.Trimming
import MiniLisp.Proofs.Limits
import MiniLisp.Proofs.Literals
import MiniLisp.Proofs.Meeting
import MiniLisp.Proofs.Pieces
import MiniLisp.Proofs.Completing
import MiniLisp.Proofs.Bindings
