import Metadoc.Token.Reader
import Metadoc.Token.Literal
import Metadoc.Document.Parse
import Metadoc.Document.Stepping
import Metadoc.Forest.Query
import Metadoc.Tree.Match
import Metadoc.Diagnostic.Render
import Metadoc.OrderedMap.Basic
import Metadoc.Expr.Parse
import Metadoc.Expr.Pool
import Metadoc.Expr.Evaluate
import Metadoc.Files.Folder
import Metadoc.Main
import Metadoc.Proofs.Document.Lossless
import Metadoc.Proofs.Document.Flawless
import Metadoc.Proofs.Document.Completeness
import Metadoc.Proofs.Expr.Precedence
import Metadoc.Proofs.Document.Alike
import Metadoc.Proofs.Document.Transport
import Metadoc.Proofs.Text.Cuts
import Metadoc.Proofs.Text.Encoding
import Metadoc.Proofs.Token.Shown
import Metadoc.Proofs.Token.Layout
import Metadoc.Proofs.Document.Layout
import Metadoc.Proofs.Document.Extension
import Metadoc.Proofs.Token.Joined
import Metadoc.Proofs.Document.Nesting
import Metadoc.Proofs.Document.Embedding
import Metadoc.Proofs.Document.Braced
import Metadoc.Proofs.Document.Concatenation
import Metadoc.Proofs.Document.Compact
import Metadoc.Proofs.Expr.Types
import Metadoc.Proofs.Expr.Display
import Metadoc.Proofs.Expr.RoundTrip
import Metadoc.Proofs.Document.Balance
import Metadoc.Proofs.Document.Skipping
import Metadoc.Proofs.Document.DepthLimit
import Metadoc.Proofs.Document.Framing
import Metadoc.Proofs.Document.Stepwise
import Metadoc.Proofs.OrderedMap.Refinement
import Metadoc.Proofs.Document.Places
import Metadoc.Proofs.Token.Context
import Metadoc.Proofs.Document.Arena
import Metadoc.Proofs.Document.Anchors
import Metadoc.Proofs.Document.StandIns
import Metadoc.Proofs.Document.Termination
import Metadoc.Proofs.Document.Depth
import Metadoc.Proofs.Document.Alone
import Metadoc.Proofs.Document.Labels
import Metadoc.Proofs.Document.Comments
import Metadoc.Proofs.Document.Unbracketed
import Metadoc.Proofs.Forest.Building
import Metadoc.Proofs.Document.Openings
import Metadoc.Proofs.Document.Dumps
import Metadoc.Proofs.Forest.Groups
import Metadoc.Proofs.Document.Separators
import Metadoc.Proofs.Number.Integer
import Metadoc.Proofs.Expr.Exactness
import Metadoc.Proofs.Expr.Atoms
import Metadoc.Proofs.Expr.Numerals
import Metadoc.Proofs.Expr.Signs
import Metadoc.Proofs.Token.Closing
import Metadoc.Proofs.Expr.Agreement
import Metadoc.Proofs.Expr.TypeGrammar
import Metadoc.Forest.Match
import Metadoc.Proofs.Forest.Match
import Metadoc.Proofs.Token.Window
import Metadoc.Proofs.Text.Lines
import Metadoc.Proofs.Document.TokenStream
