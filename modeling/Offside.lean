import Offside.Document
import Offside.Node.Display
import Offside.Proofs.Document.Completeness
import Offside.Proofs.Document.LineEndings
import Offside.Proofs.Document.Recovery
import Offside.Proofs.Document.Resuming
import Offside.Proofs.Document.Termination
import Offside.Proofs.Document.WellFormed
import Offside.Text.Quoted
import Offside.Proofs.Document.Additions
import Offside.Proofs.Document.Expectations
import Offside.Proofs.Bytes.Places
import Offside.Proofs.Bytes.Scanners
import Offside.Proofs.Bytes.Layout
import Offside.Proofs.Bytes.Runs
import Offside.Proofs.FinalNewline.Texts
import Offside.Proofs.FinalNewline.Places
import Offside.Proofs.FinalNewline.Reach
import Offside.Proofs.FinalNewline.Parsers
import Offside.Proofs.FinalNewline.Grammar
import Offside.Proofs.Document.FinalNewline
import Offside.Proofs.Grammar.Announcements
import Offside.Proofs.Grammar.Coverage
import Offside.Proofs.Document.Restarting
import Offside.Proofs.Grammar.Fillers
import Offside.Proofs.OneLine.Conditions
import Offside.Proofs.Document.Preludes
import Offside.Proofs.Grammar.Heads
import Offside.Proofs.Grammar.CommentsAfter
import Offside.Proofs.Grammar.Branches
import Offside.Proofs.Layout.Extents
import Offside.Proofs.OneLine.Groups
import Offside.Proofs.Margins.Grammar
import Offside.Proofs.Layout.Parts
import Offside.Proofs.Parser.Closers
import Offside.Proofs.Grammar.Calls
import Offside.Proofs.Layout.Visits
import Offside.Proofs.Parser.Chains
import Offside.Proofs.Grammar.TypeDeclarations
import Offside.Proofs.Grammar.Displays
import Offside.Proofs.Document.Positions
