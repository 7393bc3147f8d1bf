import TraceWeave.Syntax.Reader
import TraceWeave.Syntax.Edit
import TraceWeave.Syntax.Cursor
import TraceWeave.Syntax.Imports
import TraceWeave.Syntax.Qualifiers
import TraceWeave.Agent.Advisory
import TraceWeave.Agent.Integration
import TraceWeave.Agent.Layout
import TraceWeave.Command
import TraceWeave.Exchange.Reading
import TraceWeave.Exchange.Writing
import TraceWeave.Main
import TraceWeave.Proofs.Syntax.Rewriting
import TraceWeave.Proofs.Syntax.Blocks
import TraceWeave.Proofs.Program.Outline
import TraceWeave.Proofs.Tracing.Weaving
import TraceWeave.Proofs.Tracing.Detectors
import TraceWeave.Proofs.Tracing.Walk
import TraceWeave.Proofs.Tracing.Sweep
import TraceWeave.Proofs.Tracing.Growth
import TraceWeave.Proofs.Tracing.Turns
import TraceWeave.Proofs.Program.Origin
import TraceWeave.Proofs.Program.Completion
import TraceWeave.Proofs.Run.Signatures
import TraceWeave.Proofs.Run.Statements
import TraceWeave.Proofs.Tracing.Pending
import TraceWeave.Proofs.Syntax.Agreement
import TraceWeave.Proofs.Tracing.Bounds
import TraceWeave.Proofs.Run.Termination
import TraceWeave.Proofs.Syntax.Calls
import TraceWeave.Proofs.Types.Alike
import TraceWeave.Proofs.Tracing.Alignment
import TraceWeave.Proofs.Syntax.Visits
import TraceWeave.Proofs.Run.CallSites
import TraceWeave.Proofs.Run.Repetition
import TraceWeave.Proofs.Tracing.Recording
import TraceWeave.Proofs.Run.Imports
import TraceWeave.Proofs.Syntax.Layout
import TraceWeave.Proofs.Syntax.Parsing
import TraceWeave.Proofs.Syntax.Reading
import TraceWeave.Proofs.Syntax.Reparsing
import TraceWeave.Proofs.Run.Spreads
import TraceWeave.Proofs.Run.Declarations
import TraceWeave.Proofs.Run.Scopes
import TraceWeave.Proofs.Syntax.RoundTrip
import TraceWeave.Proofs.Syntax.Lists
import TraceWeave.Proofs.Syntax.Occurrences
import TraceWeave.Proofs.Tracing.Transactions
import TraceWeave.Proofs.Tracing.EntryDetectors
import TraceWeave.Proofs.Tracing.EntryWalk
import TraceWeave.Proofs.Run.Transactions
import TraceWeave.Proofs.Run.Segments
import TraceWeave.Proofs.Tracing.Extension
import TraceWeave.Proofs.Tracing.Values
import TraceWeave.Proofs.Tracing.Passing
import TraceWeave.Proofs.Source.Grouping
import TraceWeave.Proofs.Source.Loading
import TraceWeave.Proofs.Run.Failures
import TraceWeave.Proofs.Run.Collection
import TraceWeave.Proofs.Run.Values
import TraceWeave.Proofs.Run.Patches
import TraceWeave.Proofs.Run.Filling
import TraceWeave.Proofs.Run.ShortCalls
import TraceWeave.Proofs.Run.Carriers
import TraceWeave.Proofs.Run.SeveralValues
import TraceWeave.Proofs.Run.Serving
import TraceWeave.Proofs.Syntax.ImportTable
import TraceWeave.Proofs.Run.Restoration
import TraceWeave.Proofs.Syntax.OwnEdits
import TraceWeave.Proofs.Tracing.Interceptors
import TraceWeave.Proofs.Tracing.Settling
import TraceWeave.Proofs.Tracing.Copies
import TraceWeave.Proofs.Run.Bodies
import TraceWeave.Proofs.Program.Facts
import TraceWeave.Proofs.Run.Discovery
import TraceWeave.Proofs.Types.Promotion
import TraceWeave.Proofs.Types.Scoping
import TraceWeave.Proofs.Types.Traversal
import TraceWeave.Proofs.Types.Linking
import TraceWeave.Proofs.Types.Coverage
import TraceWeave.Proofs.Types.LexicalScope
import TraceWeave.Proofs.Types.Order
import TraceWeave.Proofs.Tracing.Redirection
import TraceWeave.Proofs.Run.Redeclarations
import TraceWeave.Proofs.Syntax.Precedence
import TraceWeave.Proofs.Run.Parameters
import TraceWeave.Proofs.Tracing.Prologue
import TraceWeave.Proofs.Syntax.Attachment
import TraceWeave.Proofs.Syntax.ListWalk
import TraceWeave.Proofs.Syntax.CallOrder
import TraceWeave.Proofs.Tracing.HandlerComments
import TraceWeave.Proofs.Syntax.Remarks
import TraceWeave.Proofs.Types.Reachability
import TraceWeave.Proofs.Syntax.StringLiterals
