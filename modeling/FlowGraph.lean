import FlowGraph.Table
import FlowGraph.Descriptor
import FlowGraph.Config
import FlowGraph.Error
import FlowGraph.Catalogue.Basic
import FlowGraph.Graph.Blueprint
import FlowGraph.Graph.Dependents
import FlowGraph.Store
import FlowGraph.Sink
import FlowGraph.Script
import FlowGraph.Main
import FlowGraph.Registry.Json
import FlowGraph.Config.Json
import FlowGraph.Proofs.Assembly
import FlowGraph.Proofs.Additions
import FlowGraph.Proofs.Peeling
import FlowGraph.Proofs.Wiring
import FlowGraph.Proofs.Building
import FlowGraph.Proofs.Cycles
import FlowGraph.Proofs.Walking
import FlowGraph.Proofs.Built
import FlowGraph.Proofs.Evaluates
import FlowGraph.Proofs.Run
import FlowGraph.Proofs.Requests
import FlowGraph.Proofs.Contract
import FlowGraph.Proofs.Reading
import FlowGraph.Proofs.Nodes
import FlowGraph.Proofs.Currency
import FlowGraph.Proofs.Typing
import FlowGraph.Proofs.Traffic
import FlowGraph.Proofs.Hosting
import FlowGraph.Proofs.Patience
import FlowGraph.Proofs.Heeding
import FlowGraph.Proofs.Truncation
import FlowGraph.Proofs.Answers
import FlowGraph.Proofs.Frames
import FlowGraph.Proofs.Depth
import FlowGraph.Proofs.Limits
import FlowGraph.Proofs.Turns
import FlowGraph.Proofs.Scheduling
import FlowGraph.Proofs.Admission
import FlowGraph.Proofs.Arrivals
import FlowGraph.Proofs.Comparing
import FlowGraph.Proofs.Gate
import FlowGraph.Proofs.Judging
import FlowGraph.Proofs.Nesting
import FlowGraph.Proofs.Termination
import FlowGraph.Proofs.Recomputing
import FlowGraph.Proofs.Twins
import FlowGraph.Proofs.Territory
import FlowGraph.Proofs.Isolation
import FlowGraph.Proofs.Queueing
import FlowGraph.Proofs.Succession
import FlowGraph.Proofs.Stepping
import FlowGraph.Proofs.Renewal
import FlowGraph.Proofs.Completing
import FlowGraph.Proofs.Unfolding
import FlowGraph.Proofs.Preorder
import FlowGraph.Proofs.Silence
import FlowGraph.Proofs.Confinement
import FlowGraph.Proofs.Repeating
import FlowGraph.Proofs.Renaming
import FlowGraph.Proofs.Renumbering
import FlowGraph.Proofs.Mirroring
import FlowGraph.Proofs.Reordering
import FlowGraph.Proofs.ByName
import FlowGraph.Proofs.Numerals
import FlowGraph.Proofs.Spelling
import FlowGraph.Proofs.Dating
import FlowGraph.Proofs.Extending
import FlowGraph.Proofs.Reporting
import FlowGraph.Proofs.Lines
import FlowGraph.Proofs.Filing
import FlowGraph.Proofs.Logging
import FlowGraph.Proofs.Composing
import FlowGraph.Proofs.Counting
import FlowGraph.Proofs.Listing
import FlowGraph.Proofs.Accounting
import FlowGraph.Proofs.Balancing
import FlowGraph.Proofs.Draining
import FlowGraph.Proofs.Enumerating
import FlowGraph.Proofs.Pursuing
import FlowGraph.Proofs.Exchanges
import FlowGraph.Proofs.Looping
import FlowGraph.Proofs.Rereading
import FlowGraph.Proofs.Visiting
import FlowGraph.Proofs.Alternating
import FlowGraph.Proofs.Accumulating
import FlowGraph.Proofs.Registering
import FlowGraph.Proofs.Creating
import FlowGraph.Proofs.Integers
import FlowGraph.Proofs.Parsing
import FlowGraph.Proofs.Loading
import FlowGraph.Proofs.Evicting
import FlowGraph.Proofs.Declaring
import FlowGraph.Proofs.Performing
import FlowGraph.Proofs.Demonstrating
import FlowGraph.Proofs.Restoring
