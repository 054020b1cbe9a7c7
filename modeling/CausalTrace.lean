import CausalTrace.Assembly.Layout
import CausalTrace.Assembly.Path
import CausalTrace.Assembly.Splice
import CausalTrace.Assembly.Tree
import CausalTrace.Backend.Batch
import CausalTrace.Backend.Lookup
import CausalTrace.Backend.Store
import CausalTrace.Decimal.Literal
import CausalTrace.Decimal.Shortest
import CausalTrace.Decimal.Style
import CausalTrace.Json.Basic
import CausalTrace.Json.Draft
import CausalTrace.Json.Numeral
import CausalTrace.Json.Printer
import CausalTrace.Json.Reader
import CausalTrace.Json.Text
import CausalTrace.Main
import CausalTrace.Polling.Await
import CausalTrace.Polling.Policy
import CausalTrace.Polling.Run
import CausalTrace.Polling.Timed
import CausalTrace.Polling.Timeout
import CausalTrace.Proofs.Assembly.Cycles
import CausalTrace.Proofs.Assembly.Determinacy
import CausalTrace.Proofs.Assembly.Journal
import CausalTrace.Proofs.Assembly.Ledger
import CausalTrace.Proofs.Assembly.Links
import CausalTrace.Proofs.Assembly.Outline
import CausalTrace.Proofs.Assembly.Placement
import CausalTrace.Proofs.Assembly.Reference
import CausalTrace.Proofs.Assembly.Refinement
import CausalTrace.Proofs.Assembly.Routes
import CausalTrace.Proofs.Assembly.Step
import CausalTrace.Proofs.Assembly.Unfolding
import CausalTrace.Proofs.Backend.Frozen
import CausalTrace.Proofs.Backend.Lookup
import CausalTrace.Table
import CausalTrace.Text.Blank
import CausalTrace.Text.Graphic
import CausalTrace.Text.Quoted
import CausalTrace.Tool.Arguments
import CausalTrace.Tool.Demonstration
import CausalTrace.Tool.Fixture
import CausalTrace.Tool.Listing
import CausalTrace.Tool.Plan
import CausalTrace.Tool.Problem
import CausalTrace.Tool.Request
import CausalTrace.Trace.Basic
import CausalTrace.Trace.Blueprint
import CausalTrace.Trace.Calendar
import CausalTrace.Trace.Detail
import CausalTrace.Trace.Document
import CausalTrace.Trace.Header
import CausalTrace.Trace.Id
import CausalTrace.Trace.Segment
import CausalTrace.Trace.Timestamp
import CausalTrace.Proofs.Backend.Coupling
import CausalTrace.Proofs.Assembly.Coupling
import CausalTrace.Proofs.Assembly.Deepening
import CausalTrace.Proofs.Assembly.Leaves
import CausalTrace.Proofs.Assembly.Lineage
import CausalTrace.Proofs.Assembly.Order
import CausalTrace.Proofs.Assembly.Orphans
import CausalTrace.Proofs.Assembly.Redelivery
import CausalTrace.Proofs.Polling.Course
import CausalTrace.Proofs.Polling.Protocol
import CausalTrace.Proofs.Assembly.Lookups
import CausalTrace.Proofs.Polling.Chronicle
import CausalTrace.Proofs.Polling.Deadline
import CausalTrace.Proofs.Polling.Tries
import CausalTrace.Proofs.Polling.Waiting
import CausalTrace.Proofs.Text.Trim
import CausalTrace.Proofs.Tool.Agreement
import CausalTrace.Proofs.Trace.Codec
import CausalTrace.Proofs.Trace.Grammar
import CausalTrace.Proofs.Polling.Backoff
import CausalTrace.Proofs.Table
import CausalTrace.Proofs.Backend.Deferral
import CausalTrace.Proofs.Json.Literals
import CausalTrace.Proofs.Json.Printed
import CausalTrace.Proofs.Trace.Blueprint
import CausalTrace.Proofs.Trace.Building
import CausalTrace.Proofs.Trace.Rewriting
import CausalTrace.Proofs.Backend.Rounds
import CausalTrace.Proofs.Json.Nullable
import CausalTrace.Proofs.Trace.Normalization
import CausalTrace.Proofs.Backend.Refusals
import CausalTrace.Proofs.Assembly.Walk
import CausalTrace.Proofs.Backend.History
import CausalTrace.Proofs.Backend.Ingestion
import CausalTrace.Proofs.Json.Aliases
import CausalTrace.Proofs.Tool.Fixtures
import CausalTrace.Proofs.Assembly.Positions
import CausalTrace.Proofs.Assembly.Indices
import CausalTrace.Proofs.Trace.Levels
import CausalTrace.Proofs.Assembly.Framing
