import Tabletop.Main
import Tabletop.Proofs.Registry.LiveRuns
import Tabletop.Proofs.Space.Watch
import Tabletop.Proofs.Session.Cancelled
import Tabletop.Proofs.Session.Events
import Tabletop.Proofs.Session.Records
import Tabletop.Proofs.Session.Versions
import Tabletop.Proofs.Session.Shutdown
import Tabletop.Proofs.WriteQueue
import Tabletop.Proofs.Graph.Links
import Tabletop.Proofs.Graph.Spans
import Tabletop.Proofs.Graph.Inflate
import Tabletop.Proofs.Graph.Flatten
import Tabletop.Proofs.Graph.Preorder
import Tabletop.Proofs.Compile.Slots
import Tabletop.Proofs.Registry.Layouts
import Tabletop.Proofs.Decimal.Layout
import Tabletop.Proofs.Json.Compact
import Tabletop.Proofs.Graph.Text
import Tabletop.Proofs.Compile.Cache
import Tabletop.Proofs.Compile.Naming
import Tabletop.Proofs.Registry.Dispatch
import Tabletop.Proofs.Execution.Budget
import Tabletop.Proofs.Execution.Halting
import Tabletop.Proofs.Compile.Acceptance
import Tabletop.Proofs.Compile.Trimmed
import Tabletop.Proofs.Execution.Traces
import Tabletop.Proofs.Execution.Writes
import Tabletop.Proofs.Session.Chronicle
import Tabletop.Proofs.Session.Tally
import Tabletop.Proofs.Session.Isolation
import Tabletop.Proofs.Scene.Stamps
import Tabletop.Proofs.Session.Notices
import Tabletop.Proofs.Graph.Nesting
import Tabletop.Proofs.Graph.Record
import Tabletop.Proofs.Compile.Descriptors
import Tabletop.Proofs.Space.Calls
import Tabletop.Proofs.Session.Copies
import Tabletop.Proofs.Readers
import Tabletop.Proofs.Snapshot.Replay
import Tabletop.Proofs.Session.Flushes
import Tabletop.Proofs.Registry.Listing
import Tabletop.Proofs.Registry.Survivors
import Tabletop.Proofs.Graph.Hashing
import Tabletop.Proofs.Compile.Sharing
import Tabletop.Proofs.Space.Accesses
