import BuildImpact.Unit.Edge
import BuildImpact.Unit.Linkage
import BuildImpact.Graph.Basic
import BuildImpact.Graph.Walk
import BuildImpact.Graph.Impact
import BuildImpact.Graph.Closure
import BuildImpact.Graph.Layers
import BuildImpact.Graph.Depths
import BuildImpact.Graph.Route
import BuildImpact.Graph.Affected
import BuildImpact.Decimal.Shortest
import BuildImpact.Json.Failure
import BuildImpact.Text.Utf8
import BuildImpact.Text.Printable
import BuildImpact.Text.Quoted
import BuildImpact.Json.Number
import BuildImpact.Json.Text
import BuildImpact.Json.Skip
import BuildImpact.Json.Expect
import BuildImpact.Snapshot.Id
import BuildImpact.Snapshot.Reader
import BuildImpact.Files.Fault
import BuildImpact.Snapshot.Fault
import BuildImpact.Snapshot.Load
import BuildImpact.Snapshot.Kind
import BuildImpact.Snapshot.Write
import BuildImpact.Text.Blank
import BuildImpact.Yaml.Cursor
import BuildImpact.Yaml.Scalar
import BuildImpact.Yaml.Property
import BuildImpact.Yaml.Token
import BuildImpact.Yaml.Document
import BuildImpact.Yaml.Value
import BuildImpact.Settings.Basic
import BuildImpact.Settings.Fault
import BuildImpact.Settings.Entries
import BuildImpact.Files.Path
import BuildImpact.Files.Tree
import BuildImpact.Fault
import BuildImpact.Settings.Discover
import BuildImpact.Json.Print
import BuildImpact.Text.Lines
import BuildImpact.Report.Paint
import BuildImpact.Report.Log
import BuildImpact.Report.Basic
import BuildImpact.Report.Text
import BuildImpact.Report.Data
import BuildImpact.Command.Query
import BuildImpact.Command.Arguments
import BuildImpact.Command.Run
import BuildImpact.Main
import BuildImpact.Proofs.Graph.Edges
import BuildImpact.Proofs.Graph.Search
import BuildImpact.Proofs.Impact.Recursion
import BuildImpact.Proofs.Impact.Refinement
import BuildImpact.Proofs.Closure.Sweep
import BuildImpact.Proofs.Closure.Compile
import BuildImpact.Proofs.Layers.Invariant
import BuildImpact.Proofs.Route.Arrival
import BuildImpact.Proofs.Route.Search
import BuildImpact.Proofs.Depths.Minimal
import BuildImpact.Proofs.Route.Shortest
import BuildImpact.Proofs.Impact.Chains
import BuildImpact.Proofs.Closure.Reexport
import BuildImpact.Proofs.Closure.Expansions
import BuildImpact.Proofs.Layers.Log
import BuildImpact.Proofs.Route.Visits
import BuildImpact.Proofs.Closure.Agreement
import BuildImpact.Proofs.Route.Foremost
import BuildImpact.Proofs.Route.Order
import BuildImpact.Proofs.Graph.Locality
import BuildImpact.Proofs.Affected.Inversion
import BuildImpact.Proofs.Json.Grammar
import BuildImpact.Proofs.Json.Text
import BuildImpact.Proofs.Json.Number
import BuildImpact.Proofs.Json.Skip
import BuildImpact.Proofs.Json.Listed
import BuildImpact.Proofs.Snapshot.Grammar
import BuildImpact.Proofs.Snapshot.Reader
import BuildImpact.Proofs.Snapshot.Load
import BuildImpact.Proofs.Json.Print
import BuildImpact.Proofs.Json.Value
import BuildImpact.Proofs.Snapshot.RoundTrip
import BuildImpact.Proofs.Closure.EdgeOrder
import BuildImpact.Proofs.Text.ByteOrder
import BuildImpact.Proofs.Graph.Units
import BuildImpact.Proofs.Report.Order
import BuildImpact.Proofs.Affected.Transpose
import BuildImpact.Proofs.Files.Tree
import BuildImpact.Proofs.Settings.Resolution
import BuildImpact.Proofs.Command.Boundary
import BuildImpact.Proofs.Layers.Steps
import BuildImpact.Proofs.Layers.Transcript
import BuildImpact.Proofs.Route.Termination
import BuildImpact.Proofs.Closure.Journal
import BuildImpact.Proofs.Repetition.Edges
import BuildImpact.Proofs.Repetition.Routes
import BuildImpact.Proofs.Repetition.Answers
import BuildImpact.Proofs.Json.Tokens
import BuildImpact.Proofs.Snapshot.Tokens
import BuildImpact.Proofs.Snapshot.Presentation
import BuildImpact.Proofs.Layers.Queue
import BuildImpact.Proofs.Depths.Discovery
import BuildImpact.Proofs.Graph.Construction
import BuildImpact.Proofs.Settings.Scalars
import BuildImpact.Proofs.Yaml.Blank
import BuildImpact.Proofs.Settings.Mapping
import BuildImpact.Proofs.Closure.Precedence
import BuildImpact.Proofs.Route.Reconstruction
import BuildImpact.Proofs.Route.Records
import BuildImpact.Proofs.Report.Groups
import BuildImpact.Proofs.Report.Agreement
