import ImportAtlas.Graph.Labels
import ImportAtlas.Main
import ImportAtlas.Proofs.Search.Coverage
import ImportAtlas.Proofs.Search.Recursion
import ImportAtlas.Proofs.Json.Quoted
import ImportAtlas.Proofs.Json.Numeral
import ImportAtlas.Proofs.Json.RoundTrip
import ImportAtlas.Proofs.World.Written
import ImportAtlas.Proofs.Report.Stored
import ImportAtlas.Proofs.Decimal.Double
import ImportAtlas.Proofs.Decimal.Nearest
import ImportAtlas.Proofs.Decimal.Order
import ImportAtlas.Proofs.Moment.Bounds
import ImportAtlas.Proofs.Gate.Rules
import ImportAtlas.Proofs.Analysis.Gated
import ImportAtlas.Proofs.Analysis.Order
import ImportAtlas.Proofs.Analysis.Integrity
import ImportAtlas.Proofs.World.Walk
import ImportAtlas.Proofs.Discovery.Selected
import ImportAtlas.Proofs.Analysis.Unread
import ImportAtlas.Proofs.Decimal.Interval
import ImportAtlas.Proofs.Decimal.Digits
import ImportAtlas.Proofs.Decimal.Shortest
import ImportAtlas.Proofs.Decimal.Layout
import ImportAtlas.Proofs.Json.Storable
import ImportAtlas.Proofs.Report.Document
import ImportAtlas.Proofs.World.Made
import ImportAtlas.Proofs.Report.Kept
import ImportAtlas.Proofs.Unused.Evidence
import ImportAtlas.Proofs.Path.Segments
import ImportAtlas.Proofs.Discovery.Placed
import ImportAtlas.Proofs.Analysis.Aliased
import ImportAtlas.Proofs.Gate.Faults
import ImportAtlas.Proofs.Memory.Merged
import ImportAtlas.Proofs.Memory.Lines
import ImportAtlas.Proofs.Memory.History
import ImportAtlas.Proofs.Search.Tally
import ImportAtlas.Proofs.Graph.Resolved
import ImportAtlas.Proofs.World.Rewritten
import ImportAtlas.Proofs.Json.Scalar
import ImportAtlas.Proofs.Memory.Repeated
import ImportAtlas.Proofs.World.Grown
import ImportAtlas.Proofs.Analysis.Rerun
import ImportAtlas.Proofs.Declaration.BraceNames
import ImportAtlas.Proofs.Declaration.Scanned
import ImportAtlas.Proofs.Declaration.Imported
import ImportAtlas.Proofs.Declaration.Exported
import ImportAtlas.Proofs.Declaration.ExportLines
import ImportAtlas.Proofs.Declaration.Records
import ImportAtlas.Proofs.Json.Access
import ImportAtlas.Proofs.Gate.Codes
import ImportAtlas.Proofs.Decimal.Value
import ImportAtlas.Proofs.Gate.Density
import ImportAtlas.Proofs.Report.Demands
import ImportAtlas.Proofs.Settings.Typed
import ImportAtlas.Proofs.Settings.Written
import ImportAtlas.Proofs.Path.Walked
import ImportAtlas.Proofs.Path.Relative
import ImportAtlas.Proofs.Resolver.Rebased
import ImportAtlas.Proofs.Resolver.Reached
import ImportAtlas.Proofs.Discovery.Combined
import ImportAtlas.Proofs.Analysis.Paths
import ImportAtlas.Proofs.Unused.Exhaustive
import ImportAtlas.Proofs.Unused.Subtrees
import ImportAtlas.Proofs.Moment.Dates
import ImportAtlas.Proofs.Moment.Written
import ImportAtlas.Proofs.Analysis.HandedOver
import ImportAtlas.Proofs.Drawing.Links
import ImportAtlas.Proofs.Memory.Halted
import ImportAtlas.Proofs.Drawing.Agreement
import ImportAtlas.Proofs.Drawing.Lines
import ImportAtlas.Proofs.Drawing.Quoted
import ImportAtlas.Proofs.Types.Defined
import ImportAtlas.Proofs.Declaration.FirstLines
import ImportAtlas.Proofs.Types.Ranked
import ImportAtlas.Proofs.Declaration.Words
import ImportAtlas.Proofs.Types.Mentioned
import ImportAtlas.Proofs.Types.Counted
import ImportAtlas.Proofs.Types.Missed
