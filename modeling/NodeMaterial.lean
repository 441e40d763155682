import NodeMaterial.Assembly.Build
import NodeMaterial.Assembly.Plan
import NodeMaterial.Assembly.Transform
import NodeMaterial.Authored.Format
import NodeMaterial.Authored.Tree
import NodeMaterial.Cache
import NodeMaterial.CommandLine
import NodeMaterial.Compilation
import NodeMaterial.Diagnostic
import NodeMaterial.Failure
import NodeMaterial.Graph.Basic
import NodeMaterial.Graph.Dot
import NodeMaterial.Graph.EdgeBag
import NodeMaterial.Graph.Listing
import NodeMaterial.Graph.NodeSet
import NodeMaterial.Graph.Order
import NodeMaterial.Graph.Reach
import NodeMaterial.Instruction
import NodeMaterial.Json.Draft
import NodeMaterial.Json.NumberFormat
import NodeMaterial.Json.Reader
import NodeMaterial.Json.Record
import NodeMaterial.Json.Scan
import NodeMaterial.Json.Value
import NodeMaterial.Kind.Basic
import NodeMaterial.Kind.Table
import NodeMaterial.Main
import NodeMaterial.Number.Binary64
import NodeMaterial.Number.Decimal
import NodeMaterial.Number.Layout
import NodeMaterial.Number.Shortest
import NodeMaterial.Pass.Bypass
import NodeMaterial.Pass.Channels
import NodeMaterial.Pass.Elimination
import NodeMaterial.Pass.Liveness
import NodeMaterial.Pass.Parallax
import NodeMaterial.Pass.SharedGeometry
import NodeMaterial.Pass.SharedTextures
import NodeMaterial.Pass.Translucency
import NodeMaterial.Pass.Validity
import NodeMaterial.Shader.Literal
import NodeMaterial.Shader.NameSupply
import NodeMaterial.Socket
import NodeMaterial.Stage
import NodeMaterial.Text.Digest
import NodeMaterial.Proofs.Occurrences
import NodeMaterial.Proofs.GraphOperations
import NodeMaterial.Proofs.Paths
import NodeMaterial.Proofs.Reachability
import NodeMaterial.Proofs.Soundness
import NodeMaterial.Proofs.Elimination
import NodeMaterial.Proofs.SharedGeometry
import NodeMaterial.Proofs.SharedTextures
import NodeMaterial.Proofs.Channels
import NodeMaterial.Proofs.Order
import NodeMaterial.Proofs.WellFormed
import NodeMaterial.Proofs.Building
import NodeMaterial.Proofs.Composition
import NodeMaterial.Proofs.Compilation
import NodeMaterial.Proofs.Liveness
import NodeMaterial.Proofs.LiveChannels
import NodeMaterial.Proofs.Evaluation
import NodeMaterial.Proofs.Meaning
import NodeMaterial.Proofs.Resolution
import NodeMaterial.Proofs.Wiring
import NodeMaterial.Proofs.NameSupply
import NodeMaterial.Proofs.DistinctNames
import NodeMaterial.Proofs.Commuting
import NodeMaterial.Proofs.Detour
import NodeMaterial.Proofs.Linking
import NodeMaterial.Proofs.Transparency
import NodeMaterial.Proofs.Threading
import NodeMaterial.Proofs.Recording
import NodeMaterial.Proofs.LinkOrder
import NodeMaterial.Proofs.Padding
import NodeMaterial.Proofs.DeadEnds
import NodeMaterial.Proofs.MemoTable
import NodeMaterial.Proofs.NearestDouble
import NodeMaterial.Proofs.Numerals
import NodeMaterial.Proofs.JsonText
import NodeMaterial.Proofs.WrittenRecords
import NodeMaterial.Proofs.Digests
import NodeMaterial.Proofs.RoundTrip
import NodeMaterial.Proofs.Multigraph
import NodeMaterial.Proofs.LinkCounts
import NodeMaterial.Proofs.Refusals
import NodeMaterial.Proofs.Lanes
import NodeMaterial.Proofs.FirstFit
import NodeMaterial.Proofs.LeadingAccessors
import NodeMaterial.Proofs.HeightMaps
import NodeMaterial.Proofs.ExposedChannels
import NodeMaterial.Proofs.LeastOrder
import NodeMaterial.Proofs.Pruning
import NodeMaterial.Proofs.LinkFlags
import NodeMaterial.Proofs.ParameterNames
import NodeMaterial.Proofs.Rounding
import NodeMaterial.Proofs.ShaderLiterals
import NodeMaterial.Proofs.Drawings
