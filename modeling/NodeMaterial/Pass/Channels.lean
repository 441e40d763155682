import NodeMaterial.Graph.Basic
import NodeMaterial.Graph.NodeSet

/-!
# Reading single channels of a vertex colour

A vertex-colour accessor that is read only by nodes that split colours can hand
out the channels itself.  The splitters are removed, and the accessor gets an
output for each channel that is read, in the order red, green, blue.
-/

namespace NodeMaterial.Graph

/-- The channels of a colour, in the order of the outputs that split it. -/
def channelNames : List String := ["R", "G", "B"]

/-- What edges lead to from a node, each number once and in order. -/
def consumers (graph : Graph) (id : NodeId) : List NodeId :=
  NodeSet.ofList ((graph.outEdges id).map (·.target))

/-- Whether a node splits colours. -/
def isSplitter (graph : Graph) (id : NodeId) : Bool :=
  (graph.node? id).any (·.kind == .separateRgb)

/-- The edges through which channels are read from splitters. -/
def channelReads (graph : Graph) (splitters : List NodeId) : List Edge :=
  (splitters.flatMap graph.outEdges).filter fun edge =>
    decide (edge.outSocket < channelNames.length)

/-- The channels that edges read, in order. -/
def channelsRead (reads : List Edge) : List Nat :=
  (List.range channelNames.length).filter fun channel => reads.any (·.outSocket == channel)

/-- The edge that reads a channel from the accessor itself. -/
def readDirectly (accessor : NodeId) (channels : List Nat) (edge : Edge) : Edge :=
  ⟨accessor, edge.target, channels.idxOf edge.outSocket, edge.inSocket⟩

/-- The output for a channel. -/
def channelSocket (channel : Nat) : Socket :=
  .titled (channelNames[channel]?.getD "") true .zero

/-- The accessor with an output for each of the channels. -/
def withChannels (channels : List Nat) (node : Node) : Node :=
  { node with
    kind := .vertexChannels channels.length
    outputs := channels.map channelSocket }

/-- The splitters of an accessor, if these alone read it. -/
def splitters? (graph : Graph) (accessor : NodeId) : Option (List NodeId) :=
  let consumers := graph.consumers accessor
  if consumers.isEmpty || !consumers.all graph.isSplitter then none else some consumers

/-- Lets an accessor hand out the channels itself. -/
def expose (graph : Graph) (accessor : NodeId) (splitters : List NodeId) : Graph :=
  let reads := graph.channelReads splitters
  let channels := channelsRead reads
  let rewired :=
    (splitters.foldl withoutNode graph).addEdges (reads.map (readDirectly accessor channels))
  rewired.modifyNode accessor (withChannels channels)

/-- Lets an accessor hand out its channels, if only splitters read it and a channel is read. -/
def collapse? (graph : Graph) (accessor : NodeId) : Option Graph :=
  match graph.splitters? accessor with
  | none => none
  | some splitters =>
      if (graph.channelReads splitters).isEmpty then
        none
      else
        some (graph.expose accessor splitters)

/-- Collapses accessors one after the other, and counts those that could be. -/
def collapseAll : List NodeId → Graph → Graph × Nat
  | [], graph => (graph, 0)
  | accessor :: others, graph =>
      match graph.collapse? accessor with
      | none => collapseAll others graph
      | some collapsed =>
          let (result, count) := collapseAll others collapsed
          (result, count + 1)

/-- Collapses the vertex-colour accessors of a graph. -/
def optimizeChannels (graph : Graph) : Graph × Nat :=
  let accessors := graph.nodes.filter (·.kind == .geometry .vertexColor)
  collapseAll (accessors.map (·.id)) graph

end NodeMaterial.Graph
