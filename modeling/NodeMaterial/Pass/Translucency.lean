import NodeMaterial.Graph.Basic

/-!
# Driving translucency parameters

A translucency group hands its strength on through the output `Translucency`, and
its parameters through the output after it.  An authored link mentions only the
strength.  Every edge from that output therefore gets a companion: an edge from
the next output to the next input of the same consumer.
-/

namespace NodeMaterial.Graph

/-- The companion of an edge: one socket further at both ends. -/
def companion (edge : Edge) : Edge :=
  ⟨edge.source, edge.target, edge.outSocket + 1, edge.inSocket + 1⟩

/-- Whether an edge leaves the strength output of a translucency group. -/
def drivesTranslucency (node : Node) (edge : Edge) : Bool :=
  node.kind == .group .translucency &&
    (node.outputs[edge.outSocket]?).any (·.name == "Translucency")

/-- The companions that a graph lacks. -/
def companions (graph : Graph) : List Edge :=
  graph.nodes.flatMap fun node =>
    ((graph.outEdges node.id).filter (drivesTranslucency node)).map companion

/-- Adds the companions, and counts them. -/
def completeEdges (graph : Graph) : Graph × Nat :=
  (graph.addEdges graph.companions, graph.companions.length)

end NodeMaterial.Graph
