import NodeMaterial.Diagnostic
import NodeMaterial.Graph.Basic

/-!
# Taking out nodes that only hand a value on

A reroute hands on what enters it.  A replace group hands on what enters its
second input.  Either is taken out by letting the edges that leave it start where
the edge that feeds it starts; occurrences are kept.  A node that nothing feeds
is taken out with the edges that leave it.
-/

namespace NodeMaterial.Graph

/-- The numbers of the nodes of a kind. -/
def idsOfKind (graph : Graph) (kind : Kind) : List NodeId :=
  (graph.nodes.filter (·.kind == kind)).map (·.id)

/-- The edge that goes where an edge goes and starts where another starts. -/
def splice (feed edge : Edge) : Edge :=
  ⟨feed.source, edge.target, feed.outSocket, edge.inSocket⟩

/-- Lets the edges that leave a node start where an edge starts. -/
def forward (graph : Graph) (id : NodeId) : Option Edge → Graph
  | none => graph
  | some feed => graph.addEdges ((graph.outEdges id).map (splice feed))

/-- The first edge into an input. -/
def feed? (graph : Graph) (id : NodeId) (inSocket : Nat) : Option Edge :=
  (graph.inEdges id).find? (·.inSocket == inSocket)

/-- Takes out a node that hands on what an edge brings. -/
def bypass (graph : Graph) (id : NodeId) (feed : Option Edge) : Graph :=
  (graph.forward id feed).withoutNode id

/-- Takes out a reroute. -/
def bypassReroute (graph : Graph) (id : NodeId) : Graph :=
  graph.bypass id (graph.inEdges id).head?

/-- Takes out a replace group. -/
def bypassSelector (graph : Graph) (id : NodeId) : Graph :=
  graph.bypass id (graph.feed? id 1)

/-- The warning about a replace group whose second input nothing feeds. -/
def selectorWarning (graph : Graph) (id : NodeId) : List Diagnostic :=
  match graph.feed? id 1 with
  | some _ => []
  | none =>
      [{ level := .warning
         message := "selector has no second input"
         code := some .emptySelector
         node := some (((graph.node? id).map (·.name)).getD "") }]

/-- Takes out replace groups one after the other, and collects the warnings. -/
def bypassSelectors : List NodeId → Graph → Graph × List Diagnostic
  | [], graph => (graph, [])
  | id :: others, graph =>
      let (result, warnings) := bypassSelectors others (graph.bypassSelector id)
      (result, graph.selectorWarning id ++ warnings)

end NodeMaterial.Graph
