import NodeMaterial.Graph.Basic

/-!
# Sharing geometry accessors

Two accessors match if they read the same facet and, where the facet has layers,
the same layer.  The first of matching accessors takes over the edges that leave
the others, and the others are removed.
-/

namespace NodeMaterial.Graph

/-- Whether two nodes read the same geometry. -/
def sameGeometry (first second : Node) : Bool :=
  match first.kind, second.kind with
  | .geometry facet, .geometry other =>
      facet == other && (!facet.isLayered || first.key? == second.key?)
  | _, _ => false

/-- Whether a node reads something of the geometry. -/
def isGeometry (node : Node) : Bool :=
  match node.kind with
  | .geometry _ => true
  | _ => false

/-- The edge with another source. -/
def startAt (source : NodeId) (edge : Edge) : Edge :=
  { edge with source }

/-- Lets the edges of an accessor start at another, and removes it. -/
def replaceBy (graph : Graph) (id keeper : NodeId) : Graph :=
  (graph.addEdges ((graph.outEdges id).map (startAt keeper))).withoutNode id

/-- Shares accessors one after the other, given those that are kept; counts the removed ones. -/
def shareAccessors : List Node → List Node → Graph → Graph × Nat
  | _, [], graph => (graph, 0)
  | keepers, node :: others, graph =>
      match keepers.find? (sameGeometry node) with
      | none => shareAccessors (keepers ++ [node]) others graph
      | some keeper =>
          let (result, count) := shareAccessors keepers others (graph.replaceBy node.id keeper.id)
          (result, count + 1)

/-- Shares the geometry accessors of a graph. -/
def mergeGeometry (graph : Graph) : Graph × Nat :=
  shareAccessors [] (graph.nodes.filter isGeometry) graph

end NodeMaterial.Graph
