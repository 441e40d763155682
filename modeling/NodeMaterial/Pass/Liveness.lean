import NodeMaterial.Failure
import NodeMaterial.Graph.Reach

/-!
# Live nodes and link flags

A node is live if the output can be reached from it.  The output is the last
output node of the authored tree; among several nodes of its name, the first.
-/

namespace NodeMaterial.Graph

/-- The output node of a tree. -/
def findOutput (graph : Graph) (tree : Authored.Tree) : Except Failure NodeId :=
  match tree.outputName? with
  | none => .error .missingOutput
  | some name =>
      match graph.idsNamed name with
      | [] => .error .missingOutput
      | id :: _ => .ok id

/-- Keeps the live nodes, and counts the others. -/
def prune (graph : Graph) : Except Failure (Graph × Nat) :=
  match graph.output with
  | none => .error .missingOutput
  | some output =>
      .ok (graph.retainNodes (graph.ancestors output))

/-- Sets the link flag of each socket by a test on its place. -/
def flagSockets (linked : Nat → Bool) (sockets : List Socket) : List Socket :=
  sockets.mapIdx fun place socket => { socket with isLinked := linked place }

/-- Sets every link flag by the edges that are there. -/
def fixLinks (graph : Graph) : Graph :=
  graph.mapNodes fun node =>
    { node with
      inputs := flagSockets (graph.hasEdgeInto node.id) node.inputs
      outputs := flagSockets (graph.hasEdgeFrom node.id) node.outputs }

end NodeMaterial.Graph
