import NodeMaterial.Authored.Tree
import NodeMaterial.Graph.EdgeBag
import NodeMaterial.Kind.Basic

/-!
# Material graphs

A graph holds nodes in the order of their numbers, a bag of edges between their
sockets, and perhaps the node whose inputs are the material's result.  Numbers
are given out once and never again, also after nodes are removed: every number in
use lies below the next one, and a graph carries the proof of that.

Removing a node removes the edges that touch it, so edges between present nodes
stay edges between present nodes.
-/

namespace NodeMaterial

/-- A shader constant; without a literal its value comes from elsewhere. -/
structure Param where
  name : String
  literal : Option String := none
  deriving DecidableEq, Repr

/-- Outside data that a node reads, with the shader name that it is bound to. -/
inductive Binding where
  | uvLayer (name layer : String)
  | colorLayer (name layer : String)
  | texture (name : String) (image : Authored.Texture)
  | material (name : String) (surface : Authored.Material)
  deriving DecidableEq, Repr

namespace Binding

/-- What two nodes must share to read the same data. -/
def key : Binding → String
  | .uvLayer _ layer => layer
  | .colorLayer _ layer => layer
  | .texture _ image => image.name
  | .material _ surface => surface.name

/-- The name that the data is bound to. -/
def name : Binding → String
  | .uvLayer bound _ => bound
  | .colorLayer bound _ => bound
  | .texture bound _ => bound
  | .material bound _ => bound

end Binding

/-- An internal node.  Its number is given to it by the graph. -/
structure Node where
  id : NodeId := 0
  kind : Kind
  name : String
  inputs : List Socket := []
  outputs : List Socket := []
  params : List Param := []
  vertexParams : List Param := []
  data : Option Binding := none
  deriving DecidableEq, Repr

namespace Node

/-- The key of the data bound to a node. -/
def key? (node : Node) : Option String :=
  node.data.map Binding.key

/-- The place of the first output with an identifier. -/
def outputIndex? (node : Node) (identifier : String) : Option Nat :=
  node.outputs.findIdx? (·.identifier == identifier)

/-- The place of the first input with an identifier. -/
def inputIndex? (node : Node) (identifier : String) : Option Nat :=
  node.inputs.findIdx? (·.identifier == identifier)

end Node

/--
A graph with its nodes by ascending number, and the number that the next node gets.  Numbers are
never used twice.
-/
structure Graph where
  nodes : List Node
  bag : EdgeBag
  nextId : NodeId
  output : Option NodeId
  ascending : nodes.Pairwise fun first second => first.id < second.id
  issued : ∀ node ∈ nodes, node.id < nextId
  deriving DecidableEq, Repr

namespace Graph

def empty : Graph := ⟨[], .empty, 0, none, .nil, by simp⟩

/-! ## Nodes -/

/-- The graph with one more node, under the next number. -/
def withNode (graph : Graph) (node : Node) : Graph :=
  { graph with
    nodes := graph.nodes ++ [{ node with id := graph.nextId }]
    nextId := graph.nextId + 1
    ascending := by
      refine List.pairwise_append.mpr ⟨graph.ascending, List.pairwise_singleton _ _, ?_⟩
      intro old member new newMember
      rw [List.mem_singleton.mp newMember]
      exact graph.issued old member
    issued := by
      intro old member
      rcases List.mem_append.mp member with member | member
      · exact Nat.lt_succ_of_lt (graph.issued old member)
      · rw [List.mem_singleton.mp member]
        exact Nat.lt_succ_self _ }

/-- Adds a node, and gives back its number. -/
def addNode (graph : Graph) (node : Node) : Graph × NodeId :=
  (graph.withNode node, graph.nextId)

/-- The node of a number. -/
def node? (graph : Graph) (id : NodeId) : Option Node :=
  graph.nodes.find? (·.id == id)

/-- Whether a number is that of a node. -/
def contains (graph : Graph) (id : NodeId) : Bool :=
  graph.nodes.any (·.id == id)

/-- The numbers of all nodes, ascending. -/
def nodeIds (graph : Graph) : List NodeId :=
  graph.nodes.map (·.id)

/-- The numbers of the nodes with a name. -/
def idsNamed (graph : Graph) (name : String) : List NodeId :=
  (graph.nodes.filter (·.name == name)).map (·.id)

def nodeCount (graph : Graph) : Nat :=
  graph.nodes.length

/-- Changes every node, except for its number. -/
def mapNodes (graph : Graph) (change : Node → Node) : Graph :=
  { graph with
    nodes := graph.nodes.map fun node => { change node with id := node.id }
    ascending := List.pairwise_map.mpr graph.ascending
    issued := by
      intro new member
      obtain ⟨old, oldMember, rfl⟩ := List.mem_map.mp member
      exact graph.issued old oldMember }

/-- Changes the node with a number. -/
def modifyNode (graph : Graph) (id : NodeId) (change : Node → Node) : Graph :=
  graph.mapNodes fun node => if node.id == id then change node else node

/-- Keeps the nodes that pass a test. -/
def filterNodes (graph : Graph) (keeps : Node → Bool) : Graph :=
  { graph with
    nodes := graph.nodes.filter keeps
    ascending := graph.ascending.filter _
    issued := fun node member => graph.issued node (List.mem_filter.mp member).1 }

/-- Keeps the edges that pass a test. -/
def filterEdges (graph : Graph) (keeps : Edge → Bool) : Graph :=
  { graph with bag := graph.bag.filter keeps }

/-- The graph without a node and the edges that touch it. -/
def withoutNode (graph : Graph) (id : NodeId) : Graph :=
  if graph.contains id then
    { (graph.filterNodes (·.id != id)).filterEdges (!·.touches id) with
      output := if graph.output == some id then none else graph.output }
  else
    graph

/-- Removes a node and the edges that touch it, and gives back the node, if there is one. -/
def removeNode (graph : Graph) (id : NodeId) : Graph × Option Node :=
  (graph.withoutNode id, graph.node? id)

/-- The graph with the listed nodes and the edges between them. -/
def retain (graph : Graph) (kept : List NodeId) : Graph :=
  { (graph.filterNodes (kept.contains ·.id)).filterEdges
      fun edge => kept.contains edge.source && kept.contains edge.target with
    output := graph.output.filter kept.contains }

/-- Keeps the listed nodes and the edges between them, and counts the nodes that go. -/
def retainNodes (graph : Graph) (kept : List NodeId) : Graph × Nat :=
  let retained := graph.retain kept
  (retained, graph.nodeCount - retained.nodeCount)

/-- Declares a node to be the output. -/
def setOutput (graph : Graph) (id : NodeId) : Graph :=
  { graph with output := some id }

/-! ## Edges -/

/-- Adds an occurrence of an edge. -/
def addEdge (graph : Graph) (edge : Edge) : Graph :=
  { graph with bag := graph.bag.add edge }

/-- Adds an occurrence of each of several edges. -/
def addEdges (graph : Graph) (edges : List Edge) : Graph :=
  edges.foldl addEdge graph

/-- How often an edge occurs. -/
def multiplicity (graph : Graph) (edge : Edge) : Nat :=
  graph.bag.multiplicity edge

/-- Takes out an occurrence of an edge, and says whether there was one. -/
def removeEdge (graph : Graph) (edge : Edge) : Graph × Bool :=
  if 0 < graph.multiplicity edge then
    ({ graph with bag := graph.bag.remove edge }, true)
  else
    (graph, false)

/-- Takes out all occurrences of an edge. -/
def discardEdge (graph : Graph) (edge : Edge) : Graph :=
  graph.filterEdges (· != edge)

/-- All edges in ascending order, each as often as it occurs. -/
def edges (graph : Graph) : List Edge :=
  graph.bag.occurrences

/-- The number of edges, counted as often as they occur. -/
def edgeCount (graph : Graph) : Nat :=
  graph.bag.size

/-- The occurrences of edges that leave a node. -/
def outEdges (graph : Graph) (id : NodeId) : List Edge :=
  graph.bag.leaving id

/-- The occurrences of edges that enter a node. -/
def inEdges (graph : Graph) (id : NodeId) : List Edge :=
  graph.bag.entering id

/-- The occurrences of edges from one node to another. -/
def edgesBetween (graph : Graph) (source target : NodeId) : List Edge :=
  (graph.outEdges source).filter (·.target == target)

/-- Takes out every occurrence of every edge from one node to another, and gives them back. -/
def removeEdgesBetween (graph : Graph) (source target : NodeId) : Graph × List Edge :=
  let removed := graph.edgesBetween source target
  (removed.foldl discardEdge graph, removed)

/-- Whether an edge starts at an output socket. -/
def hasEdgeFrom (graph : Graph) (id : NodeId) (outSocket : Nat) : Bool :=
  (graph.outEdges id).any (·.outSocket == outSocket)

/-- Whether an edge ends at an input socket. -/
def hasEdgeInto (graph : Graph) (id : NodeId) (inSocket : Nat) : Bool :=
  (graph.inEdges id).any (·.inSocket == inSocket)

end Graph

end NodeMaterial
