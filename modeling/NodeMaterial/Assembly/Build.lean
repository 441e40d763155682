import NodeMaterial.Assembly.Plan
import NodeMaterial.Shader.NameSupply

/-!
# Building a graph from a tree

Nodes are added in authored order, each plan getting names for its slots from
the supply.  Then every link adds an edge between each node that carries the name
of its start and each that carries the name of its end, wherever both sockets
exist.  A link is refused if no node carries one of the two names.

The supply is returned also when building fails, with the names issued until then.
-/

namespace NodeMaterial.Assembly

namespace Plan

/-- The parameters of the slots that pass a test, in order. -/
def paramsWhere (shown : Slot → Bool) (named : List (Slot × String)) : List Param :=
  (named.filter fun entry => shown entry.1).map fun (slot, name) => ⟨name, slot.literal⟩

/-- The data of a node, bound to the first of its names or, for a material, to its own name. -/
def bind (plan : Plan) (names : List String) : Option Binding :=
  plan.source.map fun source =>
    match source with
    | .uvLayer layer => .uvLayer (names.headD "") layer
    | .colorLayer layer => .colorLayer (names.headD "") layer
    | .texture image => .texture (names.headD "") image
    | .material surface => .material plan.name surface

/-- The node of a plan, given names for its slots. -/
def realize (plan : Plan) (names : List String) : Node :=
  let named := plan.slots.zip names
  { kind := plan.kind
    name := plan.name
    inputs := plan.inputs
    outputs := plan.outputs
    params := paramsWhere (·.inFragment) named
    vertexParams := paramsWhere (·.inVertex) named
    data := plan.bind names }

end Plan

/-- Adds the node of a plan. -/
def addPlan (state : Graph × NameSupply) (plan : Plan) : Graph × NameSupply :=
  let (graph, supply) := state
  let (names, supply) := supply.issueAll (plan.slots.map (·.base))
  ((graph.addNode (plan.realize names)).1, supply)

/-- Adds the nodes of authored nodes. -/
def addNodes : List Authored.Node → Graph → NameSupply → Except Failure Graph × NameSupply
  | [], graph, supply => (.ok graph, supply)
  | node :: others, graph, supply =>
      match plan node with
      | .error refusal => (.error refusal.failure, (supply.issueAll refusal.drawn).2)
      | .ok plans =>
          let (graph, supply) := plans.foldl addPlan (graph, supply)
          addNodes others graph supply

/-- The edge of a link between two nodes, if both have its socket. -/
def linkEdge? (link : Authored.Link) (producer consumer : Node) : Option Edge :=
  match producer.outputIndex? link.fromSocket, consumer.inputIndex? link.toSocket with
  | some outSocket, some inSocket => some ⟨producer.id, consumer.id, outSocket, inSocket⟩
  | _, _ => none

/-- The internal nodes that stand for authored nodes of a name, by ascending number. -/
def nodesNamed (graph : Graph) (name : String) : List Node :=
  graph.nodes.filter (·.name == name)

/-- The edges of a link. -/
def linkEdges (graph : Graph) (link : Authored.Link) : List Edge :=
  (nodesNamed graph link.fromNode).flatMap fun producer =>
    (nodesNamed graph link.toNode).filterMap (linkEdge? link producer)

/-- Adds the edges of a link. -/
def addLink (graph : Graph) (link : Authored.Link) : Except Failure Graph :=
  if (nodesNamed graph link.fromNode).isEmpty then
    .error (.unknownNode link.fromNode)
  else if (nodesNamed graph link.toNode).isEmpty then
    .error (.unknownNode link.toNode)
  else
    .ok (graph.addEdges (linkEdges graph link))

/-- Adds the edges of links, one link after the other. -/
def addLinks : List Authored.Link → Graph → Except Failure Graph
  | [], graph => .ok graph
  | link :: others, graph =>
      match addLink graph link with
      | .error failure => .error failure
      | .ok graph => addLinks others graph

/-- The graph of a tree. -/
def build (tree : Authored.Tree) (supply : NameSupply) : Except Failure Graph × NameSupply :=
  match addNodes tree.nodes .empty supply with
  | (.error failure, supply) => (.error failure, supply)
  | (.ok graph, supply) => (addLinks tree.links graph, supply)

end NodeMaterial.Assembly
