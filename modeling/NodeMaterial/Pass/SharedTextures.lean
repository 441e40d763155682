import NodeMaterial.Graph.Reach
import NodeMaterial.Pass.SharedGeometry

/-!
# Sharing texture samplers

Samplers of one kind that are bound to one texture can share a node, each with a
lane of its own: its sockets follow those of the lanes before it.  Samplers are
looked at in order.  Each one joins the first group that has room for it and
whose node neither reaches it nor is reached from it, since sharing with such a
node would close a cycle; if there is no such group it starts one.

A group takes in two samplers besides its first.
-/

namespace NodeMaterial

/-- A sampler that others may join, and how many have. -/
structure SamplerGroup where
  keeper : NodeId
  absorbed : Nat := 0
  deriving DecidableEq, Repr

/-- How many samplers may join another. -/
def SamplerGroup.capacity : Nat := 2

namespace Graph

/-- Whether a sampler of one lane has the kind and the texture of another sampler. -/
def sameTexture (candidate keeper : Node) : Bool :=
  match candidate.kind, keeper.kind with
  | .texture sampler 1, .texture other _ =>
      sampler == other && sampler.isShareable && candidate.key?.isSome &&
        candidate.key? == keeper.key?
  | _, _ => false

/-- Whether a group has room for a sampler, paths apart. -/
def isOpenTo (graph : Graph) (candidate : Node) (group : SamplerGroup) : Bool :=
  decide (group.absorbed < SamplerGroup.capacity) &&
    (graph.node? group.keeper).any (sameTexture candidate)

/-- Whether no path leads from one node to the other or back. -/
def isApart (graph : Graph) (first second : NodeId) : Bool :=
  !(graph.ancestors first).contains second && !(graph.descendants first).contains second

/-- The place of the first group that a sampler can join. -/
def groupFor? (graph : Graph) (groups : List SamplerGroup) (candidate : Node) : Option Nat :=
  groups.findIdx? fun group =>
    graph.isOpenTo candidate group && graph.isApart candidate.id group.keeper

/-- The socket with a number after its identifier. -/
def numberSocket (number : Nat) (socket : Socket) : Socket :=
  { socket with identifier := socket.identifier ++ toString number }

/-- The sockets of the lanes so far, followed by those of a new lane. -/
def appendLane (lanes : Nat) (sockets added : List Socket) : List Socket :=
  (if lanes = 1 then sockets.map (numberSocket 1) else sockets) ++
    added.map (numberSocket (lanes + 1))

/-- The number of lanes of a texture. -/
def laneCount (node : Node) : Nat :=
  match node.kind with
  | .texture _ lanes => lanes
  | _ => 0

/-- The kind with one more lane. -/
def addLane : Kind → Kind
  | .texture sampler lanes => .texture sampler (lanes + 1)
  | kind => kind

/-- The node with the sockets of another as a new lane. -/
def widen (added node : Node) : Node :=
  { node with
    kind := addLane node.kind
    inputs := appendLane (laneCount node) node.inputs added.inputs
    outputs := appendLane (laneCount node) node.outputs added.outputs }

/-- The edge with its end moved from a sampler to the lane that this becomes. -/
def enterLane (keeper candidate : Node) (edge : Edge) : Edge :=
  { edge with
    target := keeper.id
    inSocket := edge.inSocket + laneCount keeper * candidate.inputs.length }

/-- The edge with its start moved from a sampler to the lane that this becomes. -/
def leaveLane (keeper candidate : Node) (edge : Edge) : Edge :=
  { edge with
    source := keeper.id
    outSocket := edge.outSocket + laneCount keeper * candidate.outputs.length }

/-- Makes the sockets of a sampler a new lane of another, without its edges. -/
def takeSockets (graph : Graph) (keeper candidate : Node) : Graph :=
  (graph.withoutNode candidate.id).modifyNode keeper.id (widen candidate)

/-- Makes a sampler a new lane of another, edges and all. -/
def absorb (graph : Graph) (keeper candidate : Node) : Graph :=
  let entering := (graph.inEdges candidate.id).map (enterLane keeper candidate)
  let leaving := (graph.outEdges candidate.id).map (leaveLane keeper candidate)
  ((graph.takeSockets keeper candidate).addEdges entering).addEdges leaving

/-- The groups after a sampler has joined the one at a place. -/
def joined (groups : List SamplerGroup) (place : Nat) : List SamplerGroup :=
  groups.modify place fun group => { group with absorbed := group.absorbed + 1 }

/-- The group at a place, with its node. -/
def keeperAt? (graph : Graph) (groups : List SamplerGroup) (place : Nat) : Option Node :=
  groups[place]?.bind fun group => graph.node? group.keeper

/-- Shares samplers one after the other, given the groups so far; counts those that joined. -/
def shareSamplers : List SamplerGroup → List Node → Graph → Graph × Nat
  | _, [], graph => (graph, 0)
  | groups, candidate :: others, graph =>
      match graph.groupFor? groups candidate with
      | none => shareSamplers (groups ++ [⟨candidate.id, 0⟩]) others graph
      | some place =>
          match graph.keeperAt? groups place with
          | none => shareSamplers groups others graph
          | some keeper =>
              let (result, count) :=
                shareSamplers (joined groups place) others (graph.absorb keeper candidate)
              (result, count + 1)

/-- Whether a node is a texture whose lookups may be shared. -/
def isShareableTexture (node : Node) : Bool :=
  match node.kind with
  | .texture sampler _ => sampler.isShareable
  | _ => false

/-- Shares the texture samplers of a graph. -/
def mergeTextures (graph : Graph) : Graph × Nat :=
  shareSamplers [] (graph.nodes.filter isShareableTexture) graph

/-- Shares geometry accessors, then texture samplers. -/
def mergeNodes (graph : Graph) : Graph × Nat :=
  let (shared, accessors) := graph.mergeGeometry
  let (result, samplers) := shared.mergeTextures
  (result, accessors + samplers)

end Graph

end NodeMaterial
