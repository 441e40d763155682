import NodeMaterial.Failure
import NodeMaterial.Pass.Bypass

/-!
# Inlining the height map of a parallax group

A parallax group looks its height up by itself.  The texture that feeds its
second input becomes its own data, its first parameter becomes the texture's, and
the second input goes away; inputs behind it move up, with their edges.  The
texture is removed when nothing else reads it.
-/

namespace NodeMaterial.Graph

/-- A list of parameters with the first one replaced, if there are both. -/
def replaceFirst (params : List Param) (param : Option Param) : List Param :=
  match params, param with
  | _ :: others, some param => param :: others
  | params, _ => params

/-- The node with the data and first parameter of a texture. -/
def takeTexture (texture node : Node) : Node :=
  { node with
    data := texture.data
    params := replaceFirst node.params texture.params.head? }

/-- Takes out the edges from a node into the second input of another, one after the other. -/
def unplugHeight (graph : Graph) (source id : NodeId) : Graph :=
  ((graph.inEdges id).filter fun edge => edge.source == source && edge.inSocket == 1).foldl
    (fun graph edge => (graph.removeEdge edge).1) graph

/-- Removes a node from which no edge leaves. -/
def removeIfUnread (graph : Graph) (id : NodeId) : Graph :=
  if (graph.outEdges id).isEmpty then graph.withoutNode id else graph

/-- Makes the texture at the start of an edge the node's own. -/
def plugTexture (graph : Graph) (id : NodeId) (texture : Node) : Graph :=
  ((graph.modifyNode id (takeTexture texture)).unplugHeight texture.id id).removeIfUnread texture.id

/-- The edge into the input before. -/
def shiftDown (edge : Edge) : Edge :=
  { edge with inSocket := edge.inSocket - 1 }

/-- Takes out an edge into an input behind the first; from behind the second it moves up. -/
def shiftEdge (graph : Graph) (edge : Edge) : Graph :=
  let unplugged := if 1 ≤ edge.inSocket then (graph.removeEdge edge).1 else graph
  if 1 < edge.inSocket then unplugged.addEdge (shiftDown edge) else unplugged

/-- The node without its second input. -/
def withoutSecondInput (node : Node) : Node :=
  { node with inputs := node.inputs.eraseIdx 1 }

/-- Takes away the second input of a node that has one, with the edges into it. -/
def dropSecondInput (graph : Graph) (id : NodeId) : Graph :=
  match graph.node? id with
  | none => graph
  | some node =>
      if node.inputs.length < 2 then
        graph
      else
        (graph.inEdges id).foldl shiftEdge (graph.modifyNode id withoutSecondInput)

/-- The texture at the start of an edge. -/
def textureAt? (graph : Graph) (id : NodeId) : Option Node :=
  (graph.node? id).filter (·.kind.isTexture)

/-- The failure of a parallax group that something other than a texture feeds. -/
def heightFailure (graph : Graph) (id : NodeId) : Failure :=
  .configuration (some (((graph.node? id).map (·.name)).getD "")) .heightNotTexture

/-- Inlines the height map of a parallax group, or fails and leaves the graph as it is. -/
def inlineHeight (graph : Graph) (id : NodeId) : Graph × Option Failure :=
  match graph.feed? id 1 with
  | none => (graph.dropSecondInput id, none)
  | some feed =>
      match graph.textureAt? feed.source with
      | some texture => ((graph.plugTexture id texture).dropSecondInput id, none)
      | none => (graph, some (graph.heightFailure id))

/-- Inlines height maps one after the other, up to the first failure. -/
def inlineHeights : List NodeId → Graph → Graph × Option Failure
  | [], graph => (graph, none)
  | id :: others, graph =>
      match graph.inlineHeight id with
      | (graph, none) => inlineHeights others graph
      | (graph, some failure) => (graph, some failure)

end NodeMaterial.Graph
