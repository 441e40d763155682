import NodeMaterial.Graph.Basic

/-!
# Graphs as Graphviz text

A statement line for each node, filled and shaped by its kind, and one for each
occurrence of an edge, labelled with its sockets.  In a node's label quotes,
backslashes and control characters of the name become underscores.
-/

namespace NodeMaterial

/-- Control characters have codes below the blank or from `7f` to `9f`. -/
def isControl (character : Char) : Bool :=
  decide (character.toNat < 0x20) ||
    (decide (0x7f ≤ character.toNat) && decide (character.toNat < 0xa0))

/-- A name as part of a quoted label. -/
def dotLabel (name : String) : String :=
  String.ofList <| name.toList.map fun character =>
    if character == '"' || character == '\\' || isControl character then '_' else character

/-- The shape and the colour of a kind that is not the output of its graph. -/
def Kind.dotStyle : Kind → String × String
  | .texture _ _ => ("box3d", "lightsalmon")
  | .geometry _ => ("ellipse", "lightgreen")
  | .vertexChannels _ => ("ellipse", "lightgreen")
  | .camera => ("ellipse", "lightgreen")
  | .material => ("component", "plum")
  | .materialExtended => ("component", "plum")
  | .value => ("note", "lightyellow")
  | .rgb => ("note", "lightyellow")
  | .normal => ("note", "lightyellow")
  | .output => ("doubleoctagon", "gray80")
  | _ => ("box", "lightblue")

/-- The statement that draws a node, with its kind and its name in two lines. -/
def Node.dotLine (node : Node) (isOutput : Bool) : String :=
  let (shape, color) := if isOutput then ("doubleoctagon", "gold") else node.kind.dotStyle
  "    n" ++ toString node.id ++ " [shape=" ++ shape ++ ", style=filled, fillcolor=" ++ color ++
    ", label=\"" ++ node.kind.tag ++ "\\n" ++ dotLabel node.name ++ "\"];\n"

/-- The statement that draws an edge, with the places of its sockets. -/
def Edge.dotLine (edge : Edge) : String :=
  "    n" ++ toString edge.source ++ " -> n" ++ toString edge.target ++ " [label=\"" ++
    toString edge.outSocket ++ "→" ++ toString edge.inSocket ++ "\"];\n"

namespace Graph

/-- The opening of a drawing, from left to right. -/
def dotHeader : String :=
  "digraph nmc \x7b\n    rankdir=LR;\n    node [fontname=\"Helvetica\", fontsize=10];\n" ++
    "    edge [fontname=\"Helvetica\", fontsize=9];\n"

/-- Lines after a blank line, or nothing at all. -/
def dotSection (lines : List String) : String :=
  if lines.isEmpty then "" else "\n" ++ String.join lines

/-- A drawing of a graph: its nodes, and then its edges. -/
def dot (graph : Graph) : String :=
  dotHeader ++
    dotSection (graph.nodes.map fun node => node.dotLine (graph.output == some node.id)) ++
    dotSection (graph.edges.map Edge.dotLine) ++
    "\x7d\n"

end Graph

end NodeMaterial
