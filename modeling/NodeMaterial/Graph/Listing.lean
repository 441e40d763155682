import NodeMaterial.Graph.Basic

/-!
# The listing of a graph

A listing has a line with the counts, a line for each node and a line for each
distinct edge, with the number of its occurrences if there are several.
-/

namespace NodeMaterial

/-- A node with its kind, its name and the number of its sockets. -/
def Node.line (node : Node) (isOutput : Bool) : String :=
  "  n" ++ toString node.id ++ " " ++ node.kind.tag ++ " '" ++ node.name ++ "' in=" ++
    toString node.inputs.length ++ " out=" ++ toString node.outputs.length ++
    (if isOutput then " [output]" else "") ++ "\n"

/-- An edge, and how often it occurs unless it occurs once. -/
def EdgeBag.line (entry : Edge × Nat) : String :=
  "  " ++ entry.1.text ++ (if 1 < entry.2 then " x" ++ toString entry.2 else "") ++ "\n"

namespace Graph

/-- A graph in writing: its size, its nodes and its edges. -/
def listing (graph : Graph) : String :=
  "Graph (" ++ toString graph.nodeCount ++ " nodes, " ++ toString graph.edgeCount ++ " edges)\n" ++
    String.join (graph.nodes.map fun node => node.line (graph.output == some node.id)) ++
    String.join (graph.bag.entries.map EdgeBag.line)

end Graph

end NodeMaterial
