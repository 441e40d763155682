import NodeMaterial.Failure
import NodeMaterial.Graph.Order
import NodeMaterial.Json.Value
import NodeMaterial.Shader.Literal
import NodeMaterial.Shader.NameSupply

/-!
# Instructions

A graph is composed into one instruction per node, in topological order.  An
instruction names the shader variables that the node reads and writes.

Sockets that are not linked get a name, and inputs among them the literal of their
default value, when the instruction is set up.  Then edges are followed, source by
source in topological order: the output at the start of an edge is named when it
has no name yet, and the input at its end takes that name.
-/

namespace NodeMaterial

/-- What an instruction reads: a variable, and the literal to give it if nothing feeds it. -/
structure Operand where
  name : Option String := none
  literal : Option String := none
  deriving DecidableEq, Repr

/-- What a node of the graph asks of the shader: the names at its sockets, and its parameters. -/
structure Instruction where
  tag : String
  inputs : List Operand
  outputs : List (Option String)
  params : List Param
  vertexParams : List String
  deriving DecidableEq, Repr

namespace Instruction

/-! ## Composition -/

/-- The base of the names of an input. -/
def inputBase (tag : String) (socket : Socket) : String :=
  "in_" ++ tag ++ "_" ++ socket.identifier

/-- The base of the names of an output. -/
def outputBase (tag : String) (socket : Socket) : String :=
  "out_" ++ tag ++ "_" ++ socket.identifier

/-- Sets up the inputs of a node. -/
def nameInputs (tag : String) : List Socket → NameSupply → List Operand × NameSupply
  | [], names => ([], names)
  | socket :: sockets, names =>
      if socket.isLinked then
        let (operands, names) := nameInputs tag sockets names
        ({} :: operands, names)
      else
        let (name, names) := names.issue (inputBase tag socket)
        let (operands, names) := nameInputs tag sockets names
        (⟨some name, some (Shader.literal 0 socket.defaultValue)⟩ :: operands, names)

/-- Sets up the outputs of a node. -/
def nameOutputs (tag : String) : List Socket → NameSupply → List (Option String) × NameSupply
  | [], names => ([], names)
  | socket :: sockets, names =>
      if socket.isLinked then
        let (outputs, names) := nameOutputs tag sockets names
        (none :: outputs, names)
      else
        let (name, names) := names.issue (outputBase tag socket)
        let (outputs, names) := nameOutputs tag sockets names
        (some name :: outputs, names)

/-- Sets up the instruction of a node. -/
def ofNode (node : Node) (names : NameSupply) : Instruction × NameSupply :=
  let tag := node.kind.tag
  let (inputs, names) := nameInputs tag node.inputs names
  let (outputs, names) := nameOutputs tag node.outputs names
  (⟨tag, inputs, outputs, node.params, node.vertexParams.map (·.name)⟩, names)

/-- Gives a name to an input. -/
def setInput (place : Nat) (name : String) (instruction : Instruction) : Instruction :=
  { instruction with
    inputs := instruction.inputs.modify place fun operand => { operand with name := some name } }

/-- Gives a name to an output. -/
def setOutput (place : Nat) (name : String) (instruction : Instruction) : Instruction :=
  { instruction with outputs := instruction.outputs.set place (some name) }

end Instruction

/-- The instructions of a graph under construction, each with the number of its node. -/
structure Wiring where
  records : List (NodeId × Instruction) := []
  names : NameSupply := {}
  deriving DecidableEq, Repr

namespace Wiring

/-- Sets up the instructions of nodes. -/
def setUp : List Node → NameSupply → Wiring
  | [], names => ⟨[], names⟩
  | node :: others, names =>
      let (instruction, names) := Instruction.ofNode node names
      let rest := setUp others names
      { rest with records := (node.id, instruction) :: rest.records }

/-- The instruction of a node. -/
def record? (wiring : Wiring) (id : NodeId) : Option Instruction :=
  (wiring.records.find? (·.1 == id)).map (·.2)

/-- Changes the instruction of a node. -/
def modify (wiring : Wiring) (id : NodeId) (change : Instruction → Instruction) : Wiring :=
  { wiring with
    records := wiring.records.map fun (node, instruction) =>
      (node, if node == id then change instruction else instruction) }

/-- Gives an edge a name at both ends. -/
def connect (wiring : Wiring) (edge : Edge) (name : String) : Wiring :=
  (wiring.modify edge.source (Instruction.setOutput edge.outSocket name)).modify edge.target
    (Instruction.setInput edge.inSocket name)

/-- The name of an output: the one that it has, or else a new one. -/
def outputName (wiring : Wiring) (producer : Instruction) (place : Nat) (socket : Socket) :
    String × NameSupply :=
  match producer.outputs[place]? with
  | some (some name) => (name, wiring.names)
  | _ => wiring.names.issue (Instruction.outputBase producer.tag socket)

/-- Whether a node has an instruction with an input at a place. -/
def hasInput (wiring : Wiring) (id : NodeId) (place : Nat) : Bool :=
  (wiring.record? id).any fun consumer => decide (place < consumer.inputs.length)

/-- The output socket at the start of an edge. -/
def startSocket? (graph : Graph) (edge : Edge) : Option Socket :=
  (graph.node? edge.source).bind fun node => node.outputs[edge.outSocket]?

/-- Follows an edge. -/
def follow (graph : Graph) (wiring : Wiring) (edge : Edge) : Except Violation Wiring :=
  match wiring.record? edge.source, startSocket? graph edge with
  | some producer, some socket =>
      if wiring.hasInput edge.target edge.inSocket then
        let (name, names) := wiring.outputName producer edge.outSocket socket
        .ok ({ wiring with names }.connect edge name)
      else
        .error (.danglingEdge edge)
  | _, _ => .error (.danglingEdge edge)

/-- Follows edges one after the other. -/
def followAll (graph : Graph) : List Edge → Wiring → Except Violation Wiring
  | [], wiring => .ok wiring
  | edge :: others, wiring =>
      match follow graph wiring edge with
      | .error violation => .error violation
      | .ok wiring => followAll graph others wiring

end Wiring

/-- The instructions of a graph. -/
def Graph.compose (graph : Graph) : Except Violation (List Instruction) :=
  match graph.topologicalOrder with
  | .error left => .error (.cycle left.length)
  | .ok order =>
      let wiring := Wiring.setUp (order.filterMap graph.node?) {}
      match Wiring.followAll graph (order.flatMap graph.outEdges) wiring with
      | .error violation => .error violation
      | .ok wiring => .ok (wiring.records.map (·.2))

namespace Instruction

/-! ## Texts -/

/-- The text after a name that has a value. -/
def assigned (value : Option String) : String :=
  match value with
  | some value => " = " ++ value
  | none => ""

/-- An input with its place, its name and its value. -/
def inputLine (place : Nat) (operand : Operand) : String :=
  "  in[" ++ toString place ++ "] " ++ operand.name.getD "-" ++ assigned operand.literal ++ "\n"

/-- An output with its place and its name. -/
def outputLine (place : Nat) (name : Option String) : String :=
  "  out[" ++ toString place ++ "] " ++ name.getD "-" ++ "\n"

def paramLine (param : Param) : String :=
  "  param " ++ param.name ++ assigned param.literal ++ "\n"

/-- An instruction in writing: its tag, and a line for each socket and parameter. -/
def text (instruction : Instruction) : String :=
  instruction.tag ++ "\n" ++
    String.join (instruction.inputs.mapIdx inputLine) ++
    String.join (instruction.outputs.mapIdx outputLine) ++
    String.join (instruction.params.map paramLine) ++
    String.join (instruction.vertexParams.map fun name => "  vparam " ++ name ++ "\n")

/-- An instruction as a JSON object. -/
def toJson (instruction : Instruction) : Json.Value :=
  .object
    [("id", .string instruction.tag),
     ("inputs", .array (instruction.inputs.map fun operand => .ofText? operand.name)),
     ("input_values", .array (instruction.inputs.map fun operand => .ofText? operand.literal)),
     ("outputs", .array (instruction.outputs.map .ofText?)),
     ("params", .array (instruction.params.map fun param => .string param.name)),
     ("param_values", .array (instruction.params.map fun param => .ofText? param.literal)),
     ("vparams", .array (instruction.vertexParams.map .string))]

/-- Instructions as an indented JSON text. -/
def document (instructions : List Instruction) : String :=
  String.ofList ((Json.Value.array (instructions.map toJson)).indented .shortest 0 ++ ['\n'])

end Instruction

end NodeMaterial
