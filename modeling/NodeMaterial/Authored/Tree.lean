import NodeMaterial.Socket

/-!
# Authored trees

An authored tree is what an artist draws: nodes with a type text, sockets and
the properties of some types, and links that address nodes by name and sockets
by identifier.  Names need not be unique.

A tree is put together with `Tree.addNode` and `Tree.link`; linking marks the
sockets at both ends as linked, wherever they exist by then.
-/

namespace NodeMaterial.Authored

/-- A texture, known by its name. -/
structure Texture where
  name : String
  type : String := "IMAGE"
  deriving DecidableEq, Repr

/-- Whether a texture surrounds the scene. -/
def Texture.isEnvironmentMap (texture : Texture) : Bool :=
  texture.type == "ENVIRONMENT_MAP"

/-- A material, known by its name, with the numbers that its shaders use. -/
structure Material where
  name : String := ""
  diffuseShader : String := "LAMBERT"
  specularShader : String := "COOKTORR"
  roughness : Binary64 := (⟨5, -1⟩ : Decimal).toBinary64
  diffuseFresnel : Binary64 := (⟨1, -1⟩ : Decimal).toBinary64
  diffuseFresnelFactor : Binary64 := (⟨5, -1⟩ : Decimal).toBinary64
  specularIntensity : Binary64 := (⟨5, -1⟩ : Decimal).toBinary64
  specularHardness : Binary64 := (⟨50, 0⟩ : Decimal).toBinary64
  specularSlope : Binary64 := (⟨1, -1⟩ : Decimal).toBinary64
  deriving DecidableEq, Repr

/-- A node; most properties matter to a few types only. -/
structure Node where
  name : String
  type : String
  inputs : List Socket := []
  outputs : List Socket := []
  operation : Option String := none
  blendType : Option String := none
  groupName : Option String := none
  uvLayer : Option String := none
  colorLayer : Option String := none
  texture : Option Texture := none
  material : Option Material := none
  translation : Triple := .zeros
  rotation : Triple := .zeros
  scale : Triple := .ones
  useMin : Bool := false
  useMax : Bool := false
  minClip : Triple := .zeros
  maxClip : Triple := .ones
  useDiffuse : Bool := true
  useSpecular : Bool := true
  deriving DecidableEq, Repr

namespace Node

/-- The first input with an identifier. -/
def input? (node : Node) (identifier : String) : Option Socket :=
  node.inputs.find? (·.identifier == identifier)

/-- The first output with an identifier. -/
def output? (node : Node) (identifier : String) : Option Socket :=
  node.outputs.find? (·.identifier == identifier)

/-- A node with one more input, which is named like its identifier and not linked. -/
def addInput (node : Node) (identifier : String) (defaultValue : SocketValue) : Node :=
  { node with inputs := node.inputs ++ [.titled identifier false defaultValue] }

/-- A node with one more output, which is named like its identifier and not linked. -/
def addOutput (node : Node) (identifier : String) (defaultValue : SocketValue) : Node :=
  { node with outputs := node.outputs ++ [.titled identifier false defaultValue] }

end Node

/-- A link from an output socket to an input socket. -/
structure Link where
  fromNode : String
  fromSocket : String
  toNode : String
  toSocket : String
  deriving DecidableEq, Repr

/-- Nodes and links, both in the order in which they were drawn. -/
structure Tree where
  nodes : List Node
  links : List Link := []
  deriving DecidableEq, Repr

namespace Tree

def empty : Tree := { nodes := [] }

/-- A tree with one more node behind the others. -/
def addNode (tree : Tree) (node : Node) : Tree :=
  { tree with nodes := tree.nodes ++ [node] }

/-- Marks the sockets with an identifier as linked. -/
def markLinked (identifier : String) (sockets : List Socket) : List Socket :=
  sockets.map fun socket =>
    if socket.identifier == identifier then { socket with isLinked := true } else socket

/-- Marks the ends of a link that belong to a node. -/
def markEnds (link : Link) (node : Node) : Node :=
  { node with
    outputs :=
      if node.name == link.fromNode then markLinked link.fromSocket node.outputs else node.outputs
    inputs :=
      if node.name == link.toNode then markLinked link.toSocket node.inputs else node.inputs }

/-- Adds a link and marks the sockets at its ends. -/
def link (tree : Tree) (link : Link) : Tree :=
  { nodes := tree.nodes.map (markEnds link), links := tree.links ++ [link] }

/-- The name of the last node of type `OUTPUT`. -/
def outputName? (tree : Tree) : Option String :=
  (tree.nodes.reverse.find? (·.type == "OUTPUT")).map (·.name)

end Tree

end NodeMaterial.Authored
