import NodeMaterial.Authored.Tree
import NodeMaterial.Json.Record
import NodeMaterial.Json.Value
import NodeMaterial.Text.Digest

/-!
# The JSON format of authored trees

Reading accepts every record as an object or as an array of its fields.  Writing
is canonical: objects with their fields in declared order and no blanks, where
properties that a node does not have are left out.  So equal trees have equal
texts, and the digest of the canonical text identifies a tree.  The texts of
numbers and the hash behind the digest are parameters.
-/

namespace NodeMaterial.Authored

open Json (Draft Fault NumberFormat RecordField Read Value)

/--
How deep containers may nest inside a default value.  A whole text may nest
`127` deep, and a default value stands inside five containers.
-/
def valueDepth : Nat := 122

/-- A number or an array of numbers; the value is read to its end before it is judged. -/
def readSocketValue (draft : Draft) : Read SocketValue :=
  match draft.fault? valueDepth with
  | some fault => .error fault
  | none =>
      match draft with
      | .number _ (some double) => .ok (.scalar double)
      | .array items _ =>
          match Draft.readItems Draft.readNumber items with
          | .ok components => .ok (.vector components)
          | .error _ => .error .mismatched
      | _ => .error .mismatched

/-- The three places of a `Triple`. -/
def tripleFields : List (RecordField Triple) :=
  [.need "x" Draft.readNumber fun x triple => { triple with x },
   .need "y" Draft.readNumber fun y triple => { triple with y },
   .need "z" Draft.readNumber fun z triple => { triple with z }]

/-- An array of exactly three numbers. -/
def readTriple : Draft → Read Triple
  | .array items ending => Draft.readInOrder tripleFields items ending .zeros
  | draft => .error draft.mismatch

/-- The fields of a socket; only its two names have to be given. -/
def socketFields : List (RecordField Socket) :=
  [.need "name" Draft.readText fun name socket => { socket with name },
   .need "identifier" Draft.readText fun identifier socket => { socket with identifier },
   .allow "is_linked" Draft.readFlag fun isLinked socket => { socket with isLinked },
   .allow "default_value" readSocketValue fun defaultValue socket => { socket with defaultValue }]

/-- A socket, unlinked and with the value zero unless something else is said. -/
def readSocket : Draft → Read Socket :=
  Draft.readRecord socketFields { name := "", identifier := "" }

/-- The fields of a texture; only its name has to be given. -/
def textureFields : List (RecordField Texture) :=
  [.need "name" Draft.readText fun name texture => { texture with name },
   .allow "type" Draft.readText fun type texture => { texture with type }]

def readTexture : Draft → Read Texture :=
  Draft.readRecord textureFields { name := "" }

/-- The fields of a material, all of which may be left out. -/
def materialFields : List (RecordField Material) :=
  [.allow "name" Draft.readText fun name material => { material with name },
   .allow "diffuse_shader" Draft.readText fun diffuseShader material =>
     { material with diffuseShader },
   .allow "specular_shader" Draft.readText fun specularShader material =>
     { material with specularShader },
   .allow "roughness" Draft.readNumber fun roughness material => { material with roughness },
   .allow "diffuse_fresnel" Draft.readNumber fun diffuseFresnel material =>
     { material with diffuseFresnel },
   .allow "diffuse_fresnel_factor" Draft.readNumber fun diffuseFresnelFactor material =>
     { material with diffuseFresnelFactor },
   .allow "specular_intensity" Draft.readNumber fun specularIntensity material =>
     { material with specularIntensity },
   .allow "specular_hardness" Draft.readNumber fun specularHardness material =>
     { material with specularHardness },
   .allow "specular_slope" Draft.readNumber fun specularSlope material =>
     { material with specularSlope }]

def readMaterial : Draft → Read Material :=
  Draft.readRecord materialFields {}

/-- A text, `null` or nothing. -/
def readNote : Draft → Read (Option String) :=
  Draft.readOptional Draft.readText

/-- The fields of a node; only its name and its type have to be given. -/
def nodeFields : List (RecordField Node) :=
  [.need "name" Draft.readText fun name node => { node with name },
   .need "type" Draft.readText fun type node => { node with type },
   .allow "inputs" (Draft.readList readSocket) fun inputs node => { node with inputs },
   .allow "outputs" (Draft.readList readSocket) fun outputs node => { node with outputs },
   .allow "operation" readNote fun operation node => { node with operation },
   .allow "blend_type" readNote fun blendType node => { node with blendType },
   .allow "node_tree_name" readNote fun groupName node => { node with groupName },
   .allow "uv_layer" readNote fun uvLayer node => { node with uvLayer },
   .allow "color_layer" readNote fun colorLayer node => { node with colorLayer },
   .allow "texture" (Draft.readOptional readTexture) fun texture node => { node with texture },
   .allow "material" (Draft.readOptional readMaterial) fun material node => { node with material },
   .allow "translation" readTriple fun translation node => { node with translation },
   .allow "rotation" readTriple fun rotation node => { node with rotation },
   .allow "scale" readTriple fun scale node => { node with scale },
   .allow "use_min" Draft.readFlag fun useMin node => { node with useMin },
   .allow "use_max" Draft.readFlag fun useMax node => { node with useMax },
   .allow "min" readTriple fun minClip node => { node with minClip },
   .allow "max" readTriple fun maxClip node => { node with maxClip },
   .allow "use_diffuse" Draft.readFlag fun useDiffuse node => { node with useDiffuse },
   .allow "use_specular" Draft.readFlag fun useSpecular node => { node with useSpecular }]

def readNode : Draft → Read Node :=
  Draft.readRecord nodeFields { name := "", type := "" }

/-- The four names of a link. -/
def linkFields : List (RecordField Link) :=
  [.need "from_node" Draft.readText fun fromNode link => { link with fromNode },
   .need "from_socket" Draft.readText fun fromSocket link => { link with fromSocket },
   .need "to_node" Draft.readText fun toNode link => { link with toNode },
   .need "to_socket" Draft.readText fun toSocket link => { link with toSocket }]

def readLink : Draft → Read Link :=
  Draft.readRecord linkFields ⟨"", "", "", ""⟩

/-- The fields of a tree; its links may be left out. -/
def treeFields : List (RecordField Tree) :=
  [.need "nodes" (Draft.readList readNode) fun nodes tree => { tree with nodes },
   .allow "links" (Draft.readList readLink) fun links tree => { tree with links }]

def readTree : Draft → Read Tree :=
  Draft.readRecord treeFields .empty

/-- The tree written by a JSON text. -/
def Tree.ofText (format : NumberFormat) (text : String) : Read Tree :=
  Json.readText format readTree text

/-! ## Writing -/

/-- A scalar is written as a number, and a vector as an array even if it has one component. -/
def socketValueJson : SocketValue → Value
  | .scalar component => .number component
  | .vector components => .array (components.map .number)

/-- A triple is written as an array of three numbers. -/
def tripleJson (triple : Triple) : Value :=
  .array (triple.toList.map .number)

/-- A socket with all its fields. -/
def socketJson (socket : Socket) : Value :=
  .object
    [("name", .string socket.name),
     ("identifier", .string socket.identifier),
     ("is_linked", .bool socket.isLinked),
     ("default_value", socketValueJson socket.defaultValue)]

def textureJson (texture : Texture) : Value :=
  .object [("name", .string texture.name), ("type", .string texture.type)]

/-- A material with all its fields. -/
def materialJson (material : Material) : Value :=
  .object
    [("name", .string material.name),
     ("diffuse_shader", .string material.diffuseShader),
     ("specular_shader", .string material.specularShader),
     ("roughness", .number material.roughness),
     ("diffuse_fresnel", .number material.diffuseFresnel),
     ("diffuse_fresnel_factor", .number material.diffuseFresnelFactor),
     ("specular_intensity", .number material.specularIntensity),
     ("specular_hardness", .number material.specularHardness),
     ("specular_slope", .number material.specularSlope)]

/-- The member of a property that a node has, or nothing. -/
def property {α : Type} (name : String) (json : α → Value) : Option α → List (String × Value)
  | some value => [(name, json value)]
  | none => []

/-- A node with the properties that it has, and all its other fields. -/
def nodeJson (node : Node) : Value :=
  .object <|
    [("name", .string node.name),
     ("type", .string node.type),
     ("inputs", .array (node.inputs.map socketJson)),
     ("outputs", .array (node.outputs.map socketJson))] ++
    property "operation" .string node.operation ++
    property "blend_type" .string node.blendType ++
    property "node_tree_name" .string node.groupName ++
    property "uv_layer" .string node.uvLayer ++
    property "color_layer" .string node.colorLayer ++
    property "texture" textureJson node.texture ++
    property "material" materialJson node.material ++
    [("translation", tripleJson node.translation),
     ("rotation", tripleJson node.rotation),
     ("scale", tripleJson node.scale),
     ("use_min", .bool node.useMin),
     ("use_max", .bool node.useMax),
     ("min", tripleJson node.minClip),
     ("max", tripleJson node.maxClip),
     ("use_diffuse", .bool node.useDiffuse),
     ("use_specular", .bool node.useSpecular)]

def linkJson (link : Link) : Value :=
  .object
    [("from_node", .string link.fromNode),
     ("from_socket", .string link.fromSocket),
     ("to_node", .string link.toNode),
     ("to_socket", .string link.toSocket)]

/-- A tree as an object of its nodes and its links. -/
def treeJson (tree : Tree) : Value :=
  .object
    [("nodes", .array (tree.nodes.map nodeJson)),
     ("links", .array (tree.links.map linkJson))]

/-- The canonical text of a tree. -/
def Tree.canonical (format : NumberFormat) (tree : Tree) : String :=
  String.ofList ((treeJson tree).compact format)

/-- The hexadecimal digits of the hash of the canonical text. -/
def Tree.fingerprint (format : NumberFormat) (hash : List UInt8 → List UInt8) (tree : Tree) :
    String :=
  Text.Digest.hex (hash (tree.canonical format).toUTF8.toList)

end NodeMaterial.Authored
