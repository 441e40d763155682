import NodeMaterial.Assembly.Transform
import NodeMaterial.Failure
import NodeMaterial.Graph.Basic
import NodeMaterial.Shader.Literal

/-!
# What an authored node becomes

A plan describes an internal node up to the names of its parameters, which are
drawn from a supply later.  A geometry node has a plan for each of its linked
outputs, in order; every other node has one plan.

A node that is set up wrongly has no plan.  Its refusal says why, and which names
had been asked for before the fault was met, because these names count as issued.
-/

namespace NodeMaterial.Assembly

/-- A parameter to be named, and the shader stages that see it. -/
structure Slot where
  base : String
  literal : Option String := none
  inFragment : Bool := true
  inVertex : Bool := false
  deriving DecidableEq, Repr

/-- Outside data to be bound; layers and textures are bound to the first name drawn. -/
inductive Source where
  | uvLayer (layer : String)
  | colorLayer (layer : String)
  | texture (image : Authored.Texture)
  | material (surface : Authored.Material)
  deriving DecidableEq, Repr

/-- A node whose parameters have no names yet. -/
structure Plan where
  kind : Kind
  name : String
  inputs : List Socket := []
  outputs : List Socket := []
  slots : List Slot := []
  source : Option Source := none
  deriving DecidableEq, Repr

/-- A node that cannot be planned: the failure, and the bases of the names asked for before it. -/
structure Refusal where
  failure : Failure
  drawn : List String := []
  deriving DecidableEq, Repr

/-- A plan, or the refusal of a node. -/
abbrev Planned := Except Refusal

/-! ## Sockets -/

/-- Inputs keep at most three components of their default value. -/
def inputSocket (socket : Socket) : Socket :=
  socket.truncated 3

/-- The inputs of an authored node, in order. -/
def allInputs (node : Authored.Node) : List Socket :=
  node.inputs.map inputSocket

/-- Refuses a node before it draws a name. -/
def refuse {α : Type} (node : Authored.Node) (problem : Problem) : Planned α :=
  .error { failure := .configuration (some node.name) problem }

/-- The first input with an identifier, which the node must have. -/
def requireInput (node : Authored.Node) (identifier : String) : Planned Socket :=
  match node.input? identifier with
  | some socket => .ok (inputSocket socket)
  | none => refuse node (.missingInput node.type identifier)

/-- The first output with an identifier, which the node must have. -/
def requireOutput (node : Authored.Node) (identifier : String) : Planned Socket :=
  match node.output? identifier with
  | some socket => .ok socket
  | none => refuse node (.missingOutput node.type identifier)

/-- The first input with an identifier, or one with a default value. -/
def inputOr (node : Authored.Node) (identifier : String) (defaultValue : SocketValue) : Socket :=
  match node.input? identifier with
  | some socket => inputSocket socket
  | none => .titled identifier false defaultValue

/-- A parameter with the literal of a value. -/
def constant (base : String) (dimension : Nat) (value : SocketValue) : Slot :=
  { base, literal := some (Shader.literal dimension value) }

/-! ## Kinds that keep their sockets -/

/-- A node with all of its sockets. -/
def keepSockets (node : Authored.Node) (kind : Kind) : Plan :=
  { kind, name := node.name, inputs := allInputs node, outputs := node.outputs }

/-- The variant that a text names, or a problem. -/
def variant {α : Type} (node : Authored.Node) (find : String → Option α)
    (problem : String → Problem) (text : Option String) : Planned α :=
  match find (text.getD "") with
  | some found => .ok found
  | none => refuse node (problem (text.getD ""))

/-- A node of arithmetic keeps its sockets; its operation has to be known. -/
def planMath (node : Authored.Node) : Planned Plan := do
  let operation ← variant node MathOp.ofSpelling? .unsupportedMath node.operation
  return keepSockets node (.math operation)

/-- A node that blends colours keeps its sockets; its mode has to be known. -/
def planMix (node : Authored.Node) : Planned Plan := do
  let mode ← variant node BlendMode.ofSpelling? .unsupportedBlend node.blendType
  return keepSockets node (.mixRgb mode)

/-- A node of vector arithmetic keeps its sockets; its operation has to be known. -/
def planVectorMath (node : Authored.Node) : Planned Plan := do
  let operation ← variant node VectorOp.ofSpelling? .unsupportedVectorMath node.operation
  return keepSockets node (.vectorMath operation)

/-- The socket through which a translucency group hands on its parameters. -/
def translucencyParams (isLinked : Bool) : Socket :=
  .titled "TranslucencyParams" isLinked (.vector [.zero, .zero, .zero, .zero])

/-- Whether there is a first socket and it is linked. -/
def firstIsLinked (sockets : List Socket) : Bool :=
  match sockets with
  | [] => false
  | socket :: _ => socket.isLinked

/--
A group keeps its sockets.  A parallax group takes up a texture later, and a translucency group
has one output more, for its parameters.
-/
def planGroup (node : Authored.Node) : Planned Plan := do
  let group ← variant node GroupKind.ofSpelling? .unknownGroup node.groupName
  let plan := keepSockets node (.group group)
  match group with
  | .parallax => return { plan with slots := [{ base := "temp_texture" }] }
  | .translucency =>
      return { plan with
        outputs := plan.outputs ++ [translucencyParams (firstIsLinked plan.outputs)] }
  | _ => return plan

/-- A normal node has its direction as a parameter. -/
def planNormal (node : Authored.Node) : Planned Plan := do
  let normal ← requireOutput node "Normal"
  return { keepSockets node .normal with
    slots := [constant "param_NORMAL_Normal" 3 normal.defaultValue] }

/-! ## Kinds with sockets of their own -/

/-- A colour node has its only output as a parameter. -/
def planRgb (node : Authored.Node) : Planned Plan := do
  let color ← requireOutput node "Color"
  return {
    kind := .rgb
    name := node.name
    outputs := [color]
    slots := [constant "param_RGB_Color" 3 color.defaultValue] }

/-- A value node has its only output as a parameter. -/
def planValue (node : Authored.Node) : Planned Plan := do
  let value ← requireOutput node "Value"
  return {
    kind := .value
    name := node.name
    outputs := [value]
    slots := [constant "param_VALUE_Value" 1 value.defaultValue] }

/-- A mapping that only scales can do with less. -/
def onlyScales (node : Authored.Node) : Bool :=
  node.translation.isZero && node.rotation.isZero && !node.useMin && !node.useMax

/-- The parameters of a mapping by a matrix, with its clipping. -/
def heavySlots (node : Authored.Node) : List Slot :=
  let matrix := Transform.matrix node.translation node.rotation node.scale
  [constant "param_MAPPING_HEAVY_trs_matrix" 16 (.vector matrix),
   constant "param_MAPPING_HEAVY_use_min" 1 (.scalar (.ofFlag node.useMin)),
   constant "param_MAPPING_HEAVY_use_max" 1 (.scalar (.ofFlag node.useMax)),
   constant "param_MAPPING_HEAVY_min_clip" 3 node.minClip.toValue,
   constant "param_MAPPING_HEAVY_max_clip" 3 node.maxClip.toValue]

/-- A mapping is light if it does nothing but scale, and heavy otherwise. -/
def planMapping (node : Authored.Node) : Planned Plan := do
  let input ← requireInput node "Vector"
  let output ← requireOutput node "Vector"
  let light := onlyScales node
  return {
    kind := if light then .mappingLight else .mappingHeavy
    name := node.name
    inputs := [input]
    outputs := [output]
    slots :=
      if light then
        [constant "param_MAPPING_LIGHT_scale" 3 node.scale.toValue]
      else
        heavySlots node }

/-- The two numbers of a material's diffuse shader. -/
def diffuseNumbers (material : Authored.Material) : Binary64 × Binary64 :=
  match material.diffuseShader with
  | "OREN_NAYAR" => (material.roughness, .zero)
  | "FRESNEL" => (material.diffuseFresnel, material.diffuseFresnelFactor)
  | _ => (.zero, .zero)

/-- The number of a material's specular shader. -/
def specularNumber (material : Authored.Material) : Binary64 :=
  match material.specularShader with
  | "COOKTORR" => material.specularHardness
  | "PHONG" => material.specularHardness
  | "WARDISO" => material.specularSlope
  | _ => .zero

/-- The parameters of a material: its two shaders, and whether its normal is linked. -/
def materialSlots (node : Authored.Node) (material : Authored.Material) (normalLinked : Bool) :
    List Slot :=
  let (first, second) := diffuseNumbers material
  [constant "param_MATERIAL_diffuse" 3 (.vector [.ofFlag node.useDiffuse, first, second]),
   constant "param_MATERIAL_spec" 3
     (.vector [.ofFlag node.useSpecular, material.specularIntensity, specularNumber material]),
   constant "param_MATERIAL_norm" 1 (.scalar (.ofFlag normalLinked))]

/-- The inputs that an extended material has besides those of a plain one. -/
def extendedInputs (node : Authored.Node) : List Socket :=
  let linked := ((node.input? "Translucency").map (·.isLinked)).getD false
  [inputOr node "Emit" .zero,
   .titled "Translucency" linked .zero,
   translucencyParams linked]

/-- The outputs that an extended material has besides those of a plain one. -/
def extendedOutputs (node : Authored.Node) : Planned (List Socket) := do
  let diffuse ← requireOutput node "Diffuse"
  let specular ← requireOutput node "Spec"
  return [diffuse, specular]

/-- A material is bound to its settings; the extended one has two outputs more. -/
def planMaterial (node : Authored.Node) (extended : Bool) : Planned Plan := do
  let some material := node.material
    | .error { failure := .missingBinding node.name .material }
  let normal ← requireInput node "Normal"
  let color ← requireInput node "Color"
  let specular ← requireInput node "Spec"
  let outColor ← requireOutput node "Color"
  let outAlpha ← requireOutput node "Alpha"
  let outNormal ← requireOutput node "Normal"
  let moreOutputs ← if extended then extendedOutputs node else .ok []
  return {
    kind := if extended then .materialExtended else .material
    name := node.name
    inputs := [color, inputOr node "Alpha" (.scalar .one), specular, normal] ++
      (if extended then extendedInputs node else [])
    outputs := [outColor, outAlpha, outNormal] ++ moreOutputs
    slots := materialSlots node material normal.isLinked
    source := some (.material material) }

/--
What a texture is sampled for: its first linked colour or normal output decides,
and linked value outputs in front of it do not matter.
-/
def samplerOf (node : Authored.Node) (usual : Sampler) : List Socket → Planned Sampler
  | [] => .ok usual
  | socket :: others =>
      match socket.identifier with
      | "Color" => .ok usual
      | "Normal" => .ok .normal
      | "Value" => samplerOf node usual others
      | identifier => refuse node (.unknownTextureOutput identifier)

/-- The base of the name that a texture is bound to. -/
def textureBase : String := "param_TEXTURE_texture"

/-- The sockets of a texture: its input, and the output that it is sampled for beside the value. -/
def textureSockets (node : Authored.Node) (sampler : Sampler) :
    Planned (Socket × Socket × Socket) := do
  let vector ← requireInput node "Vector"
  let primary ← requireOutput node (if sampler = .normal then "Normal" else "Color")
  let value ← requireOutput node "Value"
  return (vector, primary, value)

/-- A texture is bound to its image, and draws a name for it before its sockets are looked at. -/
def planTexture (node : Authored.Node) : Planned Plan := do
  let some texture := node.texture
    | .error { failure := .missingBinding node.name .texture }
  let usual : Sampler := if texture.isEnvironmentMap then .environment else .color
  let sampler ← samplerOf node usual (node.outputs.filter (·.isLinked))
  match textureSockets node sampler with
  | .error refusal => .error { refusal with drawn := [textureBase] }
  | .ok (vector, primary, value) =>
      return {
        kind := .texture sampler 1
        name := node.name
        inputs := [vector]
        outputs := [primary, value]
        slots := [{ base := textureBase }]
        source := some (.texture texture) }

/-! ## Geometry -/

/-- The slots of a layer: the attribute, seen by vertices, and the varying, seen by both stages. -/
def layerSlots (kind : Kind) : List Slot :=
  [{ base := "param_" ++ kind.tag ++ "_a", inFragment := false, inVertex := true },
   { base := "param_" ++ kind.tag ++ "_v", inVertex := true }]

/-- The plan of one facet of a geometry node, given the linked output that asks for it. -/
def planFacet (node : Authored.Node) (facet : Facet) (socket : Socket) : Plan :=
  let kind := Kind.geometry facet
  let plan : Plan :=
    { kind, name := node.name, outputs := [(node.output? facet.identifier).getD socket] }
  match facet with
  | .uv =>
      { plan with slots := layerSlots kind, source := some (.uvLayer (node.uvLayer.getD "")) }
  | .vertexColor =>
      { plan with slots := layerSlots kind, source := some (.colorLayer (node.colorLayer.getD "")) }
  | _ => plan

/-- The plans of the facets that linked outputs ask for, after some names have been asked for. -/
def planFacets (node : Authored.Node) : List String → List Socket → Planned (List Plan)
  | _, [] => .ok []
  | drawn, socket :: others =>
      match Facet.ofIdentifier? socket.identifier with
      | none =>
          .error
            { failure := .configuration (some node.name) (.unsupportedFacet socket.identifier)
              drawn }
      | some facet =>
          let plan := planFacet node facet socket
          (plan :: ·) <$> planFacets node (drawn ++ plan.slots.map (·.base)) others

/-! ## All kinds -/

/-- The plan of a node that is not a geometry node. -/
def planSingle (node : Authored.Node) : Planned Plan :=
  match node.type with
  | "CAMERA" => .ok { kind := .camera, name := node.name, outputs := node.outputs }
  | "COMBRGB" => .ok (keepSockets node .combineRgb)
  | "SEPRGB" => .ok (keepSockets node .separateRgb)
  | "GROUP" => planGroup node
  | "NORMAL" => planNormal node
  | "MAPPING" => planMapping node
  | "MATERIAL" => planMaterial node false
  | "MATERIAL_EXT" => planMaterial node true
  | "MATH" => planMath node
  | "MIX_RGB" => planMix node
  | "VECT_MATH" => planVectorMath node
  | "OUTPUT" => .ok { kind := .output, name := node.name, inputs := allInputs node }
  | "RGB" => planRgb node
  | "VALUE" => planValue node
  | "TEXTURE" => planTexture node
  | "REROUTE" => .ok (keepSockets node .reroute)
  | type => .ok (keepSockets node (.generic type))

/-- The plans of a node, in order. -/
def plan (node : Authored.Node) : Planned (List Plan) :=
  match node.type with
  | "GEOMETRY" => planFacets node [] (node.outputs.filter (·.isLinked))
  | _ => ([·]) <$> planSingle node

end NodeMaterial.Assembly
