import NodeMaterial.Kind.Table

/-!
# Node kinds

The kind of a node decides which shader code it stands for.  Its tag names that
code in instruction records and in the names of shader variables.
-/

namespace NodeMaterial

/--
The kind of a node.  A texture has as many lanes as lookups that it makes; a
node of vertex channels has as many outputs as colour channels that it reads.
-/
inductive Kind where
  | camera
  | combineRgb
  | separateRgb
  | geometry (facet : Facet)
  | vertexChannels (count : Nat)
  | group (variant : GroupKind)
  | normal
  | mappingLight
  | mappingHeavy
  | material
  | materialExtended
  | math (operation : MathOp)
  | mixRgb (mode : BlendMode)
  | vectorMath (operation : VectorOp)
  | output
  | rgb
  | value
  | texture (sampler : Sampler) (lanes : Nat)
  | reroute
  | generic (tag : String)
  deriving DecidableEq, Repr

namespace Kind

/--
The name of the shader code of a kind.  A texture has its lanes behind it if they are several.
-/
def tag : Kind → String
  | .camera => "CAMERA"
  | .combineRgb => "COMBRGB"
  | .separateRgb => "SEPRGB"
  | .geometry facet => "GEOMETRY_" ++ facet.suffix
  | .vertexChannels count => "GEOMETRY_VC" ++ toString count
  | .group variant => variant.spelling
  | .normal => "NORMAL"
  | .mappingLight => "MAPPING_LIGHT"
  | .mappingHeavy => "MAPPING_HEAVY"
  | .material => "MATERIAL"
  | .materialExtended => "MATERIAL_EXT"
  | .math operation => "MATH_" ++ operation.spelling
  | .mixRgb mode => "MIX_RGB_" ++ mode.spelling
  | .vectorMath operation => "VECT_MATH_" ++ operation.spelling
  | .output => "OUTPUT"
  | .rgb => "RGB"
  | .value => "VALUE"
  | .texture sampler lanes =>
      "TEXTURE_" ++ sampler.spelling ++ (if 1 < lanes then toString lanes else "")
  | .reroute => "REROUTE"
  | .generic tag => tag

/-- Whether a kind computes a lit surface. -/
def isMaterial : Kind → Bool
  | .material => true
  | .materialExtended => true
  | _ => false

/-- Whether a kind samples a texture for normals. -/
def isNormalMap : Kind → Bool
  | .texture .normal _ => true
  | _ => false

def isTexture : Kind → Bool
  | .texture _ _ => true
  | _ => false

end Kind

end NodeMaterial
