/-!
# The tables of node kinds

Several kinds of nodes come in variants that the authored tree names by a text.
Each table lists its variants, spells them, and finds the variant of a text;
texts are compared letter by letter, so case matters.
-/

namespace NodeMaterial

/-- What a geometry node can give. -/
inductive Facet where
  | uv
  | vertexColor
  | normal
  | frontBack
  | view
  | global
  deriving DecidableEq, Repr

namespace Facet

def all : List Facet :=
  [.uv, .vertexColor, .normal, .frontBack, .view, .global]

/-- The identifier of the output that gives the facet. -/
def identifier : Facet → String
  | .uv => "UV"
  | .vertexColor => "Vertex Color"
  | .normal => "Normal"
  | .frontBack => "Front/Back"
  | .view => "View"
  | .global => "Global"

/-- The letters of the facet at the end of a tag. -/
def suffix : Facet → String
  | .uv => "UV"
  | .vertexColor => "VC"
  | .normal => "NO"
  | .frontBack => "FB"
  | .view => "VW"
  | .global => "GL"

/-- Whether the facet is read from a layer that is chosen by name. -/
def isLayered : Facet → Bool
  | .uv => true
  | .vertexColor => true
  | _ => false

/-- The facet that an output identifier asks for. -/
def ofIdentifier? (identifier : String) : Option Facet :=
  all.find? (·.identifier == identifier)

end Facet

/-- The groups that may stand as one node. -/
inductive GroupKind where
  | linearToSrgb
  | normalView
  | replace
  | srgbToLinear
  | reflect
  | parallax
  | clamp
  | translucency
  deriving DecidableEq, Repr

namespace GroupKind

def all : List GroupKind :=
  [.linearToSrgb, .normalView, .replace, .srgbToLinear, .reflect, .parallax, .clamp, .translucency]

/-- The word for a group, which is also its tag. -/
def spelling : GroupKind → String
  | .linearToSrgb => "LINEAR_TO_SRGB"
  | .normalView => "NORMAL_VIEW"
  | .replace => "REPLACE"
  | .srgbToLinear => "SRGB_TO_LINEAR"
  | .reflect => "REFLECT"
  | .parallax => "PARALLAX"
  | .clamp => "CLAMP"
  | .translucency => "TRANSLUCENCY"

/-- The group that a word stands for. -/
def ofSpelling? (text : String) : Option GroupKind :=
  all.find? (·.spelling == text)

end GroupKind

/-- The operations on numbers. -/
inductive MathOp where
  | add
  | subtract
  | multiply
  | divide
  | sine
  | cosine
  | tangent
  | arcsine
  | arccosine
  | arctangent
  | power
  | logarithm
  | minimum
  | maximum
  | round
  | lessThan
  | greaterThan
  | modulo
  deriving DecidableEq, Repr

namespace MathOp

def all : List MathOp :=
  [.add, .subtract, .multiply, .divide, .sine, .cosine, .tangent, .arcsine, .arccosine,
   .arctangent, .power, .logarithm, .minimum, .maximum, .round, .lessThan, .greaterThan, .modulo]

/-- The word for an operation. -/
def spelling : MathOp → String
  | .add => "ADD"
  | .subtract => "SUBTRACT"
  | .multiply => "MULTIPLY"
  | .divide => "DIVIDE"
  | .sine => "SINE"
  | .cosine => "COSINE"
  | .tangent => "TANGENT"
  | .arcsine => "ARCSINE"
  | .arccosine => "ARCCOSINE"
  | .arctangent => "ARCTANGENT"
  | .power => "POWER"
  | .logarithm => "LOGARITHM"
  | .minimum => "MINIMUM"
  | .maximum => "MAXIMUM"
  | .round => "ROUND"
  | .lessThan => "LESS_THAN"
  | .greaterThan => "GREATER_THAN"
  | .modulo => "MODULO"

/-- The operation that a word stands for. -/
def ofSpelling? (text : String) : Option MathOp :=
  all.find? (·.spelling == text)

end MathOp

/-- The ways to blend two colours. -/
inductive BlendMode where
  | mix
  | add
  | multiply
  | subtract
  | screen
  | divide
  | difference
  | darken
  | lighten
  | overlay
  | dodge
  | burn
  | hue
  | saturation
  | value
  | color
  | softLight
  | linearLight
  deriving DecidableEq, Repr

namespace BlendMode

def all : List BlendMode :=
  [.mix, .add, .multiply, .subtract, .screen, .divide, .difference, .darken, .lighten, .overlay,
   .dodge, .burn, .hue, .saturation, .value, .color, .softLight, .linearLight]

/-- The word for a blend mode. -/
def spelling : BlendMode → String
  | .mix => "MIX"
  | .add => "ADD"
  | .multiply => "MULTIPLY"
  | .subtract => "SUBTRACT"
  | .screen => "SCREEN"
  | .divide => "DIVIDE"
  | .difference => "DIFFERENCE"
  | .darken => "DARKEN"
  | .lighten => "LIGHTEN"
  | .overlay => "OVERLAY"
  | .dodge => "DODGE"
  | .burn => "BURN"
  | .hue => "HUE"
  | .saturation => "SATURATION"
  | .value => "VALUE"
  | .color => "COLOR"
  | .softLight => "SOFT_LIGHT"
  | .linearLight => "LINEAR_LIGHT"

/-- The blend mode that a word stands for. -/
def ofSpelling? (text : String) : Option BlendMode :=
  all.find? (·.spelling == text)

end BlendMode

/-- The operations on vectors. -/
inductive VectorOp where
  | add
  | subtract
  | average
  | dotProduct
  | crossProduct
  | normalize
  deriving DecidableEq, Repr

namespace VectorOp

def all : List VectorOp :=
  [.add, .subtract, .average, .dotProduct, .crossProduct, .normalize]

/-- The word for a vector operation. -/
def spelling : VectorOp → String
  | .add => "ADD"
  | .subtract => "SUBTRACT"
  | .average => "AVERAGE"
  | .dotProduct => "DOT_PRODUCT"
  | .crossProduct => "CROSS_PRODUCT"
  | .normalize => "NORMALIZE"

/-- The vector operation that a word stands for. -/
def ofSpelling? (text : String) : Option VectorOp :=
  all.find? (·.spelling == text)

end VectorOp

/-- What a texture is sampled for. -/
inductive Sampler where
  | color
  | normal
  | environment
  deriving DecidableEq, Repr

namespace Sampler

/-- The word for what a texture is sampled for. -/
def spelling : Sampler → String
  | .color => "COLOR"
  | .normal => "NORMAL"
  | .environment => "ENVIRONMENT"

/-- Whether several lookups of one texture may share a node. -/
def isShareable : Sampler → Bool
  | .environment => false
  | _ => true

end Sampler

end NodeMaterial
