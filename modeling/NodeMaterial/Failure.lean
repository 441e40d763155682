import NodeMaterial.Diagnostic
import NodeMaterial.Graph.EdgeBag

/-!
# Why a compilation fails

A `Failure` is a fault of the authored tree and ends its compilation.  A
`Violation` is a fault of a graph that was to be composed.  Both have a message
and a diagnostic.
-/

namespace NodeMaterial

/-- What is wrong with the setup of a node or of a graph. -/
inductive Problem where
  | unsupportedFacet (identifier : String)
  | unknownGroup (name : String)
  | unsupportedMath (operation : String)
  | unsupportedBlend (mode : String)
  | unsupportedVectorMath (operation : String)
  | unknownTextureOutput (identifier : String)
  | missingInput (type identifier : String)
  | missingOutput (type identifier : String)
  | heightNotTexture
  | normalMapWithoutMaterial
  | other (message : String)
  deriving DecidableEq, Repr

/-- A problem in words. -/
def Problem.message : Problem → String
  | .unsupportedFacet identifier => "Geometry output is not supported: " ++ identifier
  | .unknownGroup name => "Wrong group node: " ++ name
  | .unsupportedMath operation => "Unsupported MATH operation: " ++ operation
  | .unsupportedBlend mode => "Unsupported MIX_RGB blend type: " ++ mode
  | .unsupportedVectorMath operation => "Unsupported VECT_MATH operation: " ++ operation
  | .unknownTextureOutput identifier => "Unknown texture output: " ++ identifier
  | .missingInput type identifier => type ++ " node has no '" ++ identifier ++ "' input"
  | .missingOutput type identifier => type ++ " node has no '" ++ identifier ++ "' output"
  | .heightNotTexture => "parallax height input must be a texture"
  | .normalMapWithoutMaterial => "Material has normalmap node but no material node"
  | .other message => message

/-- What a node may have to be bound to. -/
inductive Resource where
  | texture
  | material
  deriving DecidableEq, Repr

/-- The word for a resource. -/
def Resource.text : Resource → String
  | .texture => "texture"
  | .material => "material"

/-- Why a tree cannot be compiled. -/
inductive Failure where
  /-- There is no output node. -/
  | missingOutput
  /-- A node, or without a node the graph as a whole, has a problem. -/
  | configuration (node : Option String) (problem : Problem)
  /-- A node is not bound to a resource that it needs. -/
  | missingBinding (node : String) (resource : Resource)
  /-- A link names a node that no internal node stands for. -/
  | unknownNode (node : String)
  deriving DecidableEq, Repr

namespace Failure

/-- A failure in words. -/
def message : Failure → String
  | .missingOutput => "no output node in node material"
  | .configuration _ problem => problem.message
  | .missingBinding node resource => resource.text ++ " binding missing in node '" ++ node ++ "'"
  | .unknownNode node => "link references unknown node '" ++ node ++ "'"

/-- The code of a failure; a problem without a node is one of the graph as a whole. -/
def code : Failure → Code
  | .missingOutput => .missingOutput
  | .configuration none _ => .combination
  | .configuration (some _) _ => .configuration
  | .missingBinding _ _ => .missingBinding
  | .unknownNode _ => .unknownNode

/-- The name of the node that a failure is about. -/
def node? : Failure → Option String
  | .missingOutput => none
  | .configuration node _ => node
  | .missingBinding node _ => some node
  | .unknownNode node => some node

/-- What may help against a failure. -/
def hint? : Failure → Option String
  | .missingOutput => some "add an OUTPUT node and link it to the material result"
  | _ => none

/-- The error that reports a failure. -/
def diagnostic (failure : Failure) : Diagnostic :=
  { level := .error
    message := failure.message
    code := some failure.code
    node := failure.node?
    hint := failure.hint? }

end Failure

/-- Why a graph cannot be composed. -/
inductive Violation where
  /-- So many nodes have no place in an order. -/
  | cycle (remaining : Nat)
  /-- An edge addresses a socket that its node does not have. -/
  | danglingEdge (edge : Edge)
  deriving DecidableEq, Repr

namespace Violation

/-- A violation in words. -/
def message : Violation → String
  | .cycle remaining =>
      "cycle in compiled graph: " ++ toString remaining ++ " node(s) could not be ordered"
  | .danglingEdge edge => "edge " ++ edge.text ++ " addresses a socket that does not exist"

/-- The error that reports a violation, which is never the fault of a tree. -/
def diagnostic (violation : Violation) : Diagnostic :=
  { level := .error
    message := "internal error: " ++ violation.message
    code := some .internal }

end Violation

end NodeMaterial
