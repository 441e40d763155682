import NodeMaterial.Failure
import NodeMaterial.Graph.Basic

/-!
# Validity

A normal map changes the normals of a material, so it needs one.
-/

namespace NodeMaterial.Graph

/-- Fails if there is a normal map but no material. -/
def validate (graph : Graph) : Except Failure Unit :=
  if graph.nodes.any (·.kind.isNormalMap) && !graph.nodes.any (·.kind.isMaterial) then
    .error (.configuration none .normalMapWithoutMaterial)
  else
    .ok ()

end NodeMaterial.Graph
