import NodeMaterial.Pass.Liveness
import NodeMaterial.Pass.Parallax

/-!
# Elimination

Reroutes are taken out first, then replace groups, and then the height maps of
parallax groups are inlined, so that these see the nodes that really feed them.
If there was anything to do, nodes that are dead by now are removed.

The graph is given also when the elimination fails, as far as it got.
-/

namespace NodeMaterial

/-- What an elimination leaves. -/
structure Eliminated where
  graph : Graph
  warnings : List Diagnostic
  /-- The number of nodes that were dealt with. -/
  outcome : Except Failure Nat

namespace Graph

/-- The graph with dead nodes removed after some nodes were dealt with. -/
def pruneAfter (graph : Graph) (warnings : List Diagnostic) : Nat → Eliminated
  | 0 => ⟨graph, warnings, .ok 0⟩
  | count =>
      match graph.prune with
      | .ok (pruned, _) => ⟨pruned, warnings, .ok count⟩
      | .error failure => ⟨graph, warnings, .error failure⟩

/-- Bypasses reroutes and selectors, inlines height maps, and prunes what is left over. -/
def eliminate (graph : Graph) : Eliminated :=
  let reroutes := graph.idsOfKind .reroute
  let selectors := graph.idsOfKind (.group .replace)
  let parallaxes := graph.idsOfKind (.group .parallax)
  let (bypassed, warnings) := bypassSelectors selectors (reroutes.foldl bypassReroute graph)
  match inlineHeights parallaxes bypassed with
  | (inlined, some failure) => ⟨inlined, warnings, .error failure⟩
  | (inlined, none) =>
      inlined.pruneAfter warnings (reroutes.length + selectors.length + parallaxes.length)

end Graph

end NodeMaterial
