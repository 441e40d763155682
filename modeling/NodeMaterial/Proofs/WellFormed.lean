import NodeMaterial.Proofs.Channels
import NodeMaterial.Proofs.Elimination
import NodeMaterial.Proofs.Order

/-!
# The passes keep graphs well-formed

A graph is well-formed if its edges address sockets that exist, if it has no cycle
and if the sockets of accessors and samplers fit their kinds: in other words, if it
is acyclic and sound with no kind excused.  From pruning on, each pass keeps graphs
well-formed.

Samplers have few lanes to begin with and take in few others, so the number of lanes
fits into a byte all along.
-/

namespace NodeMaterial.Graph

variable {excused : Kind → Prop} {graph : Graph}

/-- Edges connect sockets of nodes, nodes have their shapes, and there is no cycle. -/
structure WellFormed (graph : Graph) : Prop where
  endpoints : ∀ edge ∈ graph.edges,
    graph.contains edge.source = true ∧ graph.contains edge.target = true
  outputs : ∀ edge ∈ graph.edges, ∀ node ∈ graph.node? edge.source,
    edge.outSocket < node.outputs.length
  inputs : ∀ edge ∈ graph.edges, ∀ node ∈ graph.node? edge.target,
    edge.inSocket < node.inputs.length
  acyclic : graph.Acyclic
  geometry : ∀ node ∈ graph.nodes, isGeometry node = true →
    node.inputs.length = 0 ∧ node.outputs.length = 1
  texture : ∀ node ∈ graph.nodes, node.kind.isTexture = true →
    node.inputs.length = laneCount node ∧ node.outputs.length = 2 * laneCount node

/-- In a well-formed graph no edge needs an excuse. -/
theorem WellFormed.sound (wellFormed : graph.WellFormed) : graph.Sound fun _ => False where
  starts edge member := by
    rcases contains_iff.mp (wellFormed.endpoints edge member).1 with ⟨node, found⟩
    exact ⟨node, found, wellFormed.outputs edge member node found⟩
  lands edge member := by
    rcases contains_iff.mp (wellFormed.endpoints edge member).2 with ⟨node, found⟩
    exact Or.inr ⟨node, found, wellFormed.inputs edge member node found⟩
  shaped id node found := by
    have member := mem_nodes_of_node? found
    constructor
    · intro geometry
      rcases wellFormed.geometry node member geometry with ⟨noInputs, oneOutput⟩
      exact ⟨List.eq_nil_of_length_eq_zero noInputs, oneOutput⟩
    · exact wellFormed.texture node member

/-- A sound graph without excuses or cycles is well-formed. -/
theorem Sound.wellFormed
    (sound : graph.Sound fun _ => False) (acyclic : graph.Acyclic) : graph.WellFormed := by
  have lands : ∀ edge ∈ graph.edges, graph.Lands edge := by
    intro edge member
    exact (sound.lands edge member).resolve_left fun ⟨_, _, impossible⟩ => impossible
  constructor
  · intro edge member
    rcases lands edge member with ⟨target, found, -⟩
    exact ⟨sound.source_present member, contains_of_node? found⟩
  · intro edge member node found
    exact (sound.starts edge member).outSocket_lt found
  · intro edge member node found
    exact (lands edge member).inSocket_lt found
  · exact acyclic
  · intro node member geometry
    rcases (sound.shaped node.id node (node?_of_mem member)).geometry geometry with
      ⟨noInputs, oneOutput⟩
    exact ⟨by rw [noInputs]; rfl, oneOutput⟩
  · intro node member texture
    exact (sound.shaped node.id node (node?_of_mem member)).texture texture

/-! ## Pruning and link flags -/

/-- Pruning fails only without an output. -/
theorem prune_of_output {output : NodeId} (isOutput : graph.output = some output) :
    ∃ count, graph.prune = .ok (graph.retain (graph.ancestors output), count) := by
  rw [prune, isOutput]
  exact ⟨_, rfl⟩

/-- Flags do not change the number of sockets. -/
theorem Sound.fixLinks (sound : graph.Sound excused) : graph.fixLinks.Sound excused := by
  apply sound.mapNodes
  · intro node
    rfl
  · intro node
    exact List.length_mapIdx
  · intro node
    exact List.length_mapIdx

theorem keepsKinds_fixLinks (graph : Graph) : graph.fixLinks.KeepsKinds graph :=
  keepsKinds_mapNodes graph fun _ => rfl

theorem Unfed.fixLinks (unfed : graph.Unfed) : graph.fixLinks.Unfed :=
  unfed.of_targets (keepsKinds_fixLinks graph) fun edge member => ⟨edge, member, rfl⟩

theorem Acyclic.fixLinks (acyclic : graph.Acyclic) : graph.fixLinks.Acyclic :=
  acyclic.of_parallel (keepsKinds_fixLinks graph).present fun edge member =>
    ⟨edge, member, rfl, rfl⟩

/-! ## All passes -/

/--
The graph that a pass leaves is well-formed if the graph that it gets is.  Elimination
leaves such a graph also when it fails.  Handing out channels does so unless splitters
of one accessor feed each other.
-/
theorem wellFormed_passes (wellFormed : graph.WellFormed) :
    (∀ output, graph.output = some output →
      ∃ pruned count, graph.prune = .ok (pruned, count) ∧ pruned.WellFormed) ∧
    graph.eliminate.graph.WellFormed ∧
    graph.fixLinks.WellFormed ∧
    graph.mergeGeometry.1.WellFormed ∧
    graph.mergeTextures.1.WellFormed ∧
    ((∀ node ∈ graph.nodes, laneCount node ≤ 253) →
      ∀ node ∈ graph.mergeTextures.1.nodes, laneCount node ≤ 255) ∧
    (graph.SplittersApart → graph.optimizeChannels.1.WellFormed) := by
  have strict : ∀ kind : Kind, kind.handsOn = true → ¬ False := fun _ _ => id
  have sound := wellFormed.sound
  have acyclic := wellFormed.acyclic
  refine ⟨?_, ?_, ?_, ?_, ?_, ?_, ?_⟩
  · intro output isOutput
    rcases prune_of_output isOutput with ⟨count, pruned⟩
    exact ⟨_, count, pruned, (sound.retain _).wellFormed (acyclic.retain _)⟩
  · rcases sound.eliminate strict acyclic with ⟨eliminated, stillAcyclic⟩
    exact eliminated.wellFormed stillAcyclic
  · exact sound.fixLinks.wellFormed acyclic.fixLinks
  · rcases sound.mergeGeometry strict sound.unfed acyclic with ⟨merged, stillAcyclic⟩
    exact merged.wellFormed stillAcyclic
  · rcases sound.mergeTextures strict acyclic with ⟨merged, stillAcyclic⟩
    exact merged.wellFormed stillAcyclic
  · intro few node member
    have fewLanes : ∀ id old, graph.node? id = some old → laneCount old ≤ 253 :=
      fun _ old found => few old (mem_nodes_of_node? found)
    exact laneCount_mergeTextures_le fewLanes (node?_of_mem member)
  · intro splittersApart
    rcases sound.optimizeChannels strict acyclic (Or.inr splittersApart) with
      ⟨exposed, stillAcyclic⟩
    exact exposed.wellFormed stillAcyclic

/--
Two samplers of the same bricks, each placed by a channel of the same paint.  Two
accessors read the paint, each for a splitter of its own.
-/
def paintedBricks : Graph :=
  let socket (name : String) : Socket := { name, identifier := name }
  let accessor : Node :=
    { kind := .geometry .vertexColor, name := "paint", outputs := [socket "Vertex Color"],
      data := some (.colorLayer "layer0" "Paint") }
  let sampler : Node :=
    { kind := .texture .color 1, name := "bricks", inputs := [socket "Vector"],
      outputs := [socket "Color", socket "Value"],
      data := some (.texture "sampler0" { name := "bricks" }) }
  let splitter : Node :=
    { kind := .separateRgb, name := "split", inputs := [socket "Image"],
      outputs := [socket "R", socket "G", socket "B"] }
  let output : Node :=
    { kind := .output, name := "out",
      inputs := [socket "Color", socket "Alpha", socket "Rim"] }
  (([accessor, accessor, splitter, splitter, sampler, sampler, output].foldl withNode
    empty).addEdges
    [⟨0, 2, 0, 0⟩, ⟨1, 3, 0, 0⟩, ⟨2, 6, 0, 1⟩, ⟨2, 4, 2, 0⟩, ⟨3, 5, 1, 0⟩, ⟨4, 6, 0, 0⟩,
      ⟨5, 6, 1, 2⟩]).setOutput 6

/-- Each of the three passes finds something to do. -/
theorem wellFormed_passes_paintedBricks :
    paintedBricks.WellFormed ∧ paintedBricks.SplittersApart ∧
    paintedBricks.mergeGeometry.1.nodeCount = 6 ∧
    paintedBricks.mergeGeometry.1.WellFormed ∧
    paintedBricks.mergeTextures.1.nodeCount = 6 ∧
    paintedBricks.mergeTextures.1.WellFormed ∧
    paintedBricks.optimizeChannels.1.nodeCount = 5 ∧
    paintedBricks.optimizeChannels.1.WellFormed := by
  have wellFormed : paintedBricks.WellFormed :=
    ⟨by decide +kernel, by decide +kernel, by decide +kernel, by decide +kernel,
      by decide +kernel, by decide +kernel⟩
  have splittersApart : paintedBricks.SplittersApart := by decide +kernel
  rcases wellFormed_passes wellFormed with ⟨-, -, -, geometry, textures, -, channels⟩
  exact ⟨wellFormed, splittersApart, by decide +kernel, geometry, by decide +kernel, textures,
    by decide +kernel, channels splittersApart⟩

end NodeMaterial.Graph
