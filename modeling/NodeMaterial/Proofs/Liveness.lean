import NodeMaterial.Proofs.Compilation

/-!
# Which nodes of a compiled graph are live

A graph is live if it has an output that every node reaches.  Pruning makes a graph
live, and sharing accessors and samplers keeps it so.  Handing out channels removes
splitters with all edges into them.  A node that feeds such a splitter besides the
accessor loses a way to the output, so the pass keeps a graph live if no splitter
reads two nodes.
-/

namespace NodeMaterial

namespace Graph

open Relation

variable {graph other : Graph}

/-- There is an output, and a path leads to it from every node. -/
def Live (graph : Graph) : Prop :=
  ∃ output, graph.output = some output ∧ graph.contains output = true ∧
    ∀ id, graph.contains id = true → graph.Reaches id output

instance (graph : Graph) : Decidable graph.Live :=
  decidable_of_iff
    (∃ output ∈ graph.output, graph.contains output = true ∧
      ∀ id ∈ graph.nodeIds, id ∈ graph.ancestors output) <| by
    constructor
    · rintro ⟨output, isOutput, present, found⟩
      refine ⟨output, isOutput, present, fun id idPresent => ?_⟩
      exact (mem_ancestors.mp (found id (mem_nodeIds.mpr idPresent))).2
    · rintro ⟨output, isOutput, present, reaches⟩
      refine ⟨output, isOutput, present, fun id idMember => ?_⟩
      exact mem_ancestors.mpr ⟨present, reaches id (mem_nodeIds.mp idMember)⟩

/--
A graph stays live if its nodes move in such a way that every step becomes a path, and
the output and the nodes that are left stay where they are.
-/
theorem Live.of_moved
    (live : graph.Live) (move : NodeId → NodeId)
    (steps : ∀ first second, graph.Step first second →
      other.Reaches (move first) (move second))
    (present : ∀ id, other.contains id = true → graph.contains id = true ∧ move id = id)
    (kept : ∀ output, graph.output = some output → other.output = some output ∧
      other.contains output = true) :
    other.Live := by
  rcases live with ⟨output, isOutput, -, reaches⟩
  rcases kept output isOutput with ⟨stillOutput, outputPresent⟩
  refine ⟨output, stillOutput, outputPresent, fun id idPresent => ?_⟩
  rcases present id idPresent with ⟨oldPresent, stays⟩
  have moved : other.Reaches (move id) (move output) :=
    ReflTransGen.lift' move steps id output (reaches id oldPresent)
  rwa [stays, (present output outputPresent).2] at moved

/-! ## Pruning -/

theorem output_retain (graph : Graph) (kept : List NodeId) :
    (graph.retain kept).output = graph.output.filter kept.contains :=
  rfl

/-- A path to a node runs through the ancestors of that node. -/
theorem Reaches.retain_ancestors
    {root id : NodeId} (present : graph.contains root = true) (path : graph.Reaches id root) :
    (graph.retain (graph.ancestors root)).Reaches id root := by
  have kept : ∀ id, graph.Reaches id root →
      id ∈ graph.ancestors root ∧
        (graph.retain (graph.ancestors root)).contains id = true := by
    intro id reaches
    have ancestor := mem_ancestors.mpr ⟨present, reaches⟩
    rcases contains_iff.mp (Reaches.source_present reaches present) with ⟨node, found⟩
    exact ⟨ancestor, contains_of_node? (node?_retain_eq_some_iff.mpr ⟨ancestor, found⟩)⟩
  induction path using ReflTransGen.head_induction_on with
  | refl => exact ReflTransGen.refl
  | head step rest induction =>
      rcases step with ⟨firstPresent, secondPresent, edge, member, rfl, rfl⟩
      have whole : graph.Reaches edge.source root :=
        rest.head ⟨firstPresent, secondPresent, edge, member, rfl, rfl⟩
      rcases kept edge.source whole with ⟨sourceKept, sourcePresent⟩
      rcases kept edge.target rest with ⟨targetKept, targetPresent⟩
      have stillEdge : edge ∈ (graph.retain (graph.ancestors root)).edges :=
        mem_edges_retain.mpr ⟨member, sourceKept, targetKept⟩
      exact induction.head ⟨sourcePresent, targetPresent, edge, stillEdge, rfl, rfl⟩

/-- Pruning to the ancestors of the output leaves nothing else. -/
theorem live_retain
    {output : NodeId} (isOutput : graph.output = some output)
    (present : graph.contains output = true) :
    (graph.retain (graph.ancestors output)).Live := by
  have ancestor : output ∈ graph.ancestors output :=
    mem_ancestors.mpr ⟨present, ReflTransGen.refl⟩
  refine ⟨output, ?_, ?_, ?_⟩
  · rw [output_retain, isOutput]
    simp [ancestor]
  · rcases contains_iff.mp present with ⟨node, found⟩
    exact contains_of_node? (node?_retain_eq_some_iff.mpr ⟨ancestor, found⟩)
  · intro id idPresent
    rcases contains_iff.mp idPresent with ⟨node, found⟩
    have idAncestor := (node?_retain_eq_some_iff.mp found).1
    exact (mem_ancestors.mp idAncestor).2.retain_ancestors present

/-- Pruning leaves a live graph as it is. -/
theorem Live.prune (live : graph.Live) (closed : graph.Closed) :
    graph.prune = .ok (graph, 0) := by
  rcases live with ⟨output, isOutput, present, reaches⟩
  have kept : ∀ id, graph.contains id = true → id ∈ graph.ancestors output :=
    fun id idPresent => mem_ancestors.mpr ⟨present, reaches id idPresent⟩
  have same : graph.retain (graph.ancestors output) = graph := by
    apply eq_of_views
    · rw [nodes_retain, List.filter_eq_self]
      intro node member
      exact decide_eq_true (kept node.id (contains_of_node? (node?_of_mem member)))
    · rw [edges_retain, List.filter_eq_self.mpr]
      intro edge member
      exact decide_eq_true
        ⟨kept _ (closed.sources edge member), kept _ (closed.targets edge member)⟩
    · rfl
    · rw [output_retain, isOutput,
        Option.filter_some_pos (List.contains_iff_mem.mpr (kept output present))]
  simp only [Graph.prune, isOutput, retainNodes, same, Nat.sub_self]

/-- The output that is found is a node of the graph. -/
theorem contains_of_findOutput
    {tree : Authored.Tree} {output : NodeId} (located : graph.findOutput tree = .ok output) :
    graph.contains output = true := by
  rw [findOutput] at located
  cases isName : tree.outputName? with
  | none =>
      rw [isName] at located
      cases located
  | some name =>
      rw [isName] at located
      cases named : graph.idsNamed name with
      | nil =>
          simp only [named] at located
          cases located
      | cons first others =>
          simp only [named, Except.ok.injEq] at located
          have member : output ∈ graph.idsNamed name := by
            rw [named, located]
            exact List.mem_cons_self
          rcases List.mem_map.mp member with ⟨node, nodeMember, rfl⟩
          exact contains_of_node? (node?_of_mem (List.mem_filter.mp nodeMember).1)

/-! ## Graphs whose edges and output lead to nodes -/

/-- The output, if there is one, is a node. -/
def OutputPresent (graph : Graph) : Prop :=
  ∀ output, graph.output = some output → graph.contains output = true

/-- Edges connect nodes, and the output is a node. -/
structure Anchored (graph : Graph) : Prop where
  sources : ∀ edge ∈ graph.edges, graph.contains edge.source = true
  targets : ∀ edge ∈ graph.edges, graph.contains edge.target = true
  output : graph.OutputPresent

theorem output_of_withoutNode
    {id output : NodeId} (isOutput : (graph.withoutNode id).output = some output) :
    graph.output = some output := by
  by_cases removed : graph.output = some id
  · by_cases present : graph.contains id = true
    · simp [withoutNode, present, removed] at isOutput
    · rwa [withoutNode, if_neg present] at isOutput
  · rwa [output_withoutNode_of_ne removed] at isOutput

/-- A node that is removed is no output any longer. -/
theorem OutputPresent.withoutNode (outputPresent : graph.OutputPresent) (id : NodeId) :
    (graph.withoutNode id).OutputPresent := by
  intro output isOutput
  have present := outputPresent output (output_of_withoutNode isOutput)
  refine contains_withoutNode.mpr ⟨?_, present⟩
  rintro rfl
  have wasOutput := output_of_withoutNode isOutput
  simp [Graph.withoutNode, present, wasOutput] at isOutput

/-- Edges that are kept have both ends among the kept nodes. -/
theorem anchored_retain (graph : Graph) (kept : List NodeId)
    (present : ∀ id ∈ kept, graph.contains id = true) : (graph.retain kept).Anchored := by
  have contains_retain : ∀ id ∈ kept, (graph.retain kept).contains id = true := by
    intro id member
    rcases contains_iff.mp (present id member) with ⟨node, found⟩
    exact contains_of_node? (node?_retain_eq_some_iff.mpr ⟨member, found⟩)
  constructor
  · intro edge member
    exact contains_retain edge.source (mem_edges_retain.mp member).2.1
  · intro edge member
    exact contains_retain edge.target (mem_edges_retain.mp member).2.2
  · intro output isOutput
    rw [output_retain, Option.filter_eq_some_iff] at isOutput
    exact contains_retain output (List.contains_iff_mem.mp isOutput.2)

theorem Anchored.closed (anchored : graph.Anchored) : graph.Closed :=
  ⟨anchored.sources, anchored.targets⟩

theorem Closed.anchored (closed : graph.Closed) (outputPresent : graph.OutputPresent) :
    graph.Anchored :=
  ⟨closed.sources, closed.targets, outputPresent⟩

theorem OutputPresent.addEdges (outputPresent : graph.OutputPresent) (edges : List Edge) :
    (graph.addEdges edges).OutputPresent := by
  intro output isOutput
  rw [output_addEdges] at isOutput
  rw [contains_addEdges]
  exact outputPresent output isOutput

theorem OutputPresent.mapNodes (outputPresent : graph.OutputPresent) (change : Node → Node) :
    (graph.mapNodes change).OutputPresent := by
  intro output isOutput
  rw [contains_mapNodes]
  exact outputPresent output isOutput

theorem Anchored.withoutNode (anchored : graph.Anchored) (id : NodeId) :
    (graph.withoutNode id).Anchored :=
  (anchored.closed.withoutNode id).anchored (anchored.output.withoutNode id)

theorem Anchored.addEdges
    (anchored : graph.Anchored) {edges : List Edge}
    (sources : ∀ edge ∈ edges, graph.contains edge.source = true)
    (targets : ∀ edge ∈ edges, graph.contains edge.target = true) :
    (graph.addEdges edges).Anchored :=
  (anchored.closed.addEdges sources targets).anchored (anchored.output.addEdges edges)

theorem Anchored.mapNodes (anchored : graph.Anchored) (change : Node → Node) :
    (graph.mapNodes change).Anchored :=
  (anchored.closed.mapNodes change).anchored (anchored.output.mapNodes change)

/-- New edges start where an edge into the node did and end where an edge from it did. -/
theorem Anchored.bypass
    (anchored : graph.Anchored) (id : NodeId) {feed : Option Edge}
    (fed : ∀ start ∈ feed, start ∈ graph.edges) :
    (graph.bypass id feed).Anchored := by
  refine (anchored.closed.bypass id fed).anchored (OutputPresent.withoutNode ?_ id)
  cases feed with
  | none => exact anchored.output
  | some start => exact anchored.output.addEdges _

theorem OutputPresent.plugTexture
    (outputPresent : graph.OutputPresent) (id : NodeId) (texture : Node) :
    (graph.plugTexture id texture).OutputPresent := by
  have unplugged : ((graph.modifyNode id (takeTexture texture)).unplugHeight texture.id
      id).OutputPresent := by
    rw [unplugHeight_eq]
    exact outputPresent.mapNodes _
  rw [Graph.plugTexture, removeIfUnread]
  split
  · exact unplugged.withoutNode texture.id
  · exact unplugged

theorem OutputPresent.dropSecondInput (outputPresent : graph.OutputPresent) (id : NodeId) :
    (graph.dropSecondInput id).OutputPresent := by
  rcases dropSecondInput_cases graph id with same | ⟨node, found, several, dropped⟩
  · rwa [same]
  · rw [dropped]
    have without : ((graph.unplugLater id).modifyNode id withoutSecondInput).OutputPresent :=
      OutputPresent.mapNodes outputPresent _
    exact without.addEdges _

theorem Anchored.inlineHeight
    (anchored : graph.Anchored) {id : NodeId} {result : Graph}
    (inlined : graph.inlineHeight id = (result, none)) :
    result.Anchored := by
  refine (anchored.closed.inlineHeight inlined).anchored ?_
  rcases inlineHeight_cases inlined with rfl | ⟨_, texture, -, -, rfl⟩
  · exact anchored.output.dropSecondInput id
  · exact (anchored.output.plugTexture id texture).dropSecondInput id

theorem Anchored.rewired (anchored : graph.Anchored) : graph.rewired.Anchored := by
  apply rewired_induction Anchored anchored
  · intro current id _ currentAnchored
    exact currentAnchored.bypass id fun start first => (head?_inEdges_fed start first).1
  · intro current id _ currentAnchored
    exact currentAnchored.bypass id fun start first => (feed?_fed start first).1
  · intro current id result _ inlined currentAnchored
    exact currentAnchored.inlineHeight inlined

theorem ancestors_present
    {root id : NodeId} (ancestor : id ∈ graph.ancestors root) : graph.contains id = true := by
  rcases mem_ancestors.mp ancestor with ⟨present, path⟩
  exact path.source_present present

/-- An elimination that succeeds has nothing to do or prunes. -/
theorem Live.eliminate
    (live : graph.Live) (anchored : graph.Anchored) {count : Nat}
    (succeeds : graph.eliminate.outcome = .ok count) :
    graph.eliminate.graph.Live ∧ graph.eliminate.graph.Anchored := by
  rcases eliminate_cases graph with ⟨unpruned, unchanged⟩ | ⟨_, pruned⟩
  · rw [unpruned, unchanged count succeeds]
    exact ⟨live, anchored⟩
  · rcases prune_eq pruned with ⟨output, isOutput, prunedIs⟩
    rw [prunedIs]
    constructor
    · exact live_retain isOutput (anchored.rewired.output output isOutput)
    · exact anchored_retain _ _ fun id ancestor => ancestors_present ancestor

/-! ## Sharing keeps a graph live -/

theorem Live.fixLinks (live : graph.Live) : graph.fixLinks.Live := by
  apply live.of_moved id
  · rintro first second ⟨firstPresent, secondPresent, edge⟩
    refine ReflTransGen.single ⟨?_, ?_, edge⟩
    · exact (contains_mapNodes ..).trans firstPresent
    · exact (contains_mapNodes ..).trans secondPresent
  · intro node present
    exact ⟨(contains_mapNodes ..).symm.trans present, rfl⟩
  · intro output isOutput
    rcases live with ⟨_, sameOutput, present, -⟩
    cases sameOutput.symm.trans isOutput
    exact ⟨isOutput, (contains_mapNodes ..).trans present⟩

/-- Nothing reaches an accessor but itself. -/
theorem Unfed.eq_of_reaches
    (unfed : graph.Unfed) {id : NodeId} {node : Node} (found : graph.node? id = some node)
    (geometry : isGeometry node = true) {first : NodeId} (path : graph.Reaches first id) :
    first = id := by
  rcases ReflTransGen.cases_tail path with same | ⟨last, -, -, -, edge, member, -, target⟩
  · exact same.symm
  · exact absurd geometry (unfed.target_not_geometry member (by rwa [target]))

/-- Nodes that reached the output through the accessor reach it through the one that is kept. -/
theorem Live.replaceBy
    (live : graph.Live) (unfed : graph.Unfed) {node keeper : Node}
    (repeats : graph.Repeats node keeper) :
    (graph.replaceBy node.id keeper.id).Live := by
  have geometry := (isGeometry_of_sameGeometry repeats.same).1
  have present := contains_of_node? repeats.found
  have keeperPresent := contains_of_node? repeats.keeperFound
  have still : ∀ id, id ≠ node.id → graph.contains id = true →
      (graph.replaceBy node.id keeper.id).contains id = true :=
    fun id away old => contains_replaceBy.mpr ⟨away, old⟩
  apply live.of_moved (identify keeper.id node.id)
  · rintro first second ⟨firstPresent, secondPresent, edge, member, rfl, rfl⟩
    have targetAway : edge.target ≠ node.id := by
      intro target
      exact unfed.target_not_geometry member (target ▸ repeats.found) geometry
    rw [identify_of_ne targetAway]
    have stillSecond := still edge.target targetAway secondPresent
    by_cases moved : edge.source = node.id
    · rw [moved, identify_self]
      have stillKeeper := still keeper.id repeats.different.symm keeperPresent
      refine ReflTransGen.single ⟨stillKeeper, stillSecond, startAt keeper.id edge, ?_, rfl, rfl⟩
      exact (mem_edges_replaceBy present).mpr
        ⟨Or.inr ⟨edge, member, moved, rfl⟩, repeats.different.symm, targetAway⟩
    · rw [identify_of_ne moved]
      have stillFirst := still edge.source moved firstPresent
      refine ReflTransGen.single ⟨stillFirst, stillSecond, edge, ?_, rfl, rfl⟩
      exact (mem_edges_replaceBy present).mpr ⟨Or.inl member, moved, targetAway⟩
  · intro id stillPresent
    rcases contains_replaceBy.mp stillPresent with ⟨away, old⟩
    exact ⟨old, identify_of_ne away⟩
  · intro output isOutput
    rcases live with ⟨_, sameOutput, outputPresent, reaches⟩
    cases sameOutput.symm.trans isOutput
    have away : output ≠ node.id := by
      rintro rfl
      have same := unfed.eq_of_reaches repeats.found geometry
        (reaches keeper.id keeperPresent)
      exact repeats.different same.symm
    exact ⟨output_replaceBy isOutput away, still output away outputPresent⟩

/-- A path through the sampler that joins goes through the widened one. -/
theorem Live.absorb
    (live : graph.Live) {keeper candidate : Node} (joins : graph.Joins keeper candidate) :
    (graph.absorb keeper candidate).Live := by
  have keeperPresent := contains_of_node? joins.keeperFound
  apply live.of_moved (identify keeper.id candidate.id)
  · intro first second step
    exact step.absorb joins
  · intro id stillPresent
    rcases contains_absorb.mp stillPresent with ⟨away, old⟩
    exact ⟨old, identify_of_ne away⟩
  · intro output isOutput
    rcases live with ⟨_, sameOutput, outputPresent, reaches⟩
    cases sameOutput.symm.trans isOutput
    have away : output ≠ candidate.id := by
      rintro rfl
      exact joins.apart (reaches keeper.id keeperPresent)
    exact ⟨output_absorb isOutput away, contains_absorb.mpr ⟨away, outputPresent⟩⟩

end Graph

end NodeMaterial
