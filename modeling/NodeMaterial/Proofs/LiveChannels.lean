import NodeMaterial.Proofs.Liveness

/-!
# Handing out channels and dead nodes

A splitter goes with all edges into it.  What else fed it loses a way to the output,
and stays as a dead node if there is no other way.  No node is lost where every
splitter of the built graph reads a single node: every pass keeps that so.
-/

namespace NodeMaterial

namespace Graph

open Relation

variable {graph other : Graph}

theorem HasKind.of_keepsKinds
    {id : NodeId} {kind : Kind} (has : other.HasKind id kind) (kinds : other.KeepsKinds graph) :
    graph.HasKind id kind := by
  rcases has with ⟨node, found, rfl⟩
  exact kinds id node found

/-! ## The passes keep splitters reading one node -/

/-- Sources may move if edges with the same source move together. -/
theorem SplittersReadOne.of_moved
    (readOne : graph.SplittersReadOne) (move : NodeId → NodeId)
    (kinds : ∀ id, other.HasKind id .separateRgb → graph.HasKind id .separateRgb)
    (edges : ∀ edge ∈ other.edges, other.HasKind edge.target .separateRgb →
      ∃ old ∈ graph.edges, move old.source = edge.source ∧ old.target = edge.target) :
    other.SplittersReadOne := by
  intro first firstMember second secondMember splitter sameTarget
  rcases edges first firstMember splitter with ⟨oldFirst, oldFirstMember, firstMoved, firstTarget⟩
  rcases edges second secondMember (sameTarget ▸ splitter) with
    ⟨oldSecond, oldSecondMember, secondMoved, secondTarget⟩
  have oldSplitter : graph.HasKind oldFirst.target .separateRgb := by
    rw [firstTarget]
    exact kinds first.target splitter
  have sameSource : oldSecond.source = oldFirst.source := by
    apply readOne oldFirst oldFirstMember oldSecond oldSecondMember oldSplitter
    rw [secondTarget, firstTarget, sameTarget]
  rw [← secondMoved, ← firstMoved, sameSource]

theorem SplittersReadOne.of_parallel
    (readOne : graph.SplittersReadOne) (kinds : other.KeepsKinds graph)
    (edges : ∀ edge ∈ other.edges, ∃ old ∈ graph.edges,
      old.source = edge.source ∧ old.target = edge.target) :
    other.SplittersReadOne :=
  readOne.of_moved id (fun _ has => has.of_keepsKinds kinds) fun edge member _ =>
    edges edge member

theorem SplittersReadOne.retain (readOne : graph.SplittersReadOne) (kept : List NodeId) :
    (graph.retain kept).SplittersReadOne := by
  apply readOne.of_parallel
  · exact keepsKinds_of_nodes fun _ _ found => (node?_retain_eq_some_iff.mp found).2
  · intro edge member
    exact ⟨edge, (mem_edges_retain.mp member).1, rfl, rfl⟩

/-- Edges that skip a node start where the edges into it started. -/
theorem SplittersReadOne.bypass
    (readOne : graph.SplittersReadOne) (anchored : graph.Anchored) (id : NodeId)
    {feed : Option Edge} (fed : ∀ start ∈ feed, start ∈ graph.edges) :
    (graph.bypass id feed).SplittersReadOne := by
  have away : ∀ edge ∈ (graph.bypass id feed).edges, edge.source ≠ id := by
    intro edge member
    have present := (anchored.bypass id fed).sources edge member
    rw [Graph.bypass, contains_withoutNode] at present
    exact present.1
  apply readOne.of_moved fun source =>
    if source = id then (feed.map (·.source)).getD source else source
  · exact fun _ has => has.of_keepsKinds (keepsKinds_bypass graph id feed)
  · intro edge member _
    rcases mem_edges_forward.mp (mem_edges_of_mem_edges_withoutNode member) with
      old | ⟨start, rfl, out, outMember, outSource, rfl⟩
    · exact ⟨edge, old, if_neg (away edge member), rfl⟩
    · exact ⟨out, outMember, by simp [outSource, splice], rfl⟩

theorem SplittersReadOne.eliminate
    (readOne : graph.SplittersReadOne) (anchored : graph.Anchored) :
    graph.eliminate.graph.SplittersReadOne := by
  have kept : graph.eliminate.graph.SplittersReadOne ∧ graph.eliminate.graph.Anchored := by
    apply eliminate_induction fun current => current.SplittersReadOne ∧ current.Anchored
    · exact ⟨readOne, anchored⟩
    · rintro current id - ⟨currentReadOne, currentAnchored⟩
      have fed : ∀ start ∈ (current.inEdges id).head?, start ∈ current.edges :=
        fun start first => (head?_inEdges_fed start first).1
      exact ⟨currentReadOne.bypass currentAnchored id fed, currentAnchored.bypass id fed⟩
    · rintro current id - ⟨currentReadOne, currentAnchored⟩
      have fed : ∀ start ∈ current.feed? id 1, start ∈ current.edges :=
        fun start first => (feed?_fed start first).1
      exact ⟨currentReadOne.bypass currentAnchored id fed, currentAnchored.bypass id fed⟩
    · rintro current id result - inlined ⟨currentReadOne, currentAnchored⟩
      constructor
      · exact currentReadOne.of_parallel (keepsKinds_inlineHeight inlined) fun _ member =>
          parallel_inlineHeight inlined member
      · exact currentAnchored.inlineHeight inlined
    · rintro current pruned count done ⟨currentReadOne, -⟩
      rcases prune_eq done with ⟨output, -, rfl⟩
      constructor
      · exact currentReadOne.retain _
      · exact anchored_retain _ _ fun id ancestor => ancestors_present ancestor
  exact kept.1

/-- Edges that left the accessor all move to the one that is kept. -/
theorem SplittersReadOne.replaceBy
    (readOne : graph.SplittersReadOne) {node keeper : Node}
    (repeats : graph.Repeats node keeper) :
    (graph.replaceBy node.id keeper.id).SplittersReadOne := by
  have present := contains_of_node? repeats.found
  apply readOne.of_moved (identify keeper.id node.id)
  · intro id has
    rcases has with ⟨old, found, kind⟩
    exact ⟨old, (node?_replaceBy_eq_some_iff.mp found).2, kind⟩
  · intro edge member _
    rcases (mem_edges_replaceBy present).mp member with
      ⟨old | ⟨old, oldMember, moved, rfl⟩, away, -⟩
    · exact ⟨edge, old, identify_of_ne away, rfl⟩
    · refine ⟨old, oldMember, ?_, rfl⟩
      rw [moved, identify_self]
      rfl

/-- Joining samplers makes no splitters. -/
theorem HasKind.of_absorb
    {keeper candidate : Node} (joins : graph.Joins keeper candidate) {id : NodeId}
    (has : (graph.absorb keeper candidate).HasKind id .separateRgb) :
    id ≠ keeper.id ∧ graph.HasKind id .separateRgb := by
  rcases has with ⟨node, found, kind⟩
  rw [Option.mem_def] at found
  have notCandidate := (contains_absorb.mp (contains_of_node? found)).1
  rw [node?_absorb] at found
  by_cases atKeeper : id = keeper.id
  · rw [atKeeper, node?_takeSockets_keeper joins, Option.some.injEq] at found
    have texture := joins.isTexture_widen
    rw [found, kind] at texture
    cases texture
  · rw [node?_takeSockets_of_ne notCandidate atKeeper] at found
    exact ⟨atKeeper, node, found, kind⟩

theorem SplittersReadOne.absorb
    (readOne : graph.SplittersReadOne) {keeper candidate : Node}
    (joins : graph.Joins keeper candidate) :
    (graph.absorb keeper candidate).SplittersReadOne := by
  have present := contains_of_node? joins.found
  apply readOne.of_moved (identify keeper.id candidate.id)
  · exact fun id has => (has.of_absorb joins).2
  · intro edge member splitter
    rcases (mem_edges_absorb present).mp member with
      ⟨old, away, -⟩ | ⟨old, -, -, rfl⟩ | ⟨old, oldMember, leaves, rfl⟩
    · exact ⟨edge, old, identify_of_ne away, rfl⟩
    · exact absurd rfl (splitter.of_absorb joins).1
    · refine ⟨old, oldMember, ?_, rfl⟩
      rw [leaves, identify_self]
      rfl

/-! ## Outputs and removed nodes -/

theorem output_of_withoutNodes
    {ids : List NodeId} {output : NodeId}
    (isOutput : (ids.foldl withoutNode graph).output = some output) :
    graph.output = some output := by
  induction ids generalizing graph with
  | nil => exact isOutput
  | cons id others induction => exact output_of_withoutNode (induction isOutput)

theorem OutputPresent.withoutNodes
    (outputPresent : graph.OutputPresent) (ids : List NodeId) :
    (ids.foldl Graph.withoutNode graph).OutputPresent := by
  induction ids generalizing graph with
  | nil => exact outputPresent
  | cons id others induction => exact induction (outputPresent.withoutNode id)

/-! ## Exposing channels keeps a graph live -/

/-- What the channels pass needs in order to leave no dead nodes. -/
structure Settled (graph : Graph) : Prop where
  live : graph.Live
  unfed : graph.Unfed
  readOne : graph.SplittersReadOne
  ends : ∀ edge ∈ graph.edges, graph.HasKind edge.source .separateRgb →
    graph.contains edge.target = true

section Exposing

variable {accessor : Node} {splitters : List NodeId}

/-- Where a read edge leads stays and is not the accessor. -/
theorem Settled.read_target
    (settled : graph.Settled) (splits : graph.Splits accessor splitters)
    {read : Edge} (member : read ∈ graph.channelReads splitters) :
    graph.contains read.target = true ∧ read.target ≠ accessor.id ∧
      read.target ∉ splitters := by
  rcases mem_channelReads.mp member with ⟨readEdge, fromSplitter, -⟩
  refine ⟨?_, ?_, ?_⟩
  · exact settled.ends read readEdge (splits.splitter read.source fromSplitter)
  · exact settled.unfed.target_ne_accessor splits readEdge
  · exact settled.readOne.not_chained splits readEdge fromSplitter

/-- A path that starts away from the accessor and its splitters never meets them. -/
theorem Settled.path_kept
    (settled : graph.Settled) (splits : graph.Splits accessor splitters)
    {first last : NodeId} (notAccessor : first ≠ accessor.id) (notSplitter : first ∉ splitters)
    (path : graph.Reaches first last) :
    (last ≠ accessor.id ∧ last ∉ splitters) ∧
      (graph.expose accessor.id splitters).Reaches first last := by
  induction path with
  | refl => exact ⟨⟨notAccessor, notSplitter⟩, ReflTransGen.refl⟩
  | tail _ step induction =>
      rcases induction with ⟨⟨middleNotAccessor, middleNotSplitter⟩, kept⟩
      rcases step with ⟨middlePresent, lastPresent, edge, member, rfl, rfl⟩
      have lastNotAccessor := settled.unfed.target_ne_accessor splits member
      have lastNotSplitter : edge.target ∉ splitters := fun splitter =>
        middleNotAccessor (settled.readOne.source_eq_accessor splits member splitter)
      refine ⟨⟨lastNotAccessor, lastNotSplitter⟩, kept.tail ?_⟩
      have stillEdge : edge ∈ (graph.expose accessor.id splitters).edges :=
        (mem_edges_expose splits).mpr (Or.inl ⟨member, middleNotSplitter, lastNotSplitter⟩)
      exact ⟨contains_expose.mpr ⟨middleNotSplitter, middlePresent⟩,
        contains_expose.mpr ⟨lastNotSplitter, lastPresent⟩, edge, stillEdge, rfl, rfl⟩

/-- Readers of a splitter read the accessor afterwards, so every path goes on to the output. -/
theorem Settled.live_expose
    (settled : graph.Settled) (splits : graph.Splits accessor splitters) :
    (graph.expose accessor.id splitters).Live := by
  rcases settled.live with ⟨output, isOutput, outputPresent, reaches⟩
  rcases List.exists_mem_of_ne_nil _ splits.read with ⟨read, readMember⟩
  rcases settled.read_target splits readMember with ⟨targetPresent, notAccessor, notSplitter⟩
  rcases settled.path_kept splits notAccessor notSplitter
    (reaches read.target targetPresent) with ⟨⟨-, outputKept⟩, readReaches⟩
  refine ⟨output, output_expose_of_not_mem isOutput outputKept,
    contains_expose.mpr ⟨outputKept, outputPresent⟩, ?_⟩
  · intro id stillPresent
    rcases contains_expose.mp stillPresent with ⟨idNotSplitter, present⟩
    by_cases atAccessor : id = accessor.id
    · have newEdge : readDirectly accessor.id (graph.exposed splitters) read ∈
          (graph.expose accessor.id splitters).edges :=
        (mem_edges_expose splits).mpr (Or.inr ⟨read, readMember, rfl⟩)
      have step : (graph.expose accessor.id splitters).Step id read.target :=
        ⟨stillPresent, contains_expose.mpr ⟨notSplitter, targetPresent⟩, _, newEdge,
          atAccessor.symm, rfl⟩
      exact readReaches.head step
    · exact (settled.path_kept splits atAccessor idNotSplitter (reaches id present)).2

theorem Unfed.expose
    (unfed : graph.Unfed) (splits : graph.Splits accessor splitters) :
    (graph.expose accessor.id splitters).Unfed := by
  intro edge member node found
  by_cases atAccessor : edge.target = accessor.id
  · rw [atAccessor, node?_expose_accessor splits, Option.some.injEq] at found
    rw [← found]
    rfl
  · have oldFound : graph.node? edge.target = some node := by
      rw [node?_expose_of_ne atAccessor] at found
      split at found
      · cases found
      · exact found
    rcases (mem_edges_expose splits).mp member with ⟨old, -, -⟩ | ⟨read, readMember, rfl⟩
    · exact unfed edge old node oldFound
    · exact unfed read (mem_channelReads.mp readMember).1 node oldFound

theorem SplittersReadOne.expose
    (readOne : graph.SplittersReadOne) (splits : graph.Splits accessor splitters) :
    (graph.expose accessor.id splitters).SplittersReadOne := by
  apply readOne.of_moved fun source => if source ∈ splitters then accessor.id else source
  · exact fun id has => (has.of_expose splits fun _ => Kind.noConfusion).2
  · intro edge member _
    rcases (mem_edges_expose splits).mp member with ⟨old, away, -⟩ | ⟨read, readMember, rfl⟩
    · exact ⟨edge, old, if_neg away, rfl⟩
    · rcases mem_channelReads.mp readMember with ⟨readEdge, fromSplitter, -⟩
      exact ⟨read, readEdge, if_pos fromSplitter, rfl⟩

/-- Handing out the channels of one accessor keeps all that the next one needs. -/
theorem Settled.expose
    (settled : graph.Settled) (splits : graph.Splits accessor splitters) :
    (graph.expose accessor.id splitters).Settled := by
  constructor
  · exact settled.live_expose splits
  · exact settled.unfed.expose splits
  · exact settled.readOne.expose splits
  · intro edge member splitter
    rcases splitter.of_expose splits (fun _ => Kind.noConfusion) with ⟨notAccessor, oldSplitter⟩
    rcases (mem_edges_expose splits).mp member with ⟨old, -, away⟩ | ⟨read, -, rfl⟩
    · exact contains_expose.mpr ⟨away, settled.ends edge old oldSplitter⟩
    · exact absurd rfl notAccessor

end Exposing

/-- The whole channels pass leaves no dead nodes. -/
theorem Settled.optimizeChannels (settled : graph.Settled) :
    graph.optimizeChannels.1.Settled := by
  apply optimizeChannels_induction Settled
  · intro current accessor splitters splits currentSettled
    exact currentSettled.expose splits
  · exact settled

theorem Settled.absorb
    (settled : graph.Settled) {keeper candidate : Node} (joins : graph.Joins keeper candidate) :
    (graph.absorb keeper candidate).Settled := by
  have present := contains_of_node? joins.found
  constructor
  · exact settled.live.absorb joins
  · exact settled.unfed.absorb joins
  · exact settled.readOne.absorb joins
  · intro edge member splitter
    rcases splitter.of_absorb joins with ⟨notKeeper, oldSplitter⟩
    rcases (mem_edges_absorb present).mp member with
      ⟨old, -, away⟩ | ⟨old, oldMember, enters, rfl⟩ | ⟨old, -, -, rfl⟩
    · exact contains_absorb.mpr ⟨away, settled.ends edge old oldSplitter⟩
    · exact contains_absorb.mpr ⟨joins.different, contains_of_node? joins.keeperFound⟩
    · exact absurd rfl notKeeper

/-! ## What the channels pass leaves -/

/-- A graph has nodes, edges and perhaps the output of another, and all its edges between them. -/
structure Remains (other graph : Graph) : Prop where
  nodes : ∀ id, other.contains id = true → graph.contains id = true
  edges : ∀ edge ∈ graph.edges,
    other.contains edge.source = true → other.contains edge.target = true → edge ∈ other.edges
  output : ∀ output, other.output = some output → graph.output = some output
  outputPresent : other.OutputPresent

/-- The channels pass takes splitters out and adds edges between nodes that stay. -/
theorem remains_optimizeChannels (outputPresent : graph.OutputPresent) :
    graph.optimizeChannels.1.Remains graph := by
  apply optimizeChannels_induction fun current => current.Remains graph
  · intro current accessor splitters splits remains
    constructor
    · intro id present
      exact remains.nodes id (contains_expose.mp present).2
    · intro edge member sourcePresent targetPresent
      rcases contains_expose.mp sourcePresent with ⟨sourceAway, oldSource⟩
      rcases contains_expose.mp targetPresent with ⟨targetAway, oldTarget⟩
      have old := remains.edges edge member oldSource oldTarget
      exact (mem_edges_expose splits).mpr (Or.inl ⟨old, sourceAway, targetAway⟩)
    · intro output isOutput
      rw [output_expose] at isOutput
      exact remains.output output (output_of_withoutNodes isOutput)
    · intro output isOutput
      rw [output_expose] at isOutput
      rw [expose, contains_modifyNode, contains_addEdges]
      exact remains.outputPresent.withoutNodes splitters output isOutput
  · exact
      { nodes := fun _ present => present
        edges := fun _ member _ _ => member
        output := fun _ isOutput => isOutput
        outputPresent }

/-- What is left of a live graph is live if nodes that lost a reader still reach the output. -/
theorem Remains.live_iff (remains : other.Remains graph) (live : graph.Live) :
    other.Live ↔ ∃ output, other.output = some output ∧
      ∀ edge ∈ graph.edges, other.contains edge.source = true →
        other.contains edge.target = false → other.Reaches edge.source output := by
  constructor
  · rintro ⟨output, isOutput, -, reaches⟩
    exact ⟨output, isOutput, fun edge _ sourcePresent _ => reaches edge.source sourcePresent⟩
  · rintro ⟨output, isOutput, lost⟩
    rcases live with ⟨_, wasOutput, -, reaches⟩
    cases wasOutput.symm.trans (remains.output output isOutput)
    refine ⟨output, isOutput, remains.outputPresent output isOutput, fun id present => ?_⟩
    have path := reaches id (remains.nodes id present)
    induction path using ReflTransGen.head_induction_on with
    | refl => exact ReflTransGen.refl
    | head step _ induction =>
        rcases step with ⟨-, -, edge, member, rfl, rfl⟩
        cases targetPresent : other.contains edge.target with
        | false => exact lost edge member present targetPresent
        | true =>
            have still := remains.edges edge member present targetPresent
            exact (induction targetPresent).head
              ⟨present, targetPresent, edge, still, rfl, rfl⟩

end Graph

/-! ## Compiled trees -/

open NodeMaterial.Graph

section Traces

variable {tree : Authored.Tree} {context : Context} {built pruned merged graph : Graph}

/-- What pruning leaves is live. -/
theorem Trace.pruned_live (trace : Trace tree context built pruned merged graph) :
    pruned.Live ∧ pruned.Anchored := by
  rcases trace.prunes with ⟨count, done⟩
  rcases pruneTo_eq_ok done with ⟨output, located, rfl⟩
  constructor
  · exact live_retain rfl (contains_of_findOutput located)
  · exact anchored_retain _ _ fun id ancestor => ancestors_present ancestor

/-- Sharing accessors keeps edges between nodes. -/
theorem Graph.Anchored.replaceBy
    (anchored : graph.Anchored) {node keeper : Node} (repeats : graph.Repeats node keeper) :
    (graph.replaceBy node.id keeper.id).Anchored := by
  refine Anchored.withoutNode (anchored.addEdges ?_ ?_) node.id
  · intro edge member
    rcases List.mem_map.mp member with ⟨old, -, rfl⟩
    exact contains_of_node? repeats.keeperFound
  · intro edge member
    rcases List.mem_map.mp member with ⟨old, oldMember, rfl⟩
    exact anchored.targets old (mem_outEdges.mp oldMember).1

theorem Trace.shared_live (trace : Trace tree context built pruned merged graph) :
    (pruned.eliminate.graph.fixLinks.mergeGeometry.1.Live ∧
      pruned.eliminate.graph.fixLinks.mergeGeometry.1.Unfed) ∧
    pruned.eliminate.graph.fixLinks.mergeGeometry.1.Anchored := by
  rcases trace.pruned_live with ⟨live, anchored⟩
  rcases trace.eliminates with ⟨count, succeeds⟩
  rcases live.eliminate anchored succeeds with ⟨eliminatedLive, eliminatedAnchored⟩
  apply mergeGeometry_induction fun current =>
    (current.Live ∧ current.Unfed) ∧ current.Anchored
  · rintro current node keeper repeats ⟨⟨currentLive, unfed⟩, currentAnchored⟩
    refine ⟨⟨?_, ?_⟩, ?_⟩
    · exact currentLive.replaceBy unfed repeats
    · exact unfed.replaceBy node.id keeper.id
    · exact currentAnchored.replaceBy repeats
  · exact ⟨⟨eliminatedLive.fixLinks, trace.unfed_pruned.eliminate.fixLinks⟩,
      eliminatedAnchored.mapNodes _⟩

/-- Sharing nodes does not cut any of them off the output. -/
theorem Trace.merged_live (trace : Trace tree context built pruned merged graph) :
    merged.Live := by
  rw [trace.merges]
  apply mergeTextures_induction Live
  · intro current keeper candidate joins live
    exact live.absorb joins
  · exact trace.shared_live.1.1

/-- Splitters that read one node each do so up to the channels pass. -/
theorem Trace.merged_settled
    (trace : Trace tree context built pruned merged graph) (readOne : built.SplittersReadOne) :
    merged.Settled := by
  have prunedReadOne : pruned.SplittersReadOne := by
    rcases trace.prunes with ⟨count, done⟩
    rcases pruneTo_eq_ok done with ⟨output, -, rfl⟩
    have completed : built.completeEdges.1.SplittersReadOne :=
      readOne.of_parallel (keepsKinds_completeEdges built) fun _ => parallel_completeEdges
    have located : (built.completeEdges.1.setOutput output).SplittersReadOne := completed
    exact located.retain _
  have eliminated : pruned.eliminate.graph.fixLinks.SplittersReadOne :=
    (prunedReadOne.eliminate trace.pruned_live.2).of_parallel (keepsKinds_fixLinks _)
      fun edge member => ⟨edge, member, rfl, rfl⟩
  have shared : pruned.eliminate.graph.fixLinks.mergeGeometry.1.SplittersReadOne := by
    apply mergeGeometry_induction SplittersReadOne
    · intro current node keeper repeats currentReadOne
      exact currentReadOne.replaceBy repeats
    · exact eliminated
  rcases trace.shared_live with ⟨⟨live, unfed⟩, anchored⟩
  rw [trace.merges]
  apply mergeTextures_induction Settled
  · intro current keeper candidate joins settled
    exact settled.absorb joins
  · exact ⟨live, unfed, shared, fun edge member _ => anchored.targets edge member⟩

end Traces

/--
Every node of a compiled graph reaches the output until channels are handed out.  Then
it still does exactly if nodes that fed a removed splitter still do, and always if
every splitter of the built graph reads a single node.  The composed instructions are
those of the nodes of the graph.
-/
theorem compiled_live_iff
    {tree : Authored.Tree} {context : Context} {graph : Graph}
    (compiled : (tree.compile context).1 = .ok graph) :
    ∃ built merged,
      (Assembly.build tree context.names).1 = .ok built ∧
      (tree.compileTo .merge context).outcome = .ok merged ∧ merged.Live ∧
      (graph.Live ↔ ∃ output, graph.output = some output ∧
        ∀ edge ∈ merged.edges, graph.contains edge.source = true →
          graph.contains edge.target = false → graph.Reaches edge.source output) ∧
      (built.SplittersReadOne → graph.Live) ∧
      ∀ instructions, graph.compose = .ok instructions →
        ∃ nodes : List Node, nodes.Perm graph.nodes ∧
          instructions.map (·.tag) = nodes.map (·.kind.tag) ∧
          (graph.Live → ∀ node ∈ nodes, ∃ output ∈ graph.output,
            graph.Reaches node.id output) := by
  rcases exists_trace compiled with ⟨built, pruned, merged, trace, throughMerge⟩
  have live := trace.merged_live
  refine ⟨built, merged, trace.builds, throughMerge, live, ?_, ?_, ?_⟩
  · have outputPresent : merged.OutputPresent := by
      rcases live with ⟨output, isOutput, present, -⟩
      intro other otherOutput
      cases isOutput.symm.trans otherOutput
      exact present
    rw [trace.exposes]
    exact (remains_optimizeChannels outputPresent).live_iff live
  · intro readOne
    rw [trace.exposes]
    exact (trace.merged_settled readOne).optimizeChannels.live
  · intro instructions composed
    rcases tags_compose composed with ⟨nodes, perm, tags⟩
    refine ⟨nodes, perm, tags, ?_⟩
    rintro ⟨output, isOutput, -, reaches⟩ node member
    have found := node?_of_mem (perm.mem_iff.mp member)
    exact ⟨output, isOutput, reaches node.id (contains_of_node? found)⟩

/-- The splitter reads one accessor, which hands out its red channel instead. -/
theorem compiled_live_translucentMix :
    ∃ built graph,
      (Assembly.build translucentMix {}).1 = .ok built ∧ built.SplittersReadOne ∧
      (translucentMix.compile {}).1 = .ok graph ∧ graph.nodeCount = 4 ∧ graph.Live := by
  have buildsWell : (Assembly.build translucentMix {}).1.map
      (fun built => decide built.SplittersReadOne) = .ok true := by
    decide +kernel
  have compiles : (translucentMix.compile {}).1.map Graph.nodeCount = .ok 4 := by
    decide +kernel
  rcases exists_of_map_eq_ok buildsWell with ⟨built, builds, checked⟩
  rcases exists_of_map_eq_ok compiles with ⟨graph, compiled, count⟩
  rcases compiled_live_iff compiled with ⟨_, _, sameBuilt, -, -, -, live, -⟩
  cases builds.symm.trans sameBuilt
  have readOne := of_decide_eq_true checked
  exact ⟨built, graph, builds, readOne, compiled, count, live readOne⟩

/-- A splitter reads a vertex colour and, through the same input, a constant colour. -/
def paintAndColor : Authored.Tree :=
  { nodes :=
      [{ name := "G", type := "GEOMETRY", outputs := [.titled "Vertex Color" true .zero] },
       { name := "C", type := "RGB", outputs := [.titled "Color" true .zero] },
       { name := "S", type := "SEPRGB", inputs := [.titled "Image" true .zero],
         outputs := [.titled "R" true .zero, .titled "G" false .zero, .titled "B" false .zero] },
       { name := "Out", type := "OUTPUT", inputs := [.titled "Color" true .zero] }]
    links :=
      [⟨"G", "Vertex Color", "S", "Image"⟩, ⟨"C", "Color", "S", "Image"⟩,
       ⟨"S", "R", "Out", "Color"⟩] }

/-- The splitter goes, and the constant colour stays although nothing reads it. -/
theorem paintAndColor_keeps_dead_node :
    (paintAndColor.compile {}).1.map
      (fun graph => (graph.nodeIds, graph.edges, decide graph.Live)) =
    .ok ([0, 1, 3], [⟨0, 3, 0, 0⟩], false) := by
  decide +kernel

end NodeMaterial
