import NodeMaterial.Compilation

/-!
# Stages do not look at the next number

A graph that has skipped a number has the same nodes, edges and output.  After the
building stage no node is added, so all later stages give the same result on such a
graph, again with a number skipped.
-/

namespace NodeMaterial.Graph

/-- The graph with its next number skipped. -/
def skip (graph : Graph) : Graph :=
  { graph with
    nextId := graph.nextId + 1
    issued := fun node member => Nat.lt_succ_of_lt (graph.issued node member) }

/-! ## Operations -/

theorem addEdges_skip (graph : Graph) (edges : List Edge) :
    graph.skip.addEdges edges = (graph.addEdges edges).skip :=
  List.foldl_hom skip fun _ _ => rfl

theorem withoutNode_skip (graph : Graph) (id : NodeId) :
    graph.skip.withoutNode id = (graph.withoutNode id).skip := by
  rw [withoutNode, withoutNode, apply_ite skip]
  rfl

theorem foldl_withoutNode_skip (ids : List NodeId) (graph : Graph) :
    ids.foldl withoutNode graph.skip = (ids.foldl withoutNode graph).skip :=
  List.foldl_hom skip withoutNode_skip

/-- A search looks at nodes and edges only. -/
theorem explore_skip (graph : Graph) (next : NodeId → List NodeId) (found queue : List NodeId) :
    graph.skip.explore next found queue = graph.explore next found queue := by
  fun_induction explore graph next found queue with
  | case1 found => rw [explore]
  | case2 found id queue finds induction =>
      rw [explore]
      exact (if_pos finds).trans induction
  | case3 found id queue known induction =>
      rw [explore]
      exact (if_neg known).trans induction

theorem ancestors_skip (graph : Graph) : graph.skip.ancestors = graph.ancestors :=
  funext fun root => explore_skip graph _ [] [root]

theorem descendants_skip (graph : Graph) : graph.skip.descendants = graph.descendants :=
  funext fun root => explore_skip graph _ [] [root]

/-! ## Elimination -/

theorem prune_skip (graph : Graph) :
    graph.skip.prune = graph.prune.map fun result => (result.1.skip, result.2) := by
  have same : graph.skip.output = graph.output := rfl
  rw [prune, prune, same, ancestors_skip]
  cases graph.output <;> rfl

theorem bypass_skip (graph : Graph) (id : NodeId) (feed : Option Edge) :
    graph.skip.bypass id feed = (graph.bypass id feed).skip := by
  have forwarded : graph.skip.forward id feed = (graph.forward id feed).skip := by
    cases feed with
    | none => rfl
    | some start => exact addEdges_skip graph _
  rw [bypass, forwarded, withoutNode_skip]
  rfl

theorem foldl_bypassReroute_skip (ids : List NodeId) (graph : Graph) :
    ids.foldl bypassReroute graph.skip = (ids.foldl bypassReroute graph).skip :=
  List.foldl_hom skip fun current id => bypass_skip current id _

theorem bypassSelectors_skip (ids : List NodeId) (graph : Graph) :
    bypassSelectors ids graph.skip =
      ((bypassSelectors ids graph).1.skip, (bypassSelectors ids graph).2) := by
  induction ids generalizing graph with
  | nil => rfl
  | cons id others induction =>
      have first : graph.skip.bypassSelector id = (graph.bypassSelector id).skip :=
        bypass_skip graph id _
      rw [bypassSelectors, first, induction]
      rfl

theorem removeEdge_skip (graph : Graph) (edge : Edge) :
    (graph.skip.removeEdge edge).1 = (graph.removeEdge edge).1.skip := by
  have same : graph.skip.multiplicity edge = graph.multiplicity edge := rfl
  rw [removeEdge, removeEdge, same]
  split <;> rfl

theorem unplugHeight_skip (graph : Graph) (source id : NodeId) :
    graph.skip.unplugHeight source id = (graph.unplugHeight source id).skip :=
  List.foldl_hom skip removeEdge_skip

theorem shiftEdge_skip (graph : Graph) (edge : Edge) :
    graph.skip.shiftEdge edge = (graph.shiftEdge edge).skip := by
  rw [shiftEdge, shiftEdge, removeEdge_skip]
  split <;> split <;> rfl

theorem foldl_shiftEdge_skip (edges : List Edge) (graph : Graph) :
    edges.foldl shiftEdge graph.skip = (edges.foldl shiftEdge graph).skip :=
  List.foldl_hom skip shiftEdge_skip

theorem plugTexture_skip (graph : Graph) (id : NodeId) (texture : Node) :
    graph.skip.plugTexture id texture = (graph.plugTexture id texture).skip := by
  have removed : ∀ current : Graph,
      current.skip.removeIfUnread texture.id = (current.removeIfUnread texture.id).skip := by
    intro current
    rw [removeIfUnread, removeIfUnread, apply_ite skip, withoutNode_skip]
    rfl
  rw [plugTexture, plugTexture, ← removed, ← unplugHeight_skip]
  rfl

theorem dropSecondInput_skip (graph : Graph) (id : NodeId) :
    graph.skip.dropSecondInput id = (graph.dropSecondInput id).skip := by
  have same : graph.skip.node? id = graph.node? id := rfl
  rw [dropSecondInput, dropSecondInput, same]
  cases graph.node? id with
  | none => rfl
  | some node =>
      dsimp only
      rw [apply_ite skip, ← foldl_shiftEdge_skip]
      rfl

/-- Height maps are inlined without new nodes. -/
theorem inlineHeight_skip (graph : Graph) (id : NodeId) :
    graph.skip.inlineHeight id = ((graph.inlineHeight id).1.skip, (graph.inlineHeight id).2) := by
  have sameFeed : graph.skip.feed? id 1 = graph.feed? id 1 := rfl
  have sameTexture : graph.skip.textureAt? = graph.textureAt? := rfl
  rw [inlineHeight, inlineHeight, sameFeed, sameTexture]
  cases graph.feed? id 1 with
  | none => exact congrArg (·, none) (dropSecondInput_skip graph id)
  | some feed =>
      dsimp only
      cases graph.textureAt? feed.source with
      | none => rfl
      | some texture =>
          dsimp only
          rw [plugTexture_skip, dropSecondInput_skip]

theorem inlineHeights_skip (ids : List NodeId) (graph : Graph) :
    inlineHeights ids graph.skip =
      ((inlineHeights ids graph).1.skip, (inlineHeights ids graph).2) := by
  induction ids generalizing graph with
  | nil => rfl
  | cons id others induction =>
      rw [inlineHeights, inlineHeights, inlineHeight_skip]
      rcases graph.inlineHeight id with ⟨inlined, _ | failure⟩
      · exact induction inlined
      · rfl

/-! ## Sharing -/

theorem shareAccessors_skip (keepers nodes : List Node) (graph : Graph) :
    shareAccessors keepers nodes graph.skip =
      ((shareAccessors keepers nodes graph).1.skip, (shareAccessors keepers nodes graph).2) := by
  induction nodes generalizing keepers graph with
  | nil => rfl
  | cons node others induction =>
      rw [shareAccessors, shareAccessors]
      cases keepers.find? (sameGeometry node) with
      | none => exact induction (keepers ++ [node]) graph
      | some keeper =>
          have replaced : graph.skip.replaceBy node.id keeper.id =
              (graph.replaceBy node.id keeper.id).skip := by
            rw [replaceBy, addEdges_skip, withoutNode_skip]
            rfl
          dsimp only
          rw [replaced, induction]

theorem absorb_skip (graph : Graph) (keeper candidate : Node) :
    graph.skip.absorb keeper candidate = (graph.absorb keeper candidate).skip := by
  have taken : graph.skip.takeSockets keeper candidate =
      (graph.takeSockets keeper candidate).skip := by
    rw [takeSockets, withoutNode_skip]
    rfl
  rw [absorb, taken, addEdges_skip, addEdges_skip]
  rfl

theorem shareSamplers_skip (groups : List SamplerGroup) (nodes : List Node) (graph : Graph) :
    shareSamplers groups nodes graph.skip =
      ((shareSamplers groups nodes graph).1.skip, (shareSamplers groups nodes graph).2) := by
  induction nodes generalizing groups graph with
  | nil => rfl
  | cons candidate others induction =>
      have sameGroup : graph.skip.groupFor? groups candidate =
          graph.groupFor? groups candidate := by
        simp only [groupFor?, isApart, ancestors_skip, descendants_skip]
        rfl
      have sameKeeper : graph.skip.keeperAt? groups = graph.keeperAt? groups := rfl
      rw [shareSamplers, shareSamplers, sameGroup, sameKeeper]
      cases graph.groupFor? groups candidate with
      | none => exact induction _ graph
      | some place =>
          dsimp only
          cases graph.keeperAt? groups place with
          | none => exact induction groups graph
          | some keeper =>
              dsimp only
              rw [absorb_skip, induction]

/-- Sharing nodes takes nodes out and needs no numbers. -/
theorem mergeNodes_skip (graph : Graph) :
    graph.skip.mergeNodes = (graph.mergeNodes.1.skip, graph.mergeNodes.2) := by
  have shared : graph.skip.mergeGeometry = (graph.mergeGeometry.1.skip, graph.mergeGeometry.2) :=
    shareAccessors_skip [] _ graph
  have sampled : ∀ current : Graph,
      current.skip.mergeTextures = (current.mergeTextures.1.skip, current.mergeTextures.2) :=
    fun current => shareSamplers_skip [] _ current
  rw [mergeNodes, shared]
  dsimp only
  rw [sampled]
  rfl

/-! ## Channels -/

theorem expose_skip (graph : Graph) (accessor : NodeId) (splitters : List NodeId) :
    graph.skip.expose accessor splitters = (graph.expose accessor splitters).skip := by
  rw [expose, foldl_withoutNode_skip, addEdges_skip]
  rfl

theorem collapse?_skip (graph : Graph) (accessor : NodeId) :
    graph.skip.collapse? accessor = (graph.collapse? accessor).map skip := by
  have same : graph.skip.splitters? accessor = graph.splitters? accessor := rfl
  rw [collapse?, collapse?, same]
  cases graph.splitters? accessor with
  | none => rfl
  | some splitters =>
      dsimp only
      rw [expose_skip, apply_ite (Option.map skip)]
      rfl

theorem collapseAll_skip (accessors : List NodeId) (graph : Graph) :
    collapseAll accessors graph.skip =
      ((collapseAll accessors graph).1.skip, (collapseAll accessors graph).2) := by
  induction accessors generalizing graph with
  | nil => rfl
  | cons accessor others induction =>
      rw [collapseAll, collapseAll, collapse?_skip]
      cases graph.collapse? accessor with
      | none => exact induction graph
      | some collapsed =>
          dsimp only [Option.map_some]
          rw [induction]

theorem optimizeChannels_skip (graph : Graph) :
    graph.skip.optimizeChannels =
      (graph.optimizeChannels.1.skip, graph.optimizeChannels.2) :=
  collapseAll_skip _ graph

end NodeMaterial.Graph

/-! ## Stages -/

namespace NodeMaterial

/-- The graph that an elimination gives, unless it fails. -/
def Eliminated.result (eliminated : Eliminated) : Except Failure Graph :=
  eliminated.outcome.map fun _ => eliminated.graph

namespace Graph

/-- What an elimination gives that has taken out the reroutes, among so many nodes in all. -/
def eliminateRest (selectors parallaxes : List NodeId) (count : Nat) (graph : Graph) :
    Except Failure Graph :=
  match inlineHeights parallaxes (bypassSelectors selectors graph).1 with
  | (_, some failure) => .error failure
  | (inlined, none) => if count = 0 then .ok inlined else inlined.prune.map (·.1)

/-- An elimination takes out the reroutes first, and nothing looks back at them then. -/
theorem result_eliminate (graph : Graph) :
    graph.eliminate.result =
      eliminateRest (graph.idsOfKind (.group .replace)) (graph.idsOfKind (.group .parallax))
        ((graph.idsOfKind .reroute).length + (graph.idsOfKind (.group .replace)).length +
          (graph.idsOfKind (.group .parallax)).length)
        ((graph.idsOfKind .reroute).foldl bypassReroute graph) := by
  rw [Eliminated.result, eliminate, eliminateRest]
  dsimp only
  rcases inlineHeights _ _ with ⟨inlined, _ | failure⟩
  · dsimp only
    rw [pruneAfter.eq_def]
    split
    · rename_i nothing
      rw [if_pos nothing]
      rfl
    · rename_i something
      rw [if_neg something]
      cases inlined.prune <;> rfl
  · rfl

theorem eliminateRest_skip
    (selectors parallaxes : List NodeId) (count : Nat) (graph : Graph) :
    eliminateRest selectors parallaxes count graph.skip =
      (eliminateRest selectors parallaxes count graph).map skip := by
  rw [eliminateRest, eliminateRest, bypassSelectors_skip, inlineHeights_skip]
  rcases inlineHeights parallaxes (bypassSelectors selectors graph).1 with ⟨inlined, _ | failure⟩
  · dsimp only
    rw [apply_ite (Except.map skip), prune_skip]
    cases inlined.prune <;> rfl
  · rfl

/-- What the stages after elimination give. -/
def polish (graph : Graph) : Except Failure Graph :=
  let exposed := graph.fixLinks.mergeNodes.1.optimizeChannels.1
  exposed.validate.map fun _ => exposed

theorem polish_skip (graph : Graph) : graph.skip.polish = graph.polish.map skip := by
  have flagged : graph.skip.fixLinks = graph.fixLinks.skip := rfl
  have valid : ∀ current : Graph, current.skip.validate = current.validate := fun _ => rfl
  rw [polish, polish, flagged, mergeNodes_skip, optimizeChannels_skip, valid]
  cases graph.fixLinks.mergeNodes.1.optimizeChannels.1.validate <;> rfl

/-- What the stages from elimination on give. -/
def finish (graph : Graph) : Except Failure Graph :=
  graph.eliminate.result.bind polish

/-- What the stages from pruning on give. -/
def settle (graph : Graph) (tree : Authored.Tree) : Except Failure Graph :=
  (graph.pruneTo tree).bind fun pruned => pruned.1.finish

theorem finish_skip (graph : Graph) : graph.skip.finish = graph.finish.map skip := by
  have eliminated : graph.skip.eliminate.result = graph.eliminate.result.map skip := by
    rw [result_eliminate, result_eliminate, ← eliminateRest_skip, ← foldl_bypassReroute_skip]
    rfl
  rw [finish, finish, eliminated]
  cases graph.eliminate.result with
  | error failure => rfl
  | ok result => exact polish_skip result

/-- No stage from pruning on hands out a number, so a skipped one stays skipped. -/
theorem settle_skip (graph : Graph) (tree : Authored.Tree) :
    graph.skip.settle tree = (graph.settle tree).map skip := by
  have sameOutput : graph.skip.findOutput tree = graph.findOutput tree := rfl
  have set : ∀ output, graph.skip.setOutput output = (graph.setOutput output).skip := fun _ => rfl
  rw [settle, settle, pruneTo, pruneTo, sameOutput]
  cases graph.findOutput tree with
  | error failure => rfl
  | ok output =>
      dsimp only
      rw [set, prune_skip]
      cases (graph.setOutput output).prune with
      | error failure => rfl
      | ok pruned => exact finish_skip pruned.1

end Graph

/-- A run goes on with what its first stage gives. -/
theorem Stage.runAll_cons
    (tree : Authored.Tree) (stage : Stage) (others : List Stage) (graph : Graph)
    (context : Context) :
    (runAll tree (stage :: others) graph context).outcome.mapError (·.2) =
      (stage.run tree graph context).1.bind fun result =>
        (runAll tree others result.1 (stage.run tree graph context).2).outcome.mapError (·.2) := by
  rw [runAll]
  rcases stage.run tree graph context with ⟨outcome, next⟩
  cases outcome <;> rfl

theorem Stage.runAll_cons_ok
    {tree : Authored.Tree} {stage : Stage} {graph : Graph} {context : Context}
    {result : Graph × Nat} (ran : (stage.run tree graph context).1 = .ok result)
    (others : List Stage) :
    (runAll tree (stage :: others) graph context).outcome.mapError (·.2) =
      (runAll tree others result.1 (stage.run tree graph context).2).outcome.mapError (·.2) := by
  rw [runAll_cons, ran]
  rfl

/-- The run from elimination on, as a function of the graph. -/
theorem runAll_eq_finish (tree : Authored.Tree) (graph : Graph) (context : Context) :
    (Stage.runAll tree [.eliminate, .fixLinks, .merge, .optimizeChannels, .validate] graph
      context).outcome.mapError (·.2) = graph.finish := by
  have eliminates : (Stage.eliminate.run tree graph context).1 =
      graph.eliminate.outcome.map fun count => (graph.eliminate.graph, count) := rfl
  have flags : ∀ current next,
      (Stage.fixLinks.run tree current next).1 = .ok (current.fixLinks, 0) := fun _ _ => rfl
  have merges : ∀ current next,
      (Stage.merge.run tree current next).1 = .ok current.mergeNodes := fun _ _ => rfl
  have exposes : ∀ current next,
      (Stage.optimizeChannels.run tree current next).1 = .ok current.optimizeChannels :=
    fun _ _ => rfl
  have validates : ∀ current next, (Stage.validate.run tree current next).1 =
      current.validate.map fun _ => (current, 0) := fun _ _ => rfl
  rw [Stage.runAll_cons, eliminates, Graph.finish, Eliminated.result]
  cases graph.eliminate.outcome with
  | error failure => rfl
  | ok count =>
      dsimp only [Except.map, Except.bind]
      rw [Stage.runAll_cons_ok (flags _ _), Stage.runAll_cons_ok (merges _ _),
        Stage.runAll_cons_ok (exposes _ _), Stage.runAll_cons, validates, Graph.polish]
      cases graph.eliminate.graph.fixLinks.mergeNodes.1.optimizeChannels.1.validate <;> rfl

/-- The stages after the building of a tree, which do not need a context. -/
theorem compile_eq_settle
    {tree : Authored.Tree} {context : Context} {built : Graph}
    (builds : (Assembly.build tree context.names).1 = .ok built) :
    (tree.compile context).1 = built.completeEdges.1.settle tree := by
  have stages : (tree.compile context).1 =
      (Stage.runAll tree Stage.all .empty context).outcome.mapError (·.2) := rfl
  have first : (Stage.build.run tree .empty context).1 = .ok (built, built.nodeCount) := by
    change (Assembly.build tree context.names).1.map _ = _
    rw [builds]
    rfl
  have completes : ∀ next, (Stage.completeEdges.run tree built next).1 = .ok built.completeEdges :=
    fun _ => rfl
  rw [stages, Stage.all, Stage.runAll_cons_ok first, Stage.runAll_cons_ok (completes _),
    Stage.runAll_cons]
  simp only [runAll_eq_finish]
  rfl

end NodeMaterial
