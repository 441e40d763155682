import NodeMaterial.Pass.Elimination
import NodeMaterial.Proofs.Shifting
import NodeMaterial.Proofs.Soundness

/-!
# Elimination keeps graphs sound

Elimination takes out reroutes and replace groups, inlines height maps and prunes.
What each of these steps does is said once.  An induction principle for the whole
elimination then leaves to a property the four steps alone, on graphs whose nodes
still have the kinds that they had in the beginning; it covers eliminations that
fail half-way as well.
-/

namespace NodeMaterial.Graph

open Relation

variable {excused : Kind → Prop} {graph : Graph}

/-! ## Taking a node out -/

theorem node?_forward (graph : Graph) (id : NodeId) (feed : Option Edge) (other : NodeId) :
    (graph.forward id feed).node? other = graph.node? other := by
  cases feed with
  | none => rfl
  | some feed => exact node?_addEdges graph _ other

/-- Forwarding adds, for each edge that leaves a node, the one that starts where the node is fed. -/
theorem mem_edges_forward {id : NodeId} {feed : Option Edge} {edge : Edge} :
    edge ∈ (graph.forward id feed).edges ↔
      edge ∈ graph.edges ∨
        ∃ start ∈ feed, ∃ out ∈ graph.edges, out.source = id ∧ splice start out = edge := by
  cases feed with
  | none => simp [forward]
  | some start =>
      simp only [forward, mem_edges_addEdges, List.mem_map, mem_outEdges, Option.mem_some_iff]
      constructor
      · rintro (old | ⟨out, ⟨member, source⟩, spliced⟩)
        · exact Or.inl old
        · exact Or.inr ⟨start, rfl, out, member, source, spliced⟩
      · rintro (old | ⟨_, rfl, out, member, source, spliced⟩)
        · exact Or.inl old
        · exact Or.inr ⟨out, ⟨member, source⟩, spliced⟩

theorem node?_bypass_eq_some_iff
    {id other : NodeId} {feed : Option Edge} {node : Node} :
    (graph.bypass id feed).node? other = some node ↔
      other ≠ id ∧ graph.node? other = some node := by
  rw [bypass, node?_withoutNode_eq_some_iff, node?_forward]

theorem keepsKinds_bypass (graph : Graph) (id : NodeId) (feed : Option Edge) :
    (graph.bypass id feed).KeepsKinds graph :=
  keepsKinds_of_nodes fun _ _ found => (node?_bypass_eq_some_iff.mp found).2

/--
Bypassing keeps a graph sound, since the edges that it makes start where one started and end where
one ended.
-/
theorem Sound.bypass
    (sound : graph.Sound excused) {id : NodeId} {feed : Option Edge}
    (fed : ∀ start ∈ feed, start ∈ graph.edges)
    (strict : ∀ node, graph.node? id = some node → ¬ excused node.kind) :
    (graph.bypass id feed).Sound excused := by
  refine Sound.withoutNode ?_ id
  cases feed with
  | none => exact sound
  | some start =>
      apply sound.addEdges
      · intro edge member
        rcases List.mem_map.mp member with ⟨out, -, rfl⟩
        exact sound.starts start (fed start rfl)
      · intro edge member
        rcases List.mem_map.mp member with ⟨out, outMember, rfl⟩
        rcases mem_outEdges.mp outMember with ⟨outEdge, source⟩
        rcases sound.starts out outEdge with ⟨node, found, -⟩
        have lands := sound.lands_of_source outEdge found
          (strict node (by rwa [source] at found))
        exact Or.inr lands

/-- Bypassing makes no edge into a node without inputs. -/
theorem Unfed.bypass
    (unfed : graph.Unfed) (id : NodeId) (feed : Option Edge) :
    (graph.bypass id feed).Unfed := by
  refine Unfed.withoutNode ?_ id
  cases feed with
  | none => exact unfed
  | some start =>
      apply unfed.addEdges
      intro edge member
      rcases List.mem_map.mp member with ⟨out, outMember, rfl⟩
      exact ⟨out, (mem_outEdges.mp outMember).1, rfl⟩

theorem Closed.forward
    (closed : graph.Closed) (id : NodeId) {feed : Option Edge}
    (fed : ∀ start ∈ feed, start ∈ graph.edges) :
    (graph.forward id feed).Closed := by
  cases feed with
  | none => exact closed
  | some start =>
      apply closed.addEdges
      · intro edge member
        rcases List.mem_map.mp member with ⟨out, -, rfl⟩
        exact closed.sources start (fed start rfl)
      · intro edge member
        rcases List.mem_map.mp member with ⟨out, outMember, rfl⟩
        exact closed.targets out (mem_outEdges.mp outMember).1

theorem Closed.bypass
    (closed : graph.Closed) (id : NodeId) {feed : Option Edge}
    (fed : ∀ start ∈ feed, start ∈ graph.edges) :
    (graph.bypass id feed).Closed :=
  (closed.forward id fed).withoutNode id

/-- What becomes of an edge when a node is taken out that hands on what another edge brings. -/
def redirect (id : NodeId) (feed : Option Edge) (edge : Edge) : Option Edge :=
  if edge.target = id then none
  else if edge.source = id then feed.map (splice · edge)
  else some edge

theorem redirect_of_target {id : NodeId} {edge : Edge} (feed : Option Edge)
    (target : edge.target = id) : redirect id feed edge = none :=
  if_pos target

theorem redirect_of_source {id : NodeId} {edge : Edge} (feed : Option Edge)
    (target : edge.target ≠ id) (source : edge.source = id) :
    redirect id feed edge = feed.map (splice · edge) := by
  rw [redirect, if_neg target, if_pos source]

theorem redirect_of_away {id : NodeId} {edge : Edge} (feed : Option Edge)
    (target : edge.target ≠ id) (source : edge.source ≠ id) :
    redirect id feed edge = some edge := by
  rw [redirect, if_neg target, if_neg source]

/-- Forwarding the edges that leave a node and dropping all that touch it redirects the edges. -/
theorem redirected_perm
    {id : NodeId} {start : Edge} (away : start.source ≠ id) (edges : List Edge) :
    ((edges ++ (edges.filter (·.source == id)).map (splice start)).filter
      (!·.touches id)).Perm (edges.filterMap (redirect id (some start))) := by
  induction edges with
  | nil => exact .nil
  | cons edge others induction =>
      rw [List.filter_append] at induction ⊢
      by_cases target : edge.target = id
      · rw [List.filterMap_cons_none (redirect_of_target _ target)]
        by_cases source : edge.source = id <;>
          simpa [List.filter_cons, Edge.touches, splice, target, source] using induction
      · by_cases source : edge.source = id
        · rw [List.filterMap_cons_some (redirect_of_source _ target source)]
          refine List.Perm.trans ?_ (induction.cons _)
          simp [Edge.touches, splice, target, source, away]
        · rw [List.filterMap_cons_some (redirect_of_away _ target source)]
          simpa [List.filter_cons, Edge.touches, splice, target, source] using induction

theorem redirect_none (id : NodeId) :
    redirect id none = Option.guard fun edge => !edge.touches id := by
  funext edge
  by_cases target : edge.target = id <;> by_cases source : edge.source = id <;>
    simp [redirect, Option.guard, Edge.touches, target, source]

/-- The edges after a node has been taken out. -/
theorem Closed.edges_bypass
    (closed : graph.Closed) {id : NodeId} {feed : Option Edge}
    (fed : ∀ start ∈ feed, start ∈ graph.edges) (away : ∀ start ∈ feed, start.source ≠ id) :
    (graph.bypass id feed).edges.Perm (graph.edges.filterMap (redirect id feed)) := by
  rw [Graph.bypass, (closed.forward id fed).edges_withoutNode]
  cases feed with
  | none =>
      rw [redirect_none, List.filterMap_eq_filter]
      exact List.Perm.refl _
  | some start =>
      refine List.Perm.trans (List.Perm.filter _ (edges_addEdges graph _)) ?_
      rw [outEdges_eq_filter]
      exact redirected_perm (away start rfl) graph.edges

/-- An edge that goes around a node shortens a path through it. -/
theorem transGen_of_step_bypass
    (sources : ∀ edge ∈ graph.edges, graph.contains edge.source = true)
    {id : NodeId} {feed : Option Edge}
    (fed : ∀ start ∈ feed, start ∈ graph.edges ∧ start.target = id)
    {first second : NodeId} (step : (graph.bypass id feed).Step first second) :
    TransGen graph.Step first second := by
  rcases step with ⟨firstPresent, secondPresent, edge, member, rfl, rfl⟩
  have firstOld := (keepsKinds_bypass graph id feed).present _ firstPresent
  have secondOld := (keepsKinds_bypass graph id feed).present _ secondPresent
  rcases mem_edges_forward.mp (mem_edges_of_mem_edges_withoutNode member) with
    old | ⟨start, startFeeds, out, outMember, rfl, rfl⟩
  · exact .single ⟨firstOld, secondOld, edge, old, rfl, rfl⟩
  · rcases fed start startFeeds with ⟨startMember, startTarget⟩
    have middle : graph.contains out.source = true := sources out outMember
    have into : graph.Step start.source out.source :=
      ⟨firstOld, middle, start, startMember, rfl, startTarget⟩
    have onward : graph.Step out.source out.target :=
      ⟨middle, secondOld, out, outMember, rfl, rfl⟩
    exact .tail (.single into) onward

/-- Bypassing closes no cycle: a redirected edge stands for a path. -/
theorem Acyclic.bypass
    (acyclic : graph.Acyclic)
    (sources : ∀ edge ∈ graph.edges, graph.contains edge.source = true)
    {id : NodeId} {feed : Option Edge}
    (fed : ∀ start ∈ feed, start ∈ graph.edges ∧ start.target = id) :
    (graph.bypass id feed).Acyclic :=
  acyclic.of_shortcuts fun _ _ step => transGen_of_step_bypass sources fed step

theorem head?_inEdges_fed {id : NodeId} :
    ∀ start ∈ (graph.inEdges id).head?, start ∈ graph.edges ∧ start.target = id := by
  intro start startFirst
  exact mem_inEdges.mp (List.mem_of_mem_head? startFirst)

theorem feed?_fed {id : NodeId} {inSocket : Nat} :
    ∀ start ∈ graph.feed? id inSocket, start ∈ graph.edges ∧ start.target = id := by
  intro start startFound
  exact mem_inEdges.mp (List.mem_of_find?_eq_some startFound)

/-! ## Inlining a height map -/

theorem keepsKinds_plugTexture (graph : Graph) (id : NodeId) (texture : Node) :
    (graph.plugTexture id texture).KeepsKinds graph := by
  have changed : ((graph.modifyNode id (takeTexture texture)).unplugHeight texture.id
      id).KeepsKinds graph := by
    rw [unplugHeight_eq]
    exact keepsKinds_modifyNode graph id fun _ => rfl
  rw [plugTexture, removeIfUnread]
  split
  · exact (keepsKinds_withoutNode _ _).trans changed
  · exact changed

/-- Plugging a texture in removes edges only. -/
theorem mem_edges_of_mem_edges_plugTexture
    {id : NodeId} {texture : Node} {edge : Edge}
    (member : edge ∈ (graph.plugTexture id texture).edges) : edge ∈ graph.edges := by
  have unplugged : edge ∈
      ((graph.modifyNode id (takeTexture texture)).unplugHeight texture.id id).edges := by
    rw [plugTexture, removeIfUnread] at member
    split at member
    · exact mem_edges_of_mem_edges_withoutNode member
    · exact member
  rw [unplugHeight_eq, edges_filterEdges, edges_modifyNode] at unplugged
  exact (List.mem_filter.mp unplugged).1

/-- A texture that is plugged in takes edges away, and the graph stays sound. -/
theorem Sound.plugTexture
    (sound : graph.Sound excused) (id : NodeId) (texture : Node) :
    (graph.plugTexture id texture).Sound excused := by
  have changed : (graph.modifyNode id (takeTexture texture)).Sound excused := by
    apply sound.mapNodes
    · intro node
      split <;> rfl
    · intro node
      split <;> rfl
    · intro node
      split <;> rfl
  rw [Graph.plugTexture, removeIfUnread, unplugHeight_eq]
  split
  · exact (changed.filterEdges _).withoutNode _
  · exact changed.filterEdges _

theorem Closed.plugTexture (closed : graph.Closed) (id : NodeId) (texture : Node) :
    (graph.plugTexture id texture).Closed := by
  have unplugged : ((graph.modifyNode id (takeTexture texture)).unplugHeight texture.id
      id).Closed := by
    rw [unplugHeight_eq]
    exact (closed.mapNodes _).filterEdges _
  rw [Graph.plugTexture, removeIfUnread]
  split
  · exact unplugged.withoutNode texture.id
  · exact unplugged

/-- A node without a second input is left alone; any other loses it. -/
theorem dropSecondInput_cases (graph : Graph) (id : NodeId) :
    graph.dropSecondInput id = graph ∨
      ∃ node, graph.node? id = some node ∧ 2 ≤ node.inputs.length ∧
        graph.dropSecondInput id =
          ((graph.unplugLater id).modifyNode id withoutSecondInput).addEdges
            (graph.shiftedEdges id) := by
  cases found : graph.node? id with
  | none =>
      rw [dropSecondInput, found]
      exact Or.inl rfl
  | some node =>
      by_cases several : 2 ≤ node.inputs.length
      · exact Or.inr ⟨node, rfl, several, dropSecondInput_eq found several⟩
      · rw [dropSecondInput, found]
        exact Or.inl (if_pos (Nat.lt_of_not_le several))

theorem mem_shiftedEdges {id : NodeId} {edge : Edge} :
    edge ∈ graph.shiftedEdges id ↔
      ∃ old ∈ graph.edges, old.target = id ∧ 1 < old.inSocket ∧ shiftDown old = edge := by
  simp [shiftedEdges, and_assoc]

theorem keepsKinds_dropSecondInput (graph : Graph) (id : NodeId) :
    (graph.dropSecondInput id).KeepsKinds graph := by
  rcases dropSecondInput_cases graph id with same | ⟨node, found, several, dropped⟩
  · rw [same]
    exact KeepsKinds.refl graph
  · rw [dropped]
    refine (keepsKinds_addEdges _ _).trans ?_
    exact keepsKinds_modifyNode (graph.unplugLater id) id fun _ => rfl

/-- The edges of a node that has lost its second input run as edges did before. -/
theorem parallel_dropSecondInput
    {id : NodeId} {edge : Edge} (member : edge ∈ (graph.dropSecondInput id).edges) :
    ∃ old ∈ graph.edges, old.source = edge.source ∧ old.target = edge.target := by
  rcases dropSecondInput_cases graph id with same | ⟨node, found, several, dropped⟩
  · rw [same] at member
    exact ⟨edge, member, rfl, rfl⟩
  · rw [dropped] at member
    rcases mem_edges_addEdges.mp member with kept | shifted
    · rw [edges_modifyNode, unplugLater, edges_filterEdges] at kept
      exact ⟨edge, (List.mem_filter.mp kept).1, rfl, rfl⟩
    · rcases mem_shiftedEdges.mp shifted with ⟨old, oldMember, -, -, rfl⟩
      exact ⟨old, oldMember, rfl, rfl⟩

/-- First the edges into later inputs go, and then the second input. -/
theorem Sound.withoutSecondInput
    (sound : graph.Sound excused) {id : NodeId} {node : Node}
    (found : graph.node? id = some node) (several : 2 ≤ node.inputs.length)
    (kind : node.kind = .group .parallax) :
    ((graph.unplugLater id).modifyNode id withoutSecondInput).Sound excused := by
  have cleared : (graph.unplugLater id).Sound excused := sound.filterEdges _
  apply cleared.modifyNode found
  · rintro edge member rfl
    have inRange := (cleared.starts edge member).outSocket_lt found
    exact inRange
  · intro edge member target
    rw [unplugLater, edges_filterEdges, List.mem_filter] at member
    have first : edge.inSocket < 1 := by simpa [target] using member.2
    have shorter := List.length_eraseIdx_of_lt (l := node.inputs) (i := 1) (by lia)
    right
    show edge.inSocket < (node.inputs.eraseIdx 1).length
    lia
  · exact fun excuse => excuse
  · constructor
    · simp [Graph.withoutSecondInput, isGeometry, kind]
    · simp [Graph.withoutSecondInput, kind, Kind.isTexture]

/-- With its second input a parallax node loses the edges into it, and the others move along. -/
theorem Sound.dropSecondInput
    (sound : graph.Sound excused) {id : NodeId}
    (kind : ∀ node, graph.node? id = some node → node.kind = .group .parallax) :
    (graph.dropSecondInput id).Sound excused := by
  rcases dropSecondInput_cases graph id with same | ⟨node, found, several, dropped⟩
  · rwa [same]
  · rw [dropped]
    apply (sound.withoutSecondInput found several (kind node found)).addEdges
    · intro edge member
      rcases mem_shiftedEdges.mp member with ⟨old, oldMember, -, -, rfl⟩
      have starts : (graph.unplugLater id).Starts old := sound.starts old oldMember
      exact starts.modifyNode id fun _ => le_refl _
    · intro edge member
      rcases mem_shiftedEdges.mp member with ⟨old, oldMember, rfl, behind, rfl⟩
      rcases sound.lands old oldMember with excuse | lands
      · have cleared : (graph.unplugLater old.target).Excused excused old := excuse
        exact Or.inl (cleared.modifyNode old.target fun _ => rfl)
      · have inRange := lands.inSocket_lt found
        have shorter := List.length_eraseIdx_of_lt (l := node.inputs) (i := 1) (by lia)
        refine Or.inr ⟨_, node?_modifyNode_self _ found, ?_⟩
        show old.inSocket - 1 < (node.inputs.eraseIdx 1).length
        lia

theorem Closed.dropSecondInput (closed : graph.Closed) (id : NodeId) :
    (graph.dropSecondInput id).Closed := by
  rcases dropSecondInput_cases graph id with same | ⟨node, found, several, dropped⟩
  · rw [same]
    exact closed
  · rw [dropped]
    have without : ((graph.unplugLater id).modifyNode id Graph.withoutSecondInput).Closed :=
      (closed.filterEdges _).mapNodes _
    apply without.addEdges
    · intro edge member
      rcases mem_shiftedEdges.mp member with ⟨old, oldMember, -, -, rfl⟩
      rw [contains_modifyNode]
      exact closed.sources old oldMember
    · intro edge member
      rcases mem_shiftedEdges.mp member with ⟨old, oldMember, -, -, rfl⟩
      rw [contains_modifyNode]
      exact closed.targets old oldMember

/-! ## The whole elimination -/

/-- A height map is plugged in where there is one, and the second input goes in any case. -/
theorem inlineHeight_cases
    {id : NodeId} {result : Graph} (inlined : graph.inlineHeight id = (result, none)) :
    result = graph.dropSecondInput id ∨
      ∃ feed texture, graph.feed? id 1 = some feed ∧
        graph.textureAt? feed.source = some texture ∧
        result = (graph.plugTexture id texture).dropSecondInput id := by
  rw [inlineHeight] at inlined
  split at inlined
  · exact Or.inl (congrArg Prod.fst inlined).symm
  · rename_i feed fed
    split at inlined
    · rename_i texture isTexture
      exact Or.inr ⟨feed, texture, fed, isTexture, (congrArg Prod.fst inlined).symm⟩
    · cases inlined

/-- An inlining that fails leaves the graph as it was. -/
theorem inlineHeight_failed
    {id : NodeId} {result : Graph} {failure : Failure}
    (failed : graph.inlineHeight id = (result, some failure)) :
    result = graph := by
  rw [inlineHeight] at failed
  split at failed
  · cases failed
  · split at failed
    · cases failed
    · exact (congrArg Prod.fst failed).symm

/-- Pruning keeps what the output depends on. -/
theorem prune_eq
    {pruned : Graph} {count : Nat} (done : graph.prune = .ok (pruned, count)) :
    ∃ output, graph.output = some output ∧
      pruned = graph.retain (graph.ancestors output) := by
  rw [prune] at done
  split at done
  · cases done
  · rename_i output isOutput
    exact ⟨output, isOutput, (congrArg Prod.fst (Except.ok.inj done)).symm⟩

theorem keepsKinds_inlineHeight
    {id : NodeId} {result : Graph} (inlined : graph.inlineHeight id = (result, none)) :
    result.KeepsKinds graph := by
  rcases inlineHeight_cases inlined with rfl | ⟨_, texture, -, -, rfl⟩
  · exact keepsKinds_dropSecondInput graph id
  · exact (keepsKinds_dropSecondInput _ id).trans (keepsKinds_plugTexture graph id texture)

/-- The edges after an inlining run as edges did before. -/
theorem parallel_inlineHeight
    {id : NodeId} {result : Graph} {edge : Edge}
    (inlined : graph.inlineHeight id = (result, none)) (member : edge ∈ result.edges) :
    ∃ old ∈ graph.edges, old.source = edge.source ∧ old.target = edge.target := by
  rcases inlineHeight_cases inlined with rfl | ⟨_, texture, -, -, rfl⟩
  · exact parallel_dropSecondInput member
  · rcases parallel_dropSecondInput member with ⟨middle, middleMember, source, target⟩
    exact ⟨middle, mem_edges_of_mem_edges_plugTexture middleMember, source, target⟩

/-- Inlining a height map keeps a graph sound. -/
theorem Sound.inlineHeight
    (sound : graph.Sound excused) {id : NodeId} {result : Graph}
    (kind : ∀ node, graph.node? id = some node → node.kind = .group .parallax)
    (inlined : graph.inlineHeight id = (result, none)) :
    result.Sound excused := by
  rcases inlineHeight_cases inlined with rfl | ⟨_, texture, -, -, rfl⟩
  · exact sound.dropSecondInput kind
  · apply (sound.plugTexture id texture).dropSecondInput
    intro node found
    rcases keepsKinds_plugTexture graph id texture id node found with ⟨old, oldFound, sameKind⟩
    rw [← sameKind]
    exact kind old oldFound

theorem Closed.inlineHeight
    (closed : graph.Closed) {id : NodeId} {result : Graph}
    (inlined : graph.inlineHeight id = (result, none)) :
    result.Closed := by
  rcases inlineHeight_cases inlined with rfl | ⟨_, texture, -, -, rfl⟩
  · exact closed.dropSecondInput id
  · exact (closed.plugTexture id texture).dropSecondInput id

/-- All nodes of a kind that are listed have that kind, as long as they are there. -/
theorem kind_of_mem_idsOfKind
    {current : Graph} (kinds : current.KeepsKinds graph) {kind : Kind} {id : NodeId}
    (listed : id ∈ graph.idsOfKind kind) :
    ∀ node, current.node? id = some node → node.kind = kind := by
  intro node found
  rcases kinds id node found with ⟨old, oldFound, sameKind⟩
  rcases List.mem_map.mp listed with ⟨member, memberListed, rfl⟩
  rcases List.mem_filter.mp memberListed with ⟨present, memberKind⟩
  have same : member = old :=
    Option.some.inj ((node?_of_mem present).symm.trans oldFound)
  rw [← sameKind, ← same]
  simpa using memberKind

/-- The graph that an elimination has rewired, before it is pruned. -/
def rewired (graph : Graph) : Graph :=
  (inlineHeights (graph.idsOfKind (.group .parallax))
    (bypassSelectors (graph.idsOfKind (.group .replace))
      ((graph.idsOfKind .reroute).foldl bypassReroute graph)).1).1

/-- An elimination that has something to do prunes in the end, unless it fails. -/
theorem eliminate_cases (graph : Graph) :
    (graph.eliminate.graph = graph.rewired ∧
      ∀ count, graph.eliminate.outcome = .ok count → graph.rewired = graph) ∨
    ∃ count, graph.rewired.prune = .ok (graph.eliminate.graph, count) := by
  simp only [eliminate]
  split
  · rename_i inlined failure failed
    refine Or.inl ⟨?_, nofun⟩
    rw [rewired, failed]
  · rename_i inlined succeeded
    have rewiredIs : graph.rewired = inlined := by rw [rewired, succeeded]
    rw [pruneAfter.eq_def]
    split
    · rename_i nothing
      refine Or.inl ⟨rewiredIs.symm, fun _ _ => ?_⟩
      simp only [Nat.add_eq_zero_iff, List.length_eq_zero_iff] at nothing
      rw [rewired, nothing.2, nothing.1.1, nothing.1.2]
      rfl
    · rw [rewiredIs]
      split
      · rename_i pruned count done
        exact Or.inr ⟨count, done⟩
      · exact Or.inl ⟨rfl, nofun⟩

theorem fst_bypassSelectors (ids : List NodeId) (graph : Graph) :
    (bypassSelectors ids graph).1 = ids.foldl bypassSelector graph := by
  induction ids generalizing graph with
  | nil => rfl
  | cons id others induction => exact induction (graph.bypassSelector id)

/-- Steps at nodes of one kind, none of which changes the kind of a node. -/
theorem foldl_idsOfKind_induction
    (Kept : Graph → Prop) {kind : Kind} (step : Graph → NodeId → Graph)
    (kinds : ∀ current id, (step current id).KeepsKinds current)
    (kept : ∀ current id, (∀ node, current.node? id = some node → node.kind = kind) →
      Kept current → Kept (step current id))
    {ids : List NodeId} {current : Graph} (listed : ids ⊆ graph.idsOfKind kind)
    (start : current.KeepsKinds graph ∧ Kept current) :
    (ids.foldl step current).KeepsKinds graph ∧ Kept (ids.foldl step current) := by
  induction ids generalizing current with
  | nil => exact start
  | cons id others induction =>
      rcases start with ⟨currentKinds, currentKept⟩
      rcases List.cons_subset.mp listed with ⟨idListed, othersListed⟩
      apply induction othersListed
      constructor
      · exact (kinds current id).trans currentKinds
      · exact kept current id (kind_of_mem_idsOfKind currentKinds idListed) currentKept

/-- What every inlining keeps, inlining all height maps keeps, also if one fails. -/
theorem inlineHeights_induction
    (Kept : Graph → Prop)
    (parallax : ∀ current id result,
      (∀ node, current.node? id = some node → node.kind = .group .parallax) →
      current.inlineHeight id = (result, none) → Kept current → Kept result)
    {ids : List NodeId} {current : Graph} (listed : ids ⊆ graph.idsOfKind (.group .parallax))
    (start : current.KeepsKinds graph ∧ Kept current) :
    Kept (inlineHeights ids current).1 := by
  induction ids generalizing current with
  | nil => exact start.2
  | cons id others induction =>
      rcases start with ⟨kinds, kept⟩
      rcases List.cons_subset.mp listed with ⟨idListed, othersListed⟩
      rw [inlineHeights]
      split
      · rename_i result inlined
        apply induction othersListed
        constructor
        · exact (keepsKinds_inlineHeight inlined).trans kinds
        · exact parallax current id result (kind_of_mem_idsOfKind kinds idListed) inlined kept
      · rename_i failed
        rw [inlineHeight_failed failed]
        exact kept

/--
What holds of a graph and is kept by the steps of an elimination holds of the graph
that it rewires, whether it succeeds or not.
-/
theorem rewired_induction
    (Kept : Graph → Prop) (start : Kept graph)
    (reroute : ∀ current id,
      (∀ node, current.node? id = some node → node.kind = .reroute) →
      Kept current → Kept (current.bypassReroute id))
    (selector : ∀ current id,
      (∀ node, current.node? id = some node → node.kind = .group .replace) →
      Kept current → Kept (current.bypassSelector id))
    (parallax : ∀ current id result,
      (∀ node, current.node? id = some node → node.kind = .group .parallax) →
      current.inlineHeight id = (result, none) → Kept current → Kept result) :
    Kept graph.rewired := by
  have rerouted := foldl_idsOfKind_induction Kept bypassReroute
    (fun _ _ => keepsKinds_bypass _ _ _) reroute (List.Subset.refl _)
    ⟨KeepsKinds.refl graph, start⟩
  have selected := foldl_idsOfKind_induction Kept bypassSelector
    (fun _ _ => keepsKinds_bypass _ _ _) selector (List.Subset.refl _) rerouted
  rw [← fst_bypassSelectors] at selected
  exact inlineHeights_induction Kept parallax (List.Subset.refl _) selected

/-- What every step of the elimination keeps, the elimination keeps. -/
theorem eliminate_induction
    (Kept : Graph → Prop) (start : Kept graph)
    (reroute : ∀ current id,
      (∀ node, current.node? id = some node → node.kind = .reroute) →
      Kept current → Kept (current.bypassReroute id))
    (selector : ∀ current id,
      (∀ node, current.node? id = some node → node.kind = .group .replace) →
      Kept current → Kept (current.bypassSelector id))
    (parallax : ∀ current id result,
      (∀ node, current.node? id = some node → node.kind = .group .parallax) →
      current.inlineHeight id = (result, none) → Kept current → Kept result)
    (pruning : ∀ current pruned count,
      current.prune = .ok (pruned, count) → Kept current → Kept pruned) :
    Kept graph.eliminate.graph := by
  have kept : Kept graph.rewired := rewired_induction Kept start reroute selector parallax
  rcases eliminate_cases graph with ⟨unpruned, -⟩ | ⟨count, pruned⟩
  · rw [unpruned]
    exact kept
  · exact pruning graph.rewired graph.eliminate.graph count pruned kept

theorem Unfed.eliminate (unfed : graph.Unfed) : graph.eliminate.graph.Unfed := by
  apply eliminate_induction Unfed unfed
  · intro current id _ kept
    exact kept.bypass id _
  · intro current id _ kept
    exact kept.bypass id _
  · intro current id result _ inlined kept
    apply kept.of_targets (keepsKinds_inlineHeight inlined)
    intro edge member
    rcases parallel_inlineHeight inlined member with ⟨old, oldMember, -, target⟩
    exact ⟨old, oldMember, target⟩
  · intro current pruned count done kept
    rcases prune_eq done with ⟨output, -, rfl⟩
    exact kept.retain _

/-- Elimination keeps sound graphs without cycles sound and without cycles. -/
theorem Sound.eliminate
    (strict : ∀ kind, kind.handsOn = true → ¬ excused kind)
    (sound : graph.Sound excused) (acyclic : graph.Acyclic) :
    graph.eliminate.graph.Sound excused ∧ graph.eliminate.graph.Acyclic := by
  apply eliminate_induction fun current => current.Sound excused ∧ current.Acyclic
  · exact ⟨sound, acyclic⟩
  · rintro current id kind ⟨sound, acyclic⟩
    constructor
    · apply sound.bypass
      · exact fun start starts => (head?_inEdges_fed start starts).1
      · intro node found
        rw [kind node found]
        exact strict .reroute rfl
    · exact acyclic.bypass (fun _ => sound.source_present) head?_inEdges_fed
  · rintro current id kind ⟨sound, acyclic⟩
    constructor
    · apply sound.bypass
      · exact fun start starts => (feed?_fed start starts).1
      · intro node found
        rw [kind node found]
        exact strict (.group .replace) rfl
    · exact acyclic.bypass (fun _ => sound.source_present) feed?_fed
  · rintro current id result kind inlined ⟨sound, acyclic⟩
    refine ⟨sound.inlineHeight kind inlined, ?_⟩
    apply acyclic.of_parallel (keepsKinds_inlineHeight inlined).present
    intro edge member
    exact parallel_inlineHeight inlined member
  · rintro current pruned count done ⟨sound, acyclic⟩
    rcases prune_eq done with ⟨output, -, rfl⟩
    exact ⟨sound.retain _, acyclic.retain _⟩

end NodeMaterial.Graph
