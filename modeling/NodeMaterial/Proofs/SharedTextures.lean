import NodeMaterial.Proofs.SharedGeometry

/-!
# Sharing texture samplers keeps graphs sound

One sampler after the other becomes a lane of the keeper of a group.  The lane's
sockets follow those of the lanes before it, so every edge of the sampler finds its
socket again at the keeper.  No path connects the two, so making them one closes no
cycle.
-/

namespace NodeMaterial.Graph

variable {excused : Kind → Prop} {graph : Graph}

/-- A sampler of a graph can become a lane of another one. -/
structure Joins (graph : Graph) (keeper candidate : Node) : Prop where
  found : graph.node? candidate.id = some candidate
  keeperFound : graph.node? keeper.id = some keeper
  same : sameTexture candidate keeper = true
  apart : ¬ graph.Reaches keeper.id candidate.id
  apart' : ¬ graph.Reaches candidate.id keeper.id

/-- Samplers that can be joined sample alike, and the one that joins has one lane. -/
theorem kinds_of_sameTexture
    {candidate keeper : Node} (same : sameTexture candidate keeper = true) :
    ∃ sampler lanes,
      candidate.kind = .texture sampler 1 ∧ keeper.kind = .texture sampler lanes ∧
        candidate.key? = keeper.key? := by
  simp only [sameTexture] at same
  split at same
  · rename_i sampler keeperSampler lanes candidateKind keeperKind
    simp only [Bool.and_eq_true, beq_iff_eq] at same
    rcases same with ⟨⟨⟨rfl, -⟩, -⟩, sameKey⟩
    exact ⟨sampler, lanes, candidateKind, keeperKind, sameKey⟩
  · exact absurd same Bool.false_ne_true

section Joining

variable {keeper candidate : Node}

theorem Joins.different (joins : graph.Joins keeper candidate) :
    keeper.id ≠ candidate.id := by
  intro equal
  apply joins.apart
  rw [equal]
  exact Relation.ReflTransGen.refl

theorem Joins.isTexture (joins : graph.Joins keeper candidate) :
    keeper.kind.isTexture = true ∧ candidate.kind.isTexture = true := by
  rcases kinds_of_sameTexture joins.same with ⟨sampler, lanes, candidateKind, keeperKind, -⟩
  simp [Kind.isTexture, candidateKind, keeperKind]

theorem Joins.handsOn (joins : graph.Joins keeper candidate) :
    keeper.kind.handsOn = true ∧ candidate.kind.handsOn = true := by
  rcases kinds_of_sameTexture joins.same with ⟨sampler, lanes, candidateKind, keeperKind, -⟩
  simp [Kind.handsOn, candidateKind, keeperKind]

theorem Joins.laneCount_candidate (joins : graph.Joins keeper candidate) :
    laneCount candidate = 1 := by
  rcases kinds_of_sameTexture joins.same with ⟨sampler, lanes, candidateKind, -, -⟩
  simp [laneCount, candidateKind]

theorem Joins.laneCount_widen (joins : graph.Joins keeper candidate) :
    laneCount (widen candidate keeper) = laneCount keeper + 1 := by
  rcases kinds_of_sameTexture joins.same with ⟨sampler, lanes, -, keeperKind, -⟩
  simp [laneCount, widen, keeperKind, addLane]

theorem Joins.isTexture_widen (joins : graph.Joins keeper candidate) :
    (widen candidate keeper).kind.isTexture = true := by
  rcases kinds_of_sameTexture joins.same with ⟨sampler, lanes, -, keeperKind, -⟩
  simp [widen, keeperKind, addLane, Kind.isTexture]

theorem length_appendLane (lanes : Nat) (sockets added : List Socket) :
    (appendLane lanes sockets added).length = sockets.length + added.length := by
  rw [appendLane]
  split <;> simp

/-- The widened sampler has the sockets that its lanes ask for. -/
theorem Joins.shaped_widen
    (joins : graph.Joins keeper candidate)
    (shaped : candidate.Shaped) (keeperShaped : keeper.Shaped) :
    (widen candidate keeper).Shaped := by
  have oneLane := shaped.texture joins.isTexture.2
  have lanes := keeperShaped.texture joins.isTexture.1
  rw [joins.laneCount_candidate] at oneLane
  constructor
  · intro geometry
    rw [isGeometry_eq_false_of_isTexture joins.isTexture_widen] at geometry
    exact absurd geometry Bool.false_ne_true
  · intro _
    rw [joins.laneCount_widen]
    simp only [Graph.widen, length_appendLane]
    omega

/-! ## What absorbing a sampler does -/

theorem node?_takeSockets_of_ne
    {id : NodeId} (notCandidate : id ≠ candidate.id) (notKeeper : id ≠ keeper.id) :
    (graph.takeSockets keeper candidate).node? id = graph.node? id := by
  rw [takeSockets, node?_modifyNode_of_ne _ _ notKeeper, node?_withoutNode_of_ne _ notCandidate]

theorem node?_takeSockets_keeper (joins : graph.Joins keeper candidate) :
    (graph.takeSockets keeper candidate).node? keeper.id = some (widen candidate keeper) := by
  have remains : (graph.withoutNode candidate.id).node? keeper.id = some keeper := by
    rw [node?_withoutNode_of_ne _ joins.different, joins.keeperFound]
  rw [takeSockets, node?_modifyNode_self _ remains]
  rfl

theorem node?_absorb (id : NodeId) :
    (graph.absorb keeper candidate).node? id =
      (graph.takeSockets keeper candidate).node? id := by
  rw [absorb, node?_addEdges, node?_addEdges]

theorem node?_absorb_keeper (joins : graph.Joins keeper candidate) :
    (graph.absorb keeper candidate).node? keeper.id = some (widen candidate keeper) := by
  rw [node?_absorb, node?_takeSockets_keeper joins]

theorem contains_absorb {id : NodeId} :
    (graph.absorb keeper candidate).contains id = true ↔
      id ≠ candidate.id ∧ graph.contains id = true := by
  rw [absorb, contains_addEdges, contains_addEdges, takeSockets, contains_modifyNode,
    contains_withoutNode]

theorem output_absorb
    {output : NodeId} (isOutput : graph.output = some output) (away : output ≠ candidate.id) :
    (graph.absorb keeper candidate).output = some output := by
  rw [absorb, output_addEdges, output_addEdges]
  refine (output_withoutNode_of_ne ?_).trans isOutput
  rw [isOutput]
  exact fun same => away (Option.some.inj same)

/-- Every edge is an old one that does not touch the sampler, or one that is moved. -/
theorem mem_edges_absorb {edge : Edge} (present : graph.contains candidate.id = true) :
    edge ∈ (graph.absorb keeper candidate).edges ↔
      (edge ∈ graph.edges ∧ edge.source ≠ candidate.id ∧ edge.target ≠ candidate.id) ∨
      (∃ old ∈ graph.edges,
        old.target = candidate.id ∧ enterLane keeper candidate old = edge) ∨
      (∃ old ∈ graph.edges,
        old.source = candidate.id ∧ leaveLane keeper candidate old = edge) := by
  rw [absorb, mem_edges_addEdges, mem_edges_addEdges, takeSockets, edges_modifyNode,
    mem_edges_withoutNode present]
  simp only [List.mem_map, mem_inEdges, mem_outEdges, and_assoc, or_assoc]

/-! ## Edges away from the sampler keep their sockets -/

theorem length_inputs_widen (added node : Node) :
    (widen added node).inputs.length = node.inputs.length + added.inputs.length :=
  length_appendLane ..

theorem length_outputs_widen (added node : Node) :
    (widen added node).outputs.length = node.outputs.length + added.outputs.length :=
  length_appendLane ..

theorem Starts.takeSockets
    {edge : Edge} (starts : graph.Starts edge) (away : edge.source ≠ candidate.id) :
    (graph.takeSockets keeper candidate).Starts edge := by
  rcases starts with ⟨node, found, inRange⟩
  have remains : (graph.withoutNode candidate.id).Starts edge :=
    ⟨node, (node?_withoutNode_of_ne _ away).trans found, inRange⟩
  apply remains.modifyNode keeper.id
  intro node
  rw [length_outputs_widen]
  exact Nat.le_add_right _ _

theorem Lands.takeSockets
    {edge : Edge} (lands : graph.Lands edge) (away : edge.target ≠ candidate.id) :
    (graph.takeSockets keeper candidate).Lands edge := by
  rcases lands with ⟨node, found, inRange⟩
  have remains : (graph.withoutNode candidate.id).Lands edge :=
    ⟨node, (node?_withoutNode_of_ne _ away).trans found, inRange⟩
  apply remains.modifyNode keeper.id
  intro node
  rw [length_inputs_widen]
  exact Nat.le_add_right _ _

theorem Excused.takeSockets
    {edge : Edge} (excuse : graph.Excused excused edge)
    (joins : graph.Joins keeper candidate)
    (strict : ∀ kind : Kind, kind.handsOn = true → ¬ excused kind) :
    (graph.takeSockets keeper candidate).Excused excused edge := by
  rcases excuse with ⟨node, found, nodeExcused⟩
  have notHandsOn : ∀ other : Node, graph.node? other.id = some other →
      other.kind.handsOn = true → edge.source ≠ other.id := by
    intro other otherFound handsOn equal
    rw [equal, otherFound] at found
    exact strict _ handsOn (Option.some.inj found ▸ nodeExcused)
  refine ⟨node, ?_, nodeExcused⟩
  rw [node?_takeSockets_of_ne, found]
  · exact notHandsOn candidate joins.found joins.handsOn.2
  · exact notHandsOn keeper joins.keeperFound joins.handsOn.1

/-! ## Absorbing a sampler keeps a graph sound -/

theorem Sound.takeSockets
    (sound : graph.Sound excused) (joins : graph.Joins keeper candidate)
    (strict : ∀ kind : Kind, kind.handsOn = true → ¬ excused kind) :
    (graph.takeSockets keeper candidate).Sound excused := by
  have removed := sound.withoutNode candidate.id
  have remains : (graph.withoutNode candidate.id).node? keeper.id = some keeper := by
    rw [node?_withoutNode_of_ne _ joins.different, joins.keeperFound]
  apply removed.modifyNode remains
  · intro edge member source
    have inRange := (removed.starts edge member).outSocket_lt (by rwa [source])
    rw [length_outputs_widen]
    omega
  · intro edge member target
    refine (removed.lands edge member).imp_right fun lands => ?_
    have inRange := lands.inSocket_lt (by rwa [target])
    rw [length_inputs_widen]
    omega
  · intro keeperExcused
    exact absurd keeperExcused (strict _ joins.handsOn.1)
  · exact joins.shaped_widen (sound.shaped _ _ joins.found)
      (sound.shaped _ _ joins.keeperFound)

/-- Edges of the sampler that joins end at sockets of its lane. -/
theorem Sound.absorb
    (sound : graph.Sound excused) (acyclic : graph.Acyclic)
    (joins : graph.Joins keeper candidate)
    (strict : ∀ kind : Kind, kind.handsOn = true → ¬ excused kind) :
    (graph.absorb keeper candidate).Sound excused := by
  have oneLane := (sound.shaped _ _ joins.found).texture joins.isTexture.2
  have lanes := (sound.shaped _ _ joins.keeperFound).texture joins.isTexture.1
  rw [joins.laneCount_candidate] at oneLane
  have widened := node?_takeSockets_keeper joins
  have entered : ((graph.takeSockets keeper candidate).addEdges
      ((graph.inEdges candidate.id).map (enterLane keeper candidate))).Sound excused := by
    apply (sound.takeSockets joins strict).addEdges
    · intro edge member
      rcases List.mem_map.mp member with ⟨old, oldMember, rfl⟩
      rcases mem_inEdges.mp oldMember with ⟨oldEdge, target⟩
      have away := acyclic.source_ne_target oldEdge (sound.source_present oldEdge)
      exact (sound.starts old oldEdge).takeSockets (target ▸ away)
    · intro edge member
      rcases List.mem_map.mp member with ⟨old, oldMember, rfl⟩
      rcases mem_inEdges.mp oldMember with ⟨oldEdge, target⟩
      rcases sound.lands old oldEdge with excuse | lands
      · exact Or.inl (excuse.takeSockets joins strict)
      · have inRange := lands.inSocket_lt (target ▸ joins.found)
        refine Or.inr ⟨_, widened, ?_⟩
        simp only [enterLane, length_inputs_widen]
        lia
  apply entered.addEdges
  · intro edge member
    rcases List.mem_map.mp member with ⟨old, oldMember, rfl⟩
    rcases mem_outEdges.mp oldMember with ⟨oldEdge, source⟩
    have inRange := (sound.starts old oldEdge).outSocket_lt (source ▸ joins.found)
    refine ⟨_, (node?_addEdges ..).trans widened, ?_⟩
    simp only [leaveLane, length_outputs_widen]
    lia
  · intro edge member
    rcases List.mem_map.mp member with ⟨old, oldMember, rfl⟩
    rcases mem_outEdges.mp oldMember with ⟨oldEdge, source⟩
    have away := acyclic.source_ne_target oldEdge (sound.source_present oldEdge)
    have lands := sound.lands_of_source oldEdge (source ▸ joins.found)
      (strict _ joins.handsOn.2)
    have landsStill : (graph.takeSockets keeper candidate).Lands old :=
      lands.takeSockets (source ▸ away.symm)
    refine Or.inr ?_
    simpa only [Lands, leaveLane, node?_addEdges] using landsStill

theorem Unfed.absorb
    (unfed : graph.Unfed) (joins : graph.Joins keeper candidate) :
    (graph.absorb keeper candidate).Unfed := by
  have present := contains_of_node? joins.found
  intro edge member node found
  by_cases atKeeper : edge.target = keeper.id
  · rw [atKeeper, node?_absorb, node?_takeSockets_keeper joins] at found
    rw [← Option.some.inj found]
    exact isGeometry_eq_false_of_isTexture joins.isTexture_widen
  · have elsewhere : ∃ old ∈ graph.edges, old.target = edge.target := by
      rcases (mem_edges_absorb present).mp member with
        ⟨old, -, -⟩ | ⟨old, -, -, rfl⟩ | ⟨old, oldMember, -, rfl⟩
      · exact ⟨edge, old, rfl⟩
      · exact absurd rfl atKeeper
      · exact ⟨old, oldMember, rfl⟩
    rcases elsewhere with ⟨old, oldMember, target⟩
    have away := (contains_absorb.mp (contains_of_node? found)).1
    rw [node?_absorb, node?_takeSockets_of_ne away atKeeper, ← target] at found
    exact unfed old oldMember node found

/-- Samplers are joined only if no path connects them, so no cycle closes. -/
theorem Acyclic.absorb
    (acyclic : graph.Acyclic) (joins : graph.Joins keeper candidate) :
    (graph.absorb keeper candidate).Acyclic := by
  have present := contains_of_node? joins.found
  apply acyclic.of_identify joins.apart joins.apart'
  rintro first second ⟨firstPresent, secondPresent, edge, member, rfl, rfl⟩
  rcases contains_absorb.mp firstPresent with ⟨firstAway, firstOld⟩
  rcases contains_absorb.mp secondPresent with ⟨secondAway, secondOld⟩
  rcases (mem_edges_absorb present).mp member with
    ⟨old, -, -⟩ | ⟨old, oldMember, target, rfl⟩ | ⟨old, oldMember, source, rfl⟩
  · refine ⟨edge.source, edge.target, ⟨firstOld, secondOld, edge, old, rfl, rfl⟩, ?_, ?_⟩
    · exact identify_of_ne firstAway
    · exact identify_of_ne secondAway
  · refine ⟨old.source, candidate.id, ⟨firstOld, present, old, oldMember, rfl, target⟩, ?_, ?_⟩
    · exact identify_of_ne firstAway
    · exact identify_self keeper.id candidate.id
  · refine ⟨candidate.id, old.target, ⟨present, secondOld, old, oldMember, source, rfl⟩, ?_, ?_⟩
    · exact identify_self keeper.id candidate.id
    · exact identify_of_ne secondAway

/-- A step stays one when a sampler becomes a lane, unless it led to or from that lane alone. -/
theorem Step.absorb
    (joins : graph.Joins keeper candidate) {first second : NodeId}
    (step : graph.Step first second) :
    (graph.absorb keeper candidate).Reaches (identify keeper.id candidate.id first)
      (identify keeper.id candidate.id second) := by
  have present := contains_of_node? joins.found
  have still : ∀ id, id ≠ candidate.id → graph.contains id = true →
      (graph.absorb keeper candidate).contains id = true :=
    fun id away old => contains_absorb.mpr ⟨away, old⟩
  have stillKeeper := still keeper.id joins.different (contains_of_node? joins.keeperFound)
  rcases step with ⟨firstPresent, secondPresent, edge, member, rfl, rfl⟩
  by_cases leaves : edge.source = candidate.id
  · by_cases enters : edge.target = candidate.id
    · rw [leaves, enters]
      exact Relation.ReflTransGen.refl
    · rw [leaves, identify_self, identify_of_ne enters]
      have stillSecond := still edge.target enters secondPresent
      refine Relation.ReflTransGen.single
        ⟨stillKeeper, stillSecond, leaveLane keeper candidate edge, ?_, rfl, rfl⟩
      exact (mem_edges_absorb present).mpr (Or.inr (Or.inr ⟨edge, member, leaves, rfl⟩))
  · rw [identify_of_ne leaves]
    have stillFirst := still edge.source leaves firstPresent
    by_cases enters : edge.target = candidate.id
    · rw [enters, identify_self]
      refine Relation.ReflTransGen.single
        ⟨stillFirst, stillKeeper, enterLane keeper candidate edge, ?_, rfl, rfl⟩
      exact (mem_edges_absorb present).mpr (Or.inr (Or.inl ⟨edge, member, enters, rfl⟩))
    · rw [identify_of_ne enters]
      have stillSecond := still edge.target enters secondPresent
      refine Relation.ReflTransGen.single ⟨stillFirst, stillSecond, edge, ?_, rfl, rfl⟩
      exact (mem_edges_absorb present).mpr (Or.inl ⟨member, leaves, enters⟩)

/-- A path becomes a path between the nodes that its ends have become part of. -/
theorem Reaches.absorb
    (joins : graph.Joins keeper candidate) {first second : NodeId}
    (path : graph.Reaches first second) :
    (graph.absorb keeper candidate).Reaches (identify keeper.id candidate.id first)
      (identify keeper.id candidate.id second) :=
  Relation.ReflTransGen.lift' (identify keeper.id candidate.id)
    (fun _ _ step => step.absorb joins) first second path

end Joining

/-! ## The whole pass -/

theorem keepers_joined (groups : List SamplerGroup) (place : Nat) :
    (joined groups place).map (·.keeper) = groups.map (·.keeper) := by
  apply List.ext_getElem?
  intro index
  simp only [joined, List.getElem?_map, List.getElem?_modify]
  cases groups[index]? with
  | none => rfl
  | some group =>
      by_cases atPlace : place = index
      · simp [atPlace]
      · simp [atPlace]

/-- The search for a group finds one with room, whose keeper is apart from the sampler. -/
theorem groupFor?_eq_some
    {groups : List SamplerGroup} {candidate : Node} {place : Nat}
    (found : graph.node? candidate.id = some candidate)
    (groupFound : graph.groupFor? groups candidate = some place) :
    ∃ group keeper,
      groups[place]? = some group ∧ group.absorbed < SamplerGroup.capacity ∧
        graph.keeperAt? groups place = some keeper ∧ keeper.id = group.keeper ∧
        graph.Joins keeper candidate := by
  have present := contains_of_node? found
  rcases List.findIdx?_eq_some_iff_getElem.mp groupFound with ⟨inRange, fits, -⟩
  simp only [isOpenTo, isApart, Bool.and_eq_true, decide_eq_true_eq, Option.any_eq_true,
    Bool.not_eq_true', ← Bool.not_eq_true, List.contains_iff_mem] at fits
  rcases fits with ⟨⟨room, keeper, keeperFound, same⟩, notAbove, notBelow⟩
  have keeperId := id_of_node? keeperFound
  have atPlace := List.getElem?_eq_getElem inRange
  refine ⟨groups[place], keeper, atPlace, room, ?_, keeperId, ?_⟩
  · rw [keeperAt?, atPlace]
    exact keeperFound
  · rw [← keeperId] at keeperFound notAbove notBelow
    exact
      { found
        keeperFound
        same
        apart := fun path => notAbove (mem_ancestors.mpr ⟨present, path⟩)
        apart' := fun path => notBelow (mem_descendants.mpr ⟨present, path⟩) }

/--
What is kept may mention the samplers seen so far, the groups, and how many samplers have joined
one.  A sampler that starts a group has to keep it, and so has one that joins a group.
-/
theorem shareSamplers_induction {samplers : List Node}
    (Kept : List Node → List SamplerGroup → Graph → Nat → Prop)
    (opens : ∀ seen groups (current : Graph) count candidate,
      seen ++ [candidate] <+: samplers → current.node? candidate.id = some candidate →
      current.groupFor? groups candidate = none → Kept seen groups current count →
      Kept (seen ++ [candidate]) (groups ++ [⟨candidate.id, 0⟩]) current count)
    (joins : ∀ seen groups (current : Graph) count place group keeper candidate,
      seen ++ [candidate] <+: samplers →
      (groups.map (·.keeper)).Nodup → groups[place]? = some group →
      group.absorbed < SamplerGroup.capacity → keeper.id = group.keeper →
      current.Joins keeper candidate → Kept seen groups current count →
      Kept (seen ++ [candidate]) (joined groups place) (current.absorb keeper candidate)
        (count + 1))
    {seen candidates : List Node} {groups : List SamplerGroup} {current : Graph} {count : Nat}
    (split : seen ++ candidates = samplers)
    (present : ∀ candidate ∈ candidates, current.node? candidate.id = some candidate)
    (distinct : (groups.map (·.keeper) ++ candidates.map (·.id)).Nodup)
    (start : Kept seen groups current count) :
    ∃ final, Kept samplers final (shareSamplers groups candidates current).1
      (count + (shareSamplers groups candidates current).2) := by
  induction candidates generalizing seen groups current count with
  | nil =>
      rw [← split, List.append_nil]
      exact ⟨groups, start⟩
  | cons candidate others induction =>
      have next : (seen ++ [candidate]) ++ others = samplers := by simpa using split
      have candidateFound := present candidate List.mem_cons_self
      have othersPresent : ∀ other ∈ others, current.node? other.id = some other :=
        fun other member => present other (List.mem_cons_of_mem _ member)
      have reordered :
          candidate.id ∉ groups.map (·.keeper) ++ others.map (·.id) ∧
            (groups.map (·.keeper) ++ others.map (·.id)).Nodup := by
        simpa only [List.map_cons, List.nodup_middle, List.nodup_cons] using distinct
      rw [shareSamplers]
      split
      · rename_i noGroup
        apply induction next othersPresent
        · simpa using distinct
        · exact opens seen groups current count candidate ⟨others, next⟩ candidateFound noGroup
            start
      · rename_i place groupFound
        rcases groupFor?_eq_some candidateFound groupFound with
          ⟨group, keeper, atPlace, room, keeperFound, keeperId, canJoin⟩
        simp only [keeperFound]
        have keeperMember : keeper.id ∈ groups.map (·.keeper) := by
          rw [keeperId]
          exact List.mem_map_of_mem (List.mem_of_getElem? atPlace)
        rw [Nat.add_comm _ 1, ← Nat.add_assoc]
        apply induction next
        · intro other member
          have otherMember : other.id ∈ others.map (·.id) := List.mem_map_of_mem member
          have notCandidate : other.id ≠ candidate.id := by
            intro equal
            exact reordered.1 (List.mem_append_right _ (equal ▸ otherMember))
          have notKeeper : other.id ≠ keeper.id := by
            intro equal
            exact List.disjoint_of_nodup_append reordered.2 keeperMember (equal ▸ otherMember)
          rw [node?_absorb, node?_takeSockets_of_ne notCandidate notKeeper]
          exact othersPresent other member
        · rw [keepers_joined]
          exact reordered.2
        · apply joins seen groups current count place group keeper candidate
          · exact ⟨others, next⟩
          · exact (List.nodup_append.mp reordered.2).1
          · exact atPlace
          · exact room
          · exact keeperId
          · exact canJoin
          · exact start

/-- The samplers of a graph that may share a node, in order. -/
def samplers (graph : Graph) : List Node :=
  graph.nodes.filter isShareableTexture

/-- What holds of the graph at first, and is kept by every sampler, holds after the whole pass. -/
theorem mergeTextures_run (Kept : List Node → List SamplerGroup → Graph → Nat → Prop)
    (start : Kept [] [] graph 0)
    (opens : ∀ seen groups (current : Graph) count candidate,
      seen ++ [candidate] <+: graph.samplers → current.node? candidate.id = some candidate →
      current.groupFor? groups candidate = none → Kept seen groups current count →
      Kept (seen ++ [candidate]) (groups ++ [⟨candidate.id, 0⟩]) current count)
    (joins : ∀ seen groups (current : Graph) count place group keeper candidate,
      seen ++ [candidate] <+: graph.samplers →
      (groups.map (·.keeper)).Nodup → groups[place]? = some group →
      group.absorbed < SamplerGroup.capacity → keeper.id = group.keeper →
      current.Joins keeper candidate → Kept seen groups current count →
      Kept (seen ++ [candidate]) (joined groups place) (current.absorb keeper candidate)
        (count + 1)) :
    ∃ groups, Kept graph.samplers groups graph.mergeTextures.1 graph.mergeTextures.2 := by
  have distinct : (graph.samplers.map (·.id)).Nodup :=
    graph.nodup_nodeIds.sublist (List.filter_sublist.map _)
  have present : ∀ candidate ∈ graph.samplers, graph.node? candidate.id = some candidate :=
    fun candidate member => node?_of_mem (List.mem_filter.mp member).1
  have run : ∃ groups, Kept graph.samplers groups graph.mergeTextures.1
      (0 + graph.mergeTextures.2) :=
    shareSamplers_induction Kept opens joins (List.nil_append _) present distinct start
  rwa [Nat.zero_add] at run

/-- What every joining keeps, sharing the samplers keeps. -/
theorem mergeTextures_induction (Kept : Graph → Prop)
    (step : ∀ (current : Graph) (keeper candidate : Node),
      current.Joins keeper candidate → Kept current → Kept (current.absorb keeper candidate))
    (start : Kept graph) :
    Kept graph.mergeTextures.1 := by
  have kept : ∃ _ : List SamplerGroup, Kept graph.mergeTextures.1 := by
    apply mergeTextures_run fun _ _ current _ => Kept current
    · exact start
    · intro seen groups current count candidate _ _ _ kept
      exact kept
    · intro seen groups current count place group keeper candidate _ _ _ _ _ joins kept
      exact step current keeper candidate joins kept
  rcases kept with ⟨-, kept⟩
  exact kept

/-- Sharing samplers keeps a graph sound and free of cycles. -/
theorem Sound.mergeTextures
    (strict : ∀ kind : Kind, kind.handsOn = true → ¬ excused kind)
    (sound : graph.Sound excused) (acyclic : graph.Acyclic) :
    graph.mergeTextures.1.Sound excused ∧ graph.mergeTextures.1.Acyclic := by
  apply mergeTextures_induction fun current => current.Sound excused ∧ current.Acyclic
  · rintro current keeper candidate joins ⟨currentSound, currentAcyclic⟩
    constructor
    · exact currentSound.absorb currentAcyclic joins strict
    · exact currentAcyclic.absorb joins
  · exact ⟨sound, acyclic⟩

/-! ## How many lanes there can be -/

/-- Nodes have no more lanes than a limit and the samplers that have joined them. -/
structure Narrow (limit : Nat) (groups : List SamplerGroup) (graph : Graph) : Prop where
  room : ∀ group ∈ groups, group.absorbed ≤ SamplerGroup.capacity
  lanes : ∀ id node, graph.node? id = some node →
    laneCount node ≤ limit ∨
      ∃ group ∈ groups, group.keeper = id ∧ laneCount node ≤ limit + group.absorbed

theorem mem_joined
    {groups : List SamplerGroup} {place : Nat} {group other : SamplerGroup}
    (atPlace : groups[place]? = some group) :
    other ∈ joined groups place ↔
      other = { group with absorbed := group.absorbed + 1 } ∨
        ∃ index, index ≠ place ∧ groups[index]? = some other := by
  simp only [List.mem_iff_getElem?, joined, List.getElem?_modify]
  constructor
  · rintro ⟨index, found⟩
    by_cases same : place = index
    · subst same
      simp only [atPlace, if_true, Option.map_eq_map, Option.map_some, Option.some.injEq] at found
      exact Or.inl found.symm
    · refine Or.inr ⟨index, Ne.symm same, ?_⟩
      simpa [same] using found
  · rintro (rfl | ⟨index, different, found⟩)
    · exact ⟨place, by simp [atPlace]⟩
    · exact ⟨index, by simp [found, different.symm]⟩

/-- A sampler grows by one lane as its group counts one more. -/
theorem Narrow.joined
    {limit : Nat} {groups : List SamplerGroup} {place : Nat} {group : SamplerGroup}
    {keeper candidate : Node}
    (narrow : graph.Narrow limit groups) (distinct : (groups.map (·.keeper)).Nodup)
    (atPlace : groups[place]? = some group) (room : group.absorbed < SamplerGroup.capacity)
    (keeperId : keeper.id = group.keeper) (joins : graph.Joins keeper candidate) :
    (graph.absorb keeper candidate).Narrow limit (joined groups place) := by
  have groupMember := List.mem_of_getElem? atPlace
  constructor
  · intro other member
    rcases (mem_joined atPlace).mp member with rfl | ⟨index, -, found⟩
    · exact room
    · exact narrow.room other (List.mem_of_getElem? found)
  · intro id node found
    have away := (contains_absorb.mp (contains_of_node? found)).1
    rw [node?_absorb] at found
    by_cases atKeeper : id = keeper.id
    · rw [atKeeper, node?_takeSockets_keeper joins] at found
      refine Or.inr ⟨_, (mem_joined atPlace).mpr (Or.inl rfl), ?_, ?_⟩
      · rw [atKeeper, keeperId]
      · rw [← Option.some.inj found, joins.laneCount_widen]
        have before : laneCount keeper ≤ limit + group.absorbed := by
          rcases narrow.lanes keeper.id keeper joins.keeperFound with
            few | ⟨other, member, sameKeeper, bounded⟩
          · exact Nat.le_add_right_of_le few
          · have same : other = group :=
              List.inj_on_of_nodup_map distinct member groupMember
                (sameKeeper.trans keeperId)
            rwa [same] at bounded
        exact Nat.succ_le_succ before
    · rw [node?_takeSockets_of_ne away atKeeper] at found
      refine (narrow.lanes id node found).imp_right ?_
      rintro ⟨other, member, otherKeeper, bounded⟩
      rcases List.mem_iff_getElem?.mp member with ⟨index, otherFound⟩
      refine ⟨other, (mem_joined atPlace).mpr (Or.inr ⟨index, ?_, otherFound⟩),
        otherKeeper, bounded⟩
      rintro rfl
      have same : other = group := Option.some.inj (otherFound.symm.trans atPlace)
      exact atKeeper (by rw [← otherKeeper, same, keeperId])

/-- A sampler grows by no more lanes than a group has room for. -/
theorem laneCount_mergeTextures_le
    {limit : Nat}
    (few : ∀ id node, graph.node? id = some node → laneCount node ≤ limit)
    {id : NodeId} {node : Node} (found : graph.mergeTextures.1.node? id = some node) :
    laneCount node ≤ limit + SamplerGroup.capacity := by
  have narrow : ∃ groups, graph.mergeTextures.1.Narrow limit groups := by
    apply mergeTextures_run fun _ groups current _ => current.Narrow limit groups
    · exact ⟨by simp, fun id node found => Or.inl (few id node found)⟩
    · intro seen groups current count candidate _ _ _ narrow
      constructor
      · intro group member
        rcases List.mem_append.mp member with old | new
        · exact narrow.room group old
        · rw [List.mem_singleton.mp new]
          exact Nat.zero_le _
      · intro id node found
        refine (narrow.lanes id node found).imp_right ?_
        rintro ⟨group, member, bounded⟩
        exact ⟨group, List.mem_append_left _ member, bounded⟩
    · intro seen groups current count place group keeper candidate _ distinct atPlace room keeperId
        joins narrow
      exact narrow.joined distinct atPlace room keeperId joins
  rcases narrow with ⟨groups, narrow⟩
  rcases narrow.lanes id node found with within | ⟨group, member, -, within⟩
  · exact Nat.le_add_right_of_le within
  · exact within.trans (Nat.add_le_add_left (narrow.room group member) limit)

end NodeMaterial.Graph
