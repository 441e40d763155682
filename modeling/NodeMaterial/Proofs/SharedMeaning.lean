import NodeMaterial.Proofs.Refinement

/-!
# Sharing keeps what a graph computes

Matching accessors give the same value, so an edge may start at either of them.  A
sampler that joins another becomes a lane of it: its input and its outputs follow those
of the lanes before, and the lane looks up what the sampler did.
-/

namespace NodeMaterial

namespace Graph

variable {Value : Type} {meaning : Interpretation Value} {graph other : Graph}

/-! ## Sharing accessors -/

/-- Accessors that read the same geometry give the same value. -/
theorem outputOf_of_sameGeometry
    {node keeper : Node} (same : sameGeometry node keeper = true)
    (inputs keeperInputs : List Value) (place keeperPlace : Nat) :
    outputOf meaning keeper keeperInputs keeperPlace = outputOf meaning node inputs place := by
  simp only [sameGeometry] at same
  split at same
  · rename_i facet keeperFacet kind keeperKind
    simp only [Bool.and_eq_true, beq_iff_eq, Bool.or_eq_true, Bool.not_eq_true'] at same
    rcases same with ⟨rfl, unlayered | sameKey⟩
    · simp [outputOf, kind, keeperKind, accessed, unlayered]
    · simp [outputOf, kind, keeperKind, accessed, sameKey]
  · exact absurd same Bool.false_ne_true

theorem isGeometry_eq_false_of_unmerged {node : Node} (unmerged : node.kind.isMerged = false) :
    isGeometry node = false := by
  cases kind : node.kind <;> simp_all [isGeometry, Kind.isMerged]

theorem isTexture_eq_false_of_unmerged {node : Node} (unmerged : node.kind.isMerged = false) :
    node.kind.isTexture = false := by
  cases kind : node.kind <;> simp_all [Kind.isMerged, Kind.isTexture]

section Replacing

variable {node keeper : Node}

/-- Readers of the accessor that leaves read an equal value elsewhere. -/
theorem carries_replaceBy
    (meaning : Interpretation Value) (plain : graph.Plain)
    (repeats : graph.Repeats node keeper) :
    Carries (graph.replaceBy node.id keeper.id) graph (evaluate meaning graph)
      (evaluate meaning graph) (fun source place => (identify keeper.id node.id source, place))
      Prod.mk := by
  have present := contains_of_node? repeats.found
  have solves := plain.solves_evaluate meaning
  constructor
  · intro edge member
    rcases (mem_edges_replaceBy present).mp member with
      ⟨old | ⟨old, oldMember, source, rfl⟩, away, -⟩
    · refine ⟨edge, old, rfl, ?_, rfl⟩
      rw [identify_of_ne away]
    · refine ⟨old, oldMember, rfl, ?_, ?_⟩
      · rw [source, identify_self]
        rfl
      · rw [source, solves node.id node repeats.found]
        refine (solves keeper.id keeper repeats.keeperFound _).trans ?_
        exact outputOf_of_sameGeometry repeats.same _ _ _ _
  · intro previous member id place stillPresent isOrigin
    rcases contains_replaceBy.mp stillPresent with ⟨away, -⟩
    cases isOrigin
    by_cases moved : previous.source = node.id
    · refine ⟨startAt keeper.id previous, ?_, rfl, rfl⟩
      exact (mem_edges_replaceBy present).mpr
        ⟨Or.inr ⟨previous, member, moved, rfl⟩, repeats.different.symm, away⟩
    · refine ⟨previous, ?_, rfl, rfl⟩
      exact (mem_edges_replaceBy present).mpr ⟨Or.inl member, moved, away⟩

theorem node?_of_node?_replaceBy
    {id : NodeId} {other : Node}
    (found : (graph.replaceBy node.id keeper.id).node? id = some other) :
    graph.node? id = some other :=
  (node?_replaceBy_eq_some_iff.mp found).2

/-- Replacing an accessor gives no input a second source. -/
theorem Plain.replaceBy (plain : graph.Plain) (repeats : graph.Repeats node keeper) :
    (graph.replaceBy node.id keeper.id).Plain := by
  have sound := plain.wellFormed.sound
  constructor
  · exact (sound.replaceBy repeats id).wellFormed
      (plain.wellFormed.acyclic.replaceBy sound.unfed repeats)
  · exact (carries_replaceBy .trivial plain repeats).single plain.single
  · intro other member
    have wasFound := node?_of_node?_replaceBy (node?_of_mem member)
    exact plain.splitters other (mem_nodes_of_node? wasFound)

theorem Repeats.ne_of_isGeometry_eq_false
    (repeats : graph.Repeats node keeper) {id : NodeId} {other : Node}
    (found : graph.node? id = some other) (notGeometry : isGeometry other = false) :
    id ≠ node.id := by
  rintro rfl
  cases found.symm.trans repeats.found
  have geometry := (isGeometry_of_sameGeometry repeats.same).1
  exact Bool.false_ne_true (notGeometry.symm.trans geometry)

/-- Replacing an accessor keeps the value of every node that stays. -/
theorem refines_replaceBy
    (meaning : Interpretation Value) (plain : graph.Plain)
    (repeats : graph.Repeats node keeper) :
    Refines meaning (graph.replaceBy node.id keeper.id) graph := by
  have carries := carries_replaceBy meaning plain repeats
  have stillFound : ∀ {id other}, graph.node? id = some other → isGeometry other = false →
      (graph.replaceBy node.id keeper.id).node? id = some other := by
    intro id other found notGeometry
    exact node?_replaceBy_eq_some_iff.mpr
      ⟨repeats.ne_of_isGeometry_eq_false found notGeometry, found⟩
  apply carries.refines
  · intro id other found place
    have wasFound := node?_of_node?_replaceBy found
    rw [carries.inputValues_eq plain.single found wasFound rfl fun _ => rfl]
    exact plain.solves_evaluate meaning id other wasFound place
  · exact plain.single
  · exact plain.replaceBy repeats
  · exact fun _ _ => rfl
  · intro id other found
    exact ⟨other, node?_of_node?_replaceBy found, Or.inl rfl⟩
  · intro id other found sampler
    exact stillFound found (isGeometry_eq_false_of_isTexture sampler)
  · intro id other found unmerged
    exact stillFound found (isGeometry_eq_false_of_unmerged unmerged)
  · intro id other isOutput found unmerged
    exact output_replaceBy isOutput
      (repeats.ne_of_isGeometry_eq_false found (isGeometry_eq_false_of_unmerged unmerged))

end Replacing

/-! ## Sharing samplers -/

section Absorbing

variable {keeper candidate : Node}

/-- The values after a sampler has become a lane of another. -/
def laneValues (keeper candidate : Node) (values : Valuation Value) : Valuation Value :=
  fun id place =>
    if id = keeper.id ∧ 2 * laneCount keeper ≤ place then
      values candidate.id (place - 2 * laneCount keeper)
    else
      values id place

/-- Where an output of the sampler is found after that. -/
def leftLane (keeper candidate : Node) (source : NodeId) (place : Nat) : NodeId × Nat :=
  if source = candidate.id then (keeper.id, place + 2 * laneCount keeper) else (source, place)

/-- Where an input of the shared sampler has been before. -/
def enteredLane (keeper candidate : Node) (target : NodeId) (place : Nat) : NodeId × Nat :=
  if target = keeper.id ∧ laneCount keeper ≤ place then
    (candidate.id, place - laneCount keeper)
  else
    (target, place)

theorem laneValues_of_ne
    {id : NodeId} (notKeeper : id ≠ keeper.id) (values : Valuation Value) :
    laneValues keeper candidate values id = values id := by
  funext place
  rw [laneValues, if_neg fun both => notKeeper both.1]

theorem laneValues_of_lt
    {place : Nat} (inRange : place < 2 * laneCount keeper) (id : NodeId)
    (values : Valuation Value) :
    laneValues keeper candidate values id place = values id place := by
  rw [laneValues, if_neg fun both => absurd both.2 (Nat.not_le.mpr inRange)]

theorem laneValues_add (place : Nat) (values : Valuation Value) :
    laneValues keeper candidate values keeper.id (place + 2 * laneCount keeper) =
      values candidate.id place := by
  rw [laneValues, if_pos ⟨rfl, Nat.le_add_left _ _⟩, Nat.add_sub_cancel]

theorem enteredLane_of_ne {target : NodeId} (notKeeper : target ≠ keeper.id) (place : Nat) :
    enteredLane keeper candidate target place = (target, place) := by
  rw [enteredLane, if_neg fun both => notKeeper both.1]

theorem enteredLane_of_lt
    {place : Nat} (inRange : place < laneCount keeper) (target : NodeId) :
    enteredLane keeper candidate target place = (target, place) := by
  rw [enteredLane, if_neg fun both => absurd both.2 (Nat.not_le.mpr inRange)]

theorem enteredLane_add (place : Nat) :
    enteredLane keeper candidate keeper.id (place + laneCount keeper) =
      (candidate.id, place) := by
  rw [enteredLane, if_pos ⟨rfl, Nat.le_add_left _ _⟩, Nat.add_sub_cancel]

/-- A sampler of one lane has one input and two outputs. -/
theorem Plain.sockets_candidate
    (plain : graph.Plain) (joins : graph.Joins keeper candidate) :
    candidate.inputs.length = 1 ∧ candidate.outputs.length = 2 := by
  have lane := plain.wellFormed.texture candidate (mem_nodes_of_node? joins.found)
    joins.isTexture.2
  rwa [joins.laneCount_candidate] at lane

theorem Plain.sockets_keeper
    (plain : graph.Plain) (joins : graph.Joins keeper candidate) :
    keeper.inputs.length = laneCount keeper ∧ keeper.outputs.length = 2 * laneCount keeper :=
  plain.wellFormed.texture keeper (mem_nodes_of_node? joins.keeperFound) joins.isTexture.1

/-- The edges of a sampler move by the lanes that are there already. -/
theorem Plain.enterLane_eq
    (plain : graph.Plain) (joins : graph.Joins keeper candidate) (edge : Edge) :
    enterLane keeper candidate edge =
      ⟨edge.source, keeper.id, edge.outSocket, edge.inSocket + laneCount keeper⟩ := by
  rw [enterLane, (plain.sockets_candidate joins).1, Nat.mul_one]

theorem Plain.leaveLane_eq
    (plain : graph.Plain) (joins : graph.Joins keeper candidate) (edge : Edge) :
    leaveLane keeper candidate edge =
      ⟨keeper.id, edge.target, edge.outSocket + 2 * laneCount keeper, edge.inSocket⟩ := by
  rw [leaveLane, (plain.sockets_candidate joins).2, Nat.mul_comm]

/-- Edges of the sampler that joins move to its lane, with their values. -/
theorem carries_absorb
    (plain : graph.Plain) (joins : graph.Joins keeper candidate) (values : Valuation Value) :
    Carries (graph.absorb keeper candidate) graph (laneValues keeper candidate values) values
      (leftLane keeper candidate) (enteredLane keeper candidate) := by
  have present := contains_of_node? joins.found
  have keeperPresent := contains_of_node? joins.keeperFound
  have wellFormed := plain.wellFormed
  constructor
  · intro edge member
    rcases (mem_edges_absorb present).mp member with
      ⟨old, sourceAway, targetAway⟩ | ⟨old, oldMember, target, rfl⟩ |
        ⟨old, oldMember, source, rfl⟩
    · rcases plain.sockets_keeper joins with ⟨inputs, outputs⟩
      refine ⟨edge, old, ?_, if_neg sourceAway, ?_⟩
      · by_cases atKeeper : edge.target = keeper.id
        · have inRange := wellFormed.inputs edge old keeper (atKeeper ▸ joins.keeperFound)
          exact enteredLane_of_lt (inputs ▸ inRange) edge.target
        · exact enteredLane_of_ne atKeeper edge.inSocket
      · by_cases atKeeper : edge.source = keeper.id
        · have inRange := wellFormed.outputs edge old keeper (atKeeper ▸ joins.keeperFound)
          exact laneValues_of_lt (outputs ▸ inRange) edge.source values
        · rw [laneValues_of_ne atKeeper]
    · have notLoop : old.source ≠ candidate.id := by
        rw [← target]
        exact wellFormed.acyclic.source_ne_target oldMember (plain.sources old oldMember)
      have notKeeper : old.source ≠ keeper.id := by
        intro source
        exact joins.apart (.single ⟨keeperPresent, present, old, oldMember, source, target⟩)
      rw [plain.enterLane_eq joins]
      refine ⟨old, oldMember, ?_, if_neg notLoop, ?_⟩
      · rw [enteredLane_add, target]
      · rw [laneValues_of_ne notKeeper]
    · have notKeeper : old.target ≠ keeper.id := by
        intro target
        exact joins.apart' (.single ⟨present, keeperPresent, old, oldMember, source, target⟩)
      rw [plain.leaveLane_eq joins]
      refine ⟨old, oldMember, enteredLane_of_ne notKeeper _, if_pos source, ?_⟩
      rw [laneValues_add, source]
  · intro previous member id place stillPresent isOrigin
    rcases contains_absorb.mp stillPresent with ⟨away, -⟩
    rw [enteredLane] at isOrigin
    split at isOrigin
    · rename_i beyond
      rcases beyond with ⟨rfl, beyond⟩
      rw [Prod.mk.injEq] at isOrigin
      refine ⟨enterLane keeper candidate previous, ?_, rfl, ?_⟩
      · exact (mem_edges_absorb present).mpr
          (Or.inr (Or.inl ⟨previous, member, isOrigin.1.symm, rfl⟩))
      · rw [plain.enterLane_eq joins, ← isOrigin.2]
        exact Nat.sub_add_cancel beyond
    · cases isOrigin
      by_cases source : previous.source = candidate.id
      · exact ⟨leaveLane keeper candidate previous, (mem_edges_absorb present).mpr
          (Or.inr (Or.inr ⟨previous, member, source, rfl⟩)), rfl, rfl⟩
      · exact ⟨previous, (mem_edges_absorb present).mpr (Or.inl ⟨member, source, away⟩),
          rfl, rfl⟩

theorem defaults_appendLane (lanes : Nat) (sockets added : List Socket) :
    (appendLane lanes sockets added).map (·.defaultValue) =
      sockets.map (·.defaultValue) ++ added.map (·.defaultValue) := by
  have numbered : ∀ number (list : List Socket),
      (list.map (numberSocket number)).map (·.defaultValue) = list.map (·.defaultValue) := by
    intro number list
    rw [List.map_map]
    rfl
  rw [appendLane, List.map_append, numbered]
  split
  · rw [numbered]
  · rfl

/-- What a node reads depends on the defaults of its inputs and on their sources. -/
theorem inputValues_eq_mapIdx (graph : Graph) (values : Valuation Value) (node : Node) :
    inputValues meaning graph values node =
      (node.inputs.map (·.defaultValue)).mapIdx (read meaning graph values node.id) := by
  apply List.ext_getElem?
  intro place
  simp [inputValues, Function.comp_def]

/-- The shared sampler reads what both of them read. -/
theorem inputValues_widen
    (plain : graph.Plain) (joins : graph.Joins keeper candidate) (values : Valuation Value) :
    inputValues meaning (graph.absorb keeper candidate) (laneValues keeper candidate values)
        (widen candidate keeper) =
      inputValues meaning graph values keeper ++ inputValues meaning graph values candidate := by
  have carries := carries_absorb plain joins values
  have present : (graph.absorb keeper candidate).contains keeper.id = true :=
    contains_absorb.mpr ⟨joins.different, contains_of_node? joins.keeperFound⟩
  have inputs := (plain.sockets_keeper joins).1
  rw [inputValues_eq_mapIdx, inputValues_eq_mapIdx, inputValues_eq_mapIdx]
  simp only [widen, defaults_appendLane, List.mapIdx_append, List.length_map]
  congr 1
  · apply List.mapIdx_eq_mapIdx_iff.mpr
    intro place inRange
    rw [List.length_map, inputs] at inRange
    exact carries.read_eq plain.single present (enteredLane_of_lt inRange _) _
  · apply List.mapIdx_eq_mapIdx_iff.mpr
    intro place inRange
    rw [inputs]
    exact carries.read_eq plain.single present (enteredLane_add place) _

theorem length_inputValues (graph : Graph) (values : Valuation Value) (node : Node) :
    (inputValues meaning graph values node).length = node.inputs.length :=
  List.length_mapIdx

/-- The lanes of the shared sampler are those of the first, then the lane of the second. -/
theorem inputAt_widen
    (plain : graph.Plain) (joins : graph.Joins keeper candidate) (values : Valuation Value)
    (lane : Nat) :
    inputAt meaning (inputValues meaning (graph.absorb keeper candidate)
        (laneValues keeper candidate values) (widen candidate keeper)) lane =
      if lane < laneCount keeper then
        inputAt meaning (inputValues meaning graph values keeper) lane
      else
        inputAt meaning (inputValues meaning graph values candidate)
          (lane - laneCount keeper) := by
  have inputs := (plain.sockets_keeper joins).1
  rw [inputValues_widen plain joins, inputAt, List.getElem?_append, length_inputValues, inputs]
  split <;> rfl

/-- The old values, with those of the new lane, solve the new equations. -/
theorem solves_absorb
    (meaning : Interpretation Value) (plain : graph.Plain)
    (joins : graph.Joins keeper candidate) :
    Solves meaning (graph.absorb keeper candidate)
      (laneValues keeper candidate (evaluate meaning graph)) := by
  have solves := plain.solves_evaluate meaning
  have carries := carries_absorb plain joins (evaluate meaning graph)
  intro id node found place
  by_cases atKeeper : id = keeper.id
  · subst atKeeper
    rw [node?_absorb, node?_takeSockets_keeper joins, Option.some.injEq] at found
    subst found
    rcases kinds_of_sameTexture joins.same with
      ⟨sampler, lanes, candidateKind, keeperKind, sameKey⟩
    have widened : (widen candidate keeper).kind = .texture sampler (lanes + 1) := by
      simp [widen, addLane, keeperKind]
    have key : (widen candidate keeper).key? = keeper.key? := rfl
    simp only [outputOf, widened, key, inputAt_widen plain joins]
    rw [laneValues]
    by_cases beyond : 2 * laneCount keeper ≤ place
    · have lane : (place - 2 * laneCount keeper) / 2 = place / 2 - laneCount keeper := by omega
      have side : (place - 2 * laneCount keeper) % 2 = place % 2 := by omega
      rw [if_pos ⟨rfl, beyond⟩, if_neg (by omega), solves candidate.id candidate joins.found]
      simp only [outputOf, candidateKind, sameKey, lane, side]
    · rw [if_neg fun both => beyond both.2, if_pos (by omega),
        solves keeper.id keeper joins.keeperFound]
      simp only [outputOf, keeperKind]
  · have present := contains_of_node? found
    rcases contains_absorb.mp present with ⟨away, -⟩
    have wasFound := found
    rw [node?_absorb, node?_takeSockets_of_ne away atKeeper] at wasFound
    rw [carries.inputValues_eq plain.single found wasFound rfl (enteredLane_of_ne atKeeper),
      laneValues_of_ne atKeeper]
    exact solves id node wasFound place

/-- A node that is no sampler is neither of the two. -/
theorem Joins.ne_of_isTexture_eq_false
    (joins : graph.Joins keeper candidate) {id : NodeId} {node : Node}
    (found : graph.node? id = some node) (notSampler : node.kind.isTexture = false) :
    id ≠ candidate.id ∧ id ≠ keeper.id := by
  constructor
  · rintro rfl
    cases found.symm.trans joins.found
    exact Bool.false_ne_true (notSampler.symm.trans joins.isTexture.2)
  · rintro rfl
    cases found.symm.trans joins.keeperFound
    exact Bool.false_ne_true (notSampler.symm.trans joins.isTexture.1)

theorem ne_keeper_of_node?_absorb
    (joins : graph.Joins keeper candidate) {id : NodeId} {node : Node}
    (found : (graph.absorb keeper candidate).node? id = some node)
    (notSampler : node.kind.isTexture = false) :
    id ≠ keeper.id := by
  rintro rfl
  cases found.symm.trans (node?_absorb_keeper joins)
  exact Bool.false_ne_true (notSampler.symm.trans joins.isTexture_widen)

theorem node?_of_node?_absorb
    {id : NodeId} {node : Node} (found : (graph.absorb keeper candidate).node? id = some node)
    (notKeeper : id ≠ keeper.id) :
    graph.node? id = some node := by
  have notCandidate := (contains_absorb.mp (contains_of_node? found)).1
  rwa [node?_absorb, node?_takeSockets_of_ne notCandidate notKeeper] at found

/-- Joining samplers gives no input a second source. -/
theorem Plain.absorb (plain : graph.Plain) (joins : graph.Joins keeper candidate) :
    (graph.absorb keeper candidate).Plain := by
  have acyclic := plain.wellFormed.acyclic
  constructor
  · exact (plain.wellFormed.sound.absorb acyclic joins fun _ _ => id).wellFormed
      (acyclic.absorb joins)
  · exact (carries_absorb plain joins fun _ _ => ()).single plain.single
  · intro node member kind
    have found := node?_of_mem member
    have notKeeper := ne_keeper_of_node?_absorb joins found (by rw [kind]; rfl)
    have wasFound := node?_of_node?_absorb found notKeeper
    exact plain.splitters node (mem_nodes_of_node? wasFound) kind

theorem inputValues_absorb_of_ne
    (meaning : Interpretation Value) (plain : graph.Plain)
    (joins : graph.Joins keeper candidate) {id : NodeId} {node : Node}
    (found : (graph.absorb keeper candidate).node? id = some node)
    (notKeeper : id ≠ keeper.id) :
    inputValues meaning (graph.absorb keeper candidate)
        (evaluate meaning (graph.absorb keeper candidate)) node =
      inputValues meaning graph (evaluate meaning graph) node := by
  rw [(solves_absorb meaning plain joins).inputValues_evaluate (plain.absorb joins)]
  exact (carries_absorb plain joins _).inputValues_eq plain.single found
    (node?_of_node?_absorb found notKeeper) rfl (enteredLane_of_ne notKeeper)

/-- Joining samplers keeps the value of every node that stays. -/
theorem refines_absorb
    (meaning : Interpretation Value) (plain : graph.Plain)
    (joins : graph.Joins keeper candidate) :
    Refines meaning (graph.absorb keeper candidate) graph := by
  have stillFound : ∀ {id node}, graph.node? id = some node → id ≠ candidate.id →
      id ≠ keeper.id → (graph.absorb keeper candidate).node? id = some node := by
    intro id node found notCandidate notKeeper
    rw [node?_absorb, node?_takeSockets_of_ne notCandidate notKeeper, found]
  constructor
  · intro id node found unmerged
    rcases joins.ne_of_isTexture_eq_false found (isTexture_eq_false_of_unmerged unmerged) with
      ⟨notCandidate, notKeeper⟩
    exact stillFound found notCandidate notKeeper
  · intro id node isOutput found unmerged
    have away := joins.ne_of_isTexture_eq_false found (isTexture_eq_false_of_unmerged unmerged)
    exact output_absorb isOutput away.1
  · intro id node found notSampler
    have notKeeper := ne_keeper_of_node?_absorb joins found notSampler
    exact ⟨node, node?_of_node?_absorb found notKeeper, Or.inl rfl,
      inputValues_absorb_of_ne meaning plain joins found notKeeper⟩
  · intro id previous sampler lanes found kind lane inRange
    rcases kinds_of_sameTexture joins.same with
      ⟨shared, keeperLanes, candidateKind, keeperKind, sameKey⟩
    have count : laneCount keeper = keeperLanes := by rw [laneCount, keeperKind]
    have widened : (widen candidate keeper).kind = .texture shared (keeperLanes + 1) := by
      simp [widen, addLane, keeperKind]
    have keeperFound := node?_absorb_keeper joins
    have reads := (solves_absorb meaning plain joins).inputValues_evaluate (plain.absorb joins)
    by_cases isCandidate : id = candidate.id
    · subst isCandidate
      cases found.symm.trans joins.found
      cases kind.symm.trans candidateKind
      refine ⟨keeper.id, _, _, keeperLanes, keeperFound, widened, sameKey.symm, by omega, ?_⟩
      rw [reads, inputAt_widen plain joins, if_neg (by omega)]
      congr 1
      omega
    · by_cases isKeeper : id = keeper.id
      · subst isKeeper
        cases found.symm.trans joins.keeperFound
        cases kind.symm.trans keeperKind
        refine ⟨keeper.id, _, _, lane, keeperFound, widened, rfl, by omega, ?_⟩
        rw [reads, inputAt_widen plain joins, if_pos (by omega)]
      · have still := stillFound found isCandidate isKeeper
        refine ⟨id, previous, lanes, lane, still, kind, rfl, inRange, ?_⟩
        rw [inputValues_absorb_of_ne meaning plain joins still isKeeper]

end Absorbing

/-! ## The passes -/

theorem Plain.mergeGeometry (meaning : Interpretation Value) (plain : graph.Plain) :
    graph.mergeGeometry.1.Plain ∧ Refines meaning graph.mergeGeometry.1 graph := by
  apply mergeGeometry_induction fun current => current.Plain ∧ Refines meaning current graph
  · rintro current node keeper repeats ⟨currentPlain, refines⟩
    exact ⟨currentPlain.replaceBy repeats,
      (refines_replaceBy meaning currentPlain repeats).trans refines⟩
  · exact ⟨plain, Refines.refl meaning graph⟩

theorem Plain.mergeTextures (meaning : Interpretation Value) (plain : graph.Plain) :
    graph.mergeTextures.1.Plain ∧ Refines meaning graph.mergeTextures.1 graph := by
  apply mergeTextures_induction fun current => current.Plain ∧ Refines meaning current graph
  · rintro current keeper candidate joins ⟨currentPlain, refines⟩
    exact ⟨currentPlain.absorb joins, (refines_absorb meaning currentPlain joins).trans refines⟩
  · exact ⟨plain, Refines.refl meaning graph⟩

/-- Sharing nodes keeps a graph plain and the values of its nodes. -/
theorem Plain.mergeNodes (meaning : Interpretation Value) (plain : graph.Plain) :
    graph.mergeNodes.1.Plain ∧ Refines meaning graph.mergeNodes.1 graph := by
  rcases plain.mergeGeometry meaning with ⟨sharedPlain, shared⟩
  rcases sharedPlain.mergeTextures meaning with ⟨mergedPlain, merged⟩
  exact ⟨mergedPlain, merged.trans shared⟩

end Graph

end NodeMaterial
