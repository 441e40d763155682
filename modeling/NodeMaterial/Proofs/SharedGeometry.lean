import NodeMaterial.Proofs.Soundness

/-!
# Sharing geometry accessors keeps graphs sound

One accessor after the other is replaced by a kept one that reads the same geometry.
A property of graphs survives the whole pass if it survives one replacement.

No edge enters an accessor.  An edge that starts at another accessor than before is
therefore never part of a cycle.
-/

namespace NodeMaterial.Graph

variable {excused : Kind → Prop} {graph : Graph}

theorem isGeometry_of_sameGeometry
    {first second : Node} (same : sameGeometry first second = true) :
    isGeometry first = true ∧ isGeometry second = true := by
  simp only [sameGeometry] at same
  split at same
  · rename_i firstKind secondKind
    simp [isGeometry, firstKind, secondKind]
  · exact absurd same Bool.false_ne_true

theorem handsOn_of_isGeometry {node : Node} (geometry : isGeometry node = true) :
    node.kind.handsOn = true := by
  simp only [isGeometry] at geometry
  split at geometry
  · rename_i kind
    rw [kind]
    rfl
  · exact absurd geometry Bool.false_ne_true

/-- Of two nodes of a graph, one reads the geometry that the other reads. -/
structure Repeats (graph : Graph) (node keeper : Node) : Prop where
  found : graph.node? node.id = some node
  keeperFound : graph.node? keeper.id = some keeper
  different : node.id ≠ keeper.id
  same : sameGeometry node keeper = true

/-! ## Replacing one accessor -/

theorem node?_replaceBy_eq_some_iff
    {id keeper other : NodeId} {node : Node} :
    (graph.replaceBy id keeper).node? other = some node ↔
      other ≠ id ∧ graph.node? other = some node := by
  rw [replaceBy, node?_withoutNode_eq_some_iff, node?_addEdges]

theorem contains_replaceBy {id keeper other : NodeId} :
    (graph.replaceBy id keeper).contains other = true ↔
      other ≠ id ∧ graph.contains other = true := by
  rw [replaceBy, contains_withoutNode, contains_addEdges]

theorem output_replaceBy
    {id keeper output : NodeId} (isOutput : graph.output = some output) (away : output ≠ id) :
    (graph.replaceBy id keeper).output = some output := by
  have stillOutput := (output_addEdges graph ((graph.outEdges id).map (startAt keeper))).trans
    isOutput
  rw [replaceBy, output_withoutNode_of_ne]
  · exact stillOutput
  · rw [stillOutput]
    exact fun same => away (Option.some.inj same)

/-- Edges of the accessor that leaves start at the one that is kept. -/
theorem mem_edges_replaceBy
    {id keeper : NodeId} {edge : Edge} (present : graph.contains id = true) :
    edge ∈ (graph.replaceBy id keeper).edges ↔
      (edge ∈ graph.edges ∨
        ∃ old ∈ graph.edges, old.source = id ∧ startAt keeper old = edge) ∧
      edge.source ≠ id ∧ edge.target ≠ id := by
  have stillPresent :
      (graph.addEdges ((graph.outEdges id).map (startAt keeper))).contains id = true := by
    rw [contains_addEdges]
    exact present
  rw [replaceBy, mem_edges_withoutNode stillPresent, mem_edges_addEdges]
  simp only [List.mem_map, mem_outEdges, and_assoc]

/-- The two accessors have one output each, so an edge finds it at either of them. -/
theorem Sound.replaceBy
    (sound : graph.Sound excused) {node keeper : Node}
    (repeats : graph.Repeats node keeper)
    (strict : ¬ excused node.kind) :
    (graph.replaceBy node.id keeper.id).Sound excused := by
  rcases repeats with ⟨found, keeperFound, -, same⟩
  rcases isGeometry_of_sameGeometry same with ⟨geometry, keeperGeometry⟩
  refine Sound.withoutNode (sound.addEdges ?_ ?_) node.id
  · intro edge member
    rcases List.mem_map.mp member with ⟨old, oldMember, rfl⟩
    rcases mem_outEdges.mp oldMember with ⟨oldEdge, source⟩
    have oneOutput := ((sound.shaped _ _ found).geometry geometry).2
    have keeperOneOutput := ((sound.shaped _ _ keeperFound).geometry keeperGeometry).2
    have inRange := (sound.starts old oldEdge).outSocket_lt (by rwa [source])
    refine ⟨keeper, keeperFound, ?_⟩
    rw [keeperOneOutput, ← oneOutput]
    exact inRange
  · intro edge member
    rcases List.mem_map.mp member with ⟨old, oldMember, rfl⟩
    rcases mem_outEdges.mp oldMember with ⟨oldEdge, source⟩
    have lands := sound.lands_of_source oldEdge (by rwa [source]) strict
    exact Or.inr lands

theorem Unfed.replaceBy (unfed : graph.Unfed) (id keeper : NodeId) :
    (graph.replaceBy id keeper).Unfed := by
  refine Unfed.withoutNode (unfed.addEdges ?_) id
  intro edge member
  rcases List.mem_map.mp member with ⟨old, oldMember, rfl⟩
  exact ⟨old, (mem_outEdges.mp oldMember).1, rfl⟩

/-- Nothing leads into an accessor, so one that is read more often closes no cycle. -/
theorem Acyclic.replaceBy
    (acyclic : graph.Acyclic) (unfed : graph.Unfed) {node keeper : Node}
    (repeats : graph.Repeats node keeper) :
    (graph.replaceBy node.id keeper.id).Acyclic := by
  rcases repeats with ⟨found, keeperFound, -, same⟩
  have present := contains_of_node? found
  apply acyclic.of_unfed_source
  · rintro first ⟨-, secondPresent, edge, member, -, target⟩
    have different := (contains_replaceBy.mp secondPresent).1
    have still : (graph.replaceBy node.id keeper.id).node? edge.target = some keeper := by
      rw [target]
      exact node?_replaceBy_eq_some_iff.mpr ⟨different, keeperFound⟩
    exact (unfed.replaceBy node.id keeper.id).target_not_geometry member still
      (isGeometry_of_sameGeometry same).2
  · rintro first second ⟨firstPresent, secondPresent, edge, member, rfl, rfl⟩
    rcases ((mem_edges_replaceBy present).mp member).1 with old | ⟨old, -, -, rfl⟩
    · exact Or.inr
        ⟨(contains_replaceBy.mp firstPresent).2, (contains_replaceBy.mp secondPresent).2,
          edge, old, rfl, rfl⟩
    · exact Or.inl rfl

/-! ## The whole pass -/

/--
What is kept may mention the accessors seen so far, those of them that stay, and how many have
been removed.  An accessor that nothing before it repeats has to keep it, and so has one that is
replaced.
-/
theorem shareAccessors_induction {accessors : List Node}
    (Kept : List Node → List Node → Graph → Nat → Prop)
    (stays : ∀ seen keepers (current : Graph) count node, seen ++ [node] <+: accessors →
      keepers.find? (sameGeometry node) = none → Kept seen keepers current count →
      Kept (seen ++ [node]) (keepers ++ [node]) current count)
    (replaced : ∀ seen keepers (current : Graph) count node keeper,
      seen ++ [node] <+: accessors → keepers.find? (sameGeometry node) = some keeper →
      current.Repeats node keeper → Kept seen keepers current count →
      Kept (seen ++ [node]) keepers (current.replaceBy node.id keeper.id) (count + 1))
    {seen keepers others : List Node} {current : Graph} {count : Nat}
    (split : seen ++ others = accessors)
    (present : ∀ node ∈ keepers ++ others, current.node? node.id = some node)
    (distinct : ((keepers ++ others).map (·.id)).Nodup)
    (start : Kept seen keepers current count) :
    ∃ final, Kept accessors final (shareAccessors keepers others current).1
      (count + (shareAccessors keepers others current).2) := by
  induction others generalizing seen keepers current count with
  | nil =>
      rw [← split, List.append_nil]
      exact ⟨keepers, start⟩
  | cons node others induction =>
      have next : (seen ++ [node]) ++ others = accessors := by simpa using split
      rw [shareAccessors]
      split
      · rename_i unrepeated
        apply induction next
        · simpa using present
        · simpa using distinct
        · exact stays seen keepers current count node ⟨others, next⟩ unrepeated start
      · rename_i keeper keeperFound
        have keeperMember := List.mem_of_find?_eq_some keeperFound
        have same : sameGeometry node keeper = true := List.find?_some keeperFound
        have reordered : node.id ∉ (keepers ++ others).map (·.id) ∧
            ((keepers ++ others).map (·.id)).Nodup := by
          simpa only [List.map_append, List.map_cons, List.nodup_middle, List.nodup_cons]
            using distinct
        have apart : ∀ other ∈ keepers ++ others, other.id ≠ node.id := by
          intro other member equal
          exact reordered.1 (equal ▸ List.mem_map_of_mem member)
        have nodeFound := present node (by simp)
        have found := present keeper (List.mem_append_left _ keeperMember)
        have different := apart keeper (List.mem_append_left _ keeperMember)
        simp only
        rw [Nat.add_comm _ 1, ← Nat.add_assoc]
        apply induction next
        · intro other member
          refine node?_replaceBy_eq_some_iff.mpr ⟨apart other member, present other ?_⟩
          simp only [List.mem_append, List.mem_cons] at member ⊢
          exact member.imp_right Or.inr
        · exact reordered.2
        · apply replaced seen keepers current count node keeper
          · exact ⟨others, next⟩
          · exact keeperFound
          · exact ⟨nodeFound, found, different.symm, same⟩
          · exact start

/-- The geometry accessors of a graph, in order. -/
def accessors (graph : Graph) : List Node :=
  graph.nodes.filter isGeometry

/-- What holds of the graph at first, and is kept by every accessor, holds after the whole pass. -/
theorem mergeGeometry_run (Kept : List Node → List Node → Graph → Nat → Prop)
    (start : Kept [] [] graph 0)
    (stays : ∀ seen keepers (current : Graph) count node, seen ++ [node] <+: graph.accessors →
      keepers.find? (sameGeometry node) = none → Kept seen keepers current count →
      Kept (seen ++ [node]) (keepers ++ [node]) current count)
    (replaced : ∀ seen keepers (current : Graph) count node keeper,
      seen ++ [node] <+: graph.accessors → keepers.find? (sameGeometry node) = some keeper →
      current.Repeats node keeper → Kept seen keepers current count →
      Kept (seen ++ [node]) keepers (current.replaceBy node.id keeper.id) (count + 1)) :
    ∃ keepers, Kept graph.accessors keepers graph.mergeGeometry.1 graph.mergeGeometry.2 := by
  have distinct : (graph.accessors.map (·.id)).Nodup :=
    graph.nodup_nodeIds.sublist (List.filter_sublist.map _)
  have present : ∀ node ∈ graph.accessors, graph.node? node.id = some node :=
    fun node member => node?_of_mem (List.mem_filter.mp member).1
  have run : ∃ keepers, Kept graph.accessors keepers graph.mergeGeometry.1
      (0 + graph.mergeGeometry.2) :=
    shareAccessors_induction Kept stays replaced (List.nil_append _) present distinct start
  rwa [Nat.zero_add] at run

/-- What every replacement keeps, sharing the accessors keeps. -/
theorem mergeGeometry_induction (Kept : Graph → Prop)
    (step : ∀ (current : Graph) (node keeper : Node), current.Repeats node keeper →
      Kept current → Kept (current.replaceBy node.id keeper.id))
    (start : Kept graph) :
    Kept graph.mergeGeometry.1 := by
  have kept : ∃ _ : List Node, Kept graph.mergeGeometry.1 := by
    apply mergeGeometry_run fun _ _ current _ => Kept current
    · exact start
    · intro seen keepers current count node _ _ kept
      exact kept
    · intro seen keepers current count node keeper _ _ repeats kept
      exact step current node keeper repeats kept
  rcases kept with ⟨-, kept⟩
  exact kept

/-- Sharing accessors keeps a graph sound and free of cycles. -/
theorem Sound.mergeGeometry
    (strict : ∀ kind : Kind, kind.handsOn = true → ¬ excused kind)
    (sound : graph.Sound excused) (unfed : graph.Unfed) (acyclic : graph.Acyclic) :
    graph.mergeGeometry.1.Sound excused ∧ graph.mergeGeometry.1.Acyclic := by
  have kept : graph.mergeGeometry.1.Sound excused ∧ graph.mergeGeometry.1.Unfed ∧
      graph.mergeGeometry.1.Acyclic := by
    apply mergeGeometry_induction
      fun current => current.Sound excused ∧ current.Unfed ∧ current.Acyclic
    · rintro current node keeper repeats ⟨sound, unfed, acyclic⟩
      have handsOn := handsOn_of_isGeometry (isGeometry_of_sameGeometry repeats.same).1
      refine ⟨?_, ?_, ?_⟩
      · exact sound.replaceBy repeats (strict node.kind handsOn)
      · exact unfed.replaceBy node.id keeper.id
      · exact acyclic.replaceBy unfed repeats
    · exact ⟨sound, unfed, acyclic⟩
  exact ⟨kept.1, kept.2.2⟩

end NodeMaterial.Graph
