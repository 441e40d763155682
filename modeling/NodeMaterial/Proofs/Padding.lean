import NodeMaterial.Proofs.Recording
import NodeMaterial.Proofs.Threading

/-!
# Nodes behind a graph that do not lead into it

A padded graph has further nodes behind those of a graph, and further edges that all lead
to further nodes.  No path leads back, so pruning to a node of the first graph leaves the
same in both, and from then on the stages cannot tell them apart: the padded graph has
only given out more numbers.
-/

namespace NodeMaterial.Graph

open Relation

/-! ## Skipped numbers -/

/-- The graph with several numbers skipped. -/
def skipMany (graph : Graph) (count : Nat) : Graph :=
  { graph with
    nextId := graph.nextId + count
    issued := fun node member => Nat.lt_add_right count (graph.issued node member) }

theorem skipMany_succ (graph : Graph) (count : Nat) :
    graph.skipMany (count + 1) = (graph.skipMany count).skip :=
  rfl

/-- Skipped numbers stay skipped from elimination on. -/
theorem finish_skipMany (graph : Graph) (count : Nat) :
    (graph.skipMany count).finish = graph.finish.map (skipMany · count) := by
  induction count with
  | zero =>
      change graph.finish = graph.finish.map id
      rw [Except.map_id]
      rfl
  | succ count induction =>
      rw [skipMany_succ, finish_skip, induction]
      cases graph.finish with
      | error failure => rfl
      | ok result => rfl

/-- Warnings of an elimination are about selectors alone. -/
theorem warnings_eliminate (graph : Graph) :
    graph.eliminate.warnings =
      (bypassSelectors (graph.idsOfKind (.group .replace))
        ((graph.idsOfKind .reroute).foldl bypassReroute graph)).2 := by
  rw [eliminate]
  dsimp only
  rcases inlineHeights _ _ with ⟨inlined, _ | failure⟩
  · dsimp only
    rw [pruneAfter.eq_def]
    split
    · rfl
    · cases inlined.prune <;> rfl
  · rfl

theorem warnings_eliminate_skip (graph : Graph) :
    graph.skip.eliminate.warnings = graph.eliminate.warnings := by
  have sameKinds : graph.skip.idsOfKind = graph.idsOfKind := rfl
  rw [warnings_eliminate, warnings_eliminate, sameKinds, foldl_bypassReroute_skip,
    bypassSelectors_skip]

theorem warnings_eliminate_skipMany (graph : Graph) (count : Nat) :
    (graph.skipMany count).eliminate.warnings = graph.eliminate.warnings := by
  induction count with
  | zero => rfl
  | succ count induction => rw [skipMany_succ, warnings_eliminate_skip, induction]

/-! ## Padded graphs -/

/-- A graph with further nodes behind its own, and further edges that lead to these alone. -/
structure Padded (graph padded : Graph) (added : List Node) (extra : List Edge) : Prop where
  nodes : padded.nodes = graph.nodes ++ added
  edges : padded.edges.Perm (graph.edges ++ extra)
  astray : ∀ edge ∈ extra, graph.contains edge.target = false
  closed : graph.Closed
  nextId : graph.nextId ≤ padded.nextId
  output : padded.output = graph.output

namespace Padded

variable {graph padded : Graph} {added : List Node} {extra : List Edge} {root : NodeId}

/-- The further nodes have numbers of their own. -/
theorem absent (padding : Padded graph padded added extra) {node : Node} (member : node ∈ added) :
    graph.contains node.id = false := by
  have ascending := padded.ascending
  rw [padding.nodes, List.pairwise_append] at ascending
  rw [contains, List.any_eq_false]
  intro old oldMember same
  have smaller := ascending.2.2 old oldMember node member
  exact Nat.ne_of_lt smaller (beq_iff_eq.mp same)

/-- Nodes of the graph are found as before. -/
theorem node?_eq (padding : Padded graph padded added extra) {id : NodeId}
    (present : graph.contains id = true) : padded.node? id = graph.node? id := by
  rcases contains_iff.mp present with ⟨node, found⟩
  rcases node?_eq_some_iff.mp found with ⟨member, isId⟩
  rw [found, node?_eq_some_iff, padding.nodes]
  exact ⟨List.mem_append_left _ member, isId⟩

theorem contains_of_contains (padding : Padded graph padded added extra) {id : NodeId}
    (present : graph.contains id = true) : padded.contains id = true := by
  rcases contains_iff.mp present with ⟨node, found⟩
  exact contains_of_node? ((padding.node?_eq present).trans found)

/-- An edge into a node of the graph is an edge of the graph. -/
theorem mem_edges_of_target (padding : Padded graph padded added extra) {edge : Edge}
    (member : edge ∈ padded.edges) (present : graph.contains edge.target = true) :
    edge ∈ graph.edges := by
  rcases List.mem_append.mp (padding.edges.mem_iff.mp member) with old | new
  · exact old
  · rw [padding.astray edge new] at present
    cases present

theorem drives_eq (padding : Padded graph padded added extra) {edge : Edge}
    (present : graph.contains edge.source = true) : padded.drives edge = graph.drives edge := by
  rw [drives, drives, padding.node?_eq present]

/-- The companion of a further edge leads to a further node as well. -/
theorem completeEdges (padding : Padded graph padded added extra) :
    Padded graph.completeEdges.1 padded.completeEdges.1 added
      (extra ++ (extra.filter padded.drives).map companion) where
  nodes := by
    rw [Graph.completeEdges, Graph.completeEdges, nodes_addEdges, nodes_addEdges]
    exact padding.nodes
  edges := by
    have driven : graph.edges.filter padded.drives = graph.edges.filter graph.drives :=
      List.filter_congr fun edge member => padding.drives_eq (padding.closed.sources edge member)
    have companions := (padding.edges.filter padded.drives).map companion
    rw [List.filter_append, driven, List.map_append] at companions
    rw [List.perm_iff_count]
    intro edge
    rw [padded.edges_completeEdges.count_eq, List.count_append, padding.edges.count_eq,
      companions.count_eq, List.count_append, List.count_append, List.count_append,
      graph.edges_completeEdges.count_eq, List.count_append, List.count_append]
    lia
  astray edge member := by
    rw [Graph.completeEdges, contains_addEdges]
    rcases List.mem_append.mp member with old | new
    · exact padding.astray edge old
    · rcases List.mem_map.mp new with ⟨old, driven, rfl⟩
      exact padding.astray old (List.mem_filter.mp driven).1
  closed := by
    have parallel : ∀ edge ∈ graph.companions,
        ∃ old ∈ graph.edges, old.source = edge.source ∧ old.target = edge.target := by
      intro edge member
      rcases mem_companions.mp member with ⟨_, _, old, oldMember, _, _, rfl⟩
      exact ⟨old, oldMember, rfl, rfl⟩
    apply padding.closed.addEdges
    · intro edge member
      rcases parallel edge member with ⟨old, oldMember, source, -⟩
      exact source ▸ padding.closed.sources old oldMember
    · intro edge member
      rcases parallel edge member with ⟨old, oldMember, -, target⟩
      exact target ▸ padding.closed.targets old oldMember
  nextId := by
    rw [Graph.completeEdges, Graph.completeEdges, nextId_addEdges, nextId_addEdges]
    exact padding.nextId
  output := by
    rw [Graph.completeEdges, Graph.completeEdges, output_addEdges, output_addEdges]
    exact padding.output

theorem setOutput (padding : Padded graph padded added extra) (root : NodeId) :
    Padded (graph.setOutput root) (padded.setOutput root) added extra where
  nodes := padding.nodes
  edges := padding.edges
  astray := padding.astray
  closed := ⟨padding.closed.sources, padding.closed.targets⟩
  nextId := padding.nextId
  output := rfl

/-- Paths to a node of the graph stay inside the graph. -/
theorem reaches_iff (padding : Padded graph padded added extra)
    (present : graph.contains root = true) {id : NodeId} :
    padded.Reaches id root ↔ graph.Reaches id root := by
  constructor
  · intro path
    -- Back from the root, each edge enters a node of the graph and so starts at one.
    induction path using ReflTransGen.head_induction_on with
    | refl => exact .refl
    | head step _ induction =>
        rcases step with ⟨-, -, edge, member, rfl, rfl⟩
        have target := induction.source_present present
        have old := padding.mem_edges_of_target member target
        exact induction.head ⟨padding.closed.sources edge old, target, edge, old, rfl, rfl⟩
  · apply ReflTransGen.mono
    rintro _ _ ⟨sourcePresent, targetPresent, edge, member, rfl, rfl⟩
    have kept : edge ∈ padded.edges := padding.edges.mem_iff.mpr (List.mem_append_left _ member)
    exact ⟨padding.contains_of_contains sourcePresent, padding.contains_of_contains targetPresent,
      edge, kept, rfl, rfl⟩

theorem mem_ancestors_iff (padding : Padded graph padded added extra)
    (present : graph.contains root = true) {id : NodeId} :
    id ∈ padded.ancestors root ↔ id ∈ graph.ancestors root := by
  rw [mem_ancestors, mem_ancestors, padding.reaches_iff present]
  simp only [present, padding.contains_of_contains present, true_and]

/-- Pruning to a node of the graph takes away all that is further. -/
theorem retain_ancestors (padding : Padded graph padded added extra)
    (present : graph.contains root = true) :
    padded.retain (padded.ancestors root) =
      (graph.retain (graph.ancestors root)).skipMany (padded.nextId - graph.nextId) := by
  have ancestorPresent : ∀ {id}, id ∈ graph.ancestors root → graph.contains id = true :=
    fun ancestor => (mem_ancestors.mp ancestor).2.source_present present
  have addedGone : added.filter (·.id ∈ graph.ancestors root) = [] := by
    rw [List.filter_eq_nil_iff]
    intro node member ancestor
    have inside := ancestorPresent (of_decide_eq_true ancestor)
    rw [padding.absent member] at inside
    cases inside
  have extraGone : (extra.filter fun edge =>
      edge.source ∈ graph.ancestors root ∧ edge.target ∈ graph.ancestors root) = [] := by
    rw [List.filter_eq_nil_iff]
    intro edge member both
    have inside := ancestorPresent (of_decide_eq_true both).2
    rw [padding.astray edge member] at inside
    cases inside
  apply eq_of_views
  · change _ = (graph.retain _).nodes
    rw [nodes_retain, nodes_retain, padding.nodes, List.filter_append]
    simp only [padding.mem_ancestors_iff present, addedGone, List.append_nil]
  · change List.Perm _ (graph.retain _).edges
    rw [edges_retain, edges_retain]
    simp only [padding.mem_ancestors_iff present]
    refine (padding.edges.filter _).trans (List.Perm.of_eq ?_)
    rw [List.filter_append, extraGone, List.append_nil]
  · exact (Nat.add_sub_of_le padding.nextId).symm
  · change padded.output.filter _ = graph.output.filter _
    rw [padding.output]
    congr 1
    funext id
    rw [Bool.eq_iff_iff, List.contains_iff_mem, List.contains_iff_mem]
    exact padding.mem_ancestors_iff present

section Stages

variable {tree paddedTree : Authored.Tree}

/-- Pruning to the output fails in both graphs, or leaves the same in both. -/
theorem pruneTo_cases (padding : Padded graph padded added extra)
    (sameOutput : padded.findOutput paddedTree = graph.findOutput tree) :
    (∃ failure, padded.pruneTo paddedTree = .error failure ∧
        graph.pruneTo tree = .error failure) ∨
      ∃ pruned paddedCount count,
        padded.pruneTo paddedTree =
            .ok (pruned.skipMany (padded.nextId - graph.nextId), paddedCount) ∧
          graph.pruneTo tree = .ok (pruned, count) := by
  rw [pruneTo, pruneTo, sameOutput]
  cases located : graph.findOutput tree with
  | error failure => exact Or.inl ⟨failure, rfl, rfl⟩
  | ok root =>
      have present : (graph.setOutput root).contains root = true := contains_of_findOutput located
      have same := (padding.setOutput root).retain_ancestors present
      exact Or.inr ⟨_, _, _, congrArg Except.ok (Prod.ext same rfl), rfl⟩

/-- Pruning drops all that was added; what remains is the graph with numbers skipped. -/
theorem settle (padding : Padded graph padded added extra)
    (sameOutput : padded.findOutput paddedTree = graph.findOutput tree) :
    padded.settle paddedTree =
      (graph.settle tree).map (skipMany · (padded.nextId - graph.nextId)) := by
  rw [Graph.settle, Graph.settle]
  rcases padding.pruneTo_cases sameOutput with
    ⟨failure, first, second⟩ | ⟨pruned, paddedCount, count, first, second⟩
  · rw [first, second]
    rfl
  · rw [first, second]
    exact finish_skipMany pruned _

/-- Nothing that was added is warned about. -/
theorem warnings (padding : Padded graph padded added extra)
    (sameOutput : padded.findOutput paddedTree = graph.findOutput tree) :
    padded.warnings paddedTree = graph.warnings tree := by
  rw [Graph.warnings, Graph.warnings]
  rcases padding.pruneTo_cases sameOutput with
    ⟨failure, first, second⟩ | ⟨pruned, paddedCount, count, first, second⟩
  · rw [first, second]
  · rw [first, second]
    exact warnings_eliminate_skipMany pruned _

end Stages

end Padded

end NodeMaterial.Graph
