import Mathlib.Data.Set.Card
import NodeMaterial.Proofs.Liveness

/-!
# Pruning keeps what leads to the output

The two searches list the nodes before a node and the nodes behind it, each of them once
and in the order of their numbers.  One search finds the one of two nodes exactly if the
other search finds the other.

Pruning keeps the nodes before the output.  An edge into a kept node comes from a kept
node, since its source leads to the output through it; so the edges that stay are those
whose targets stay.  All that is left leads to the output, and pruning it again changes
nothing.
-/

namespace NodeMaterial.Graph

open Relation

variable {graph : Graph} {output : NodeId}

/-! ## Searching -/

/-- A list has exactly the nodes with a property, in the order of their numbers. -/
structure Lists (graph : Graph) (nodes : List NodeId) (property : NodeId → Prop) : Prop where
  ascending : nodes.Pairwise (· < ·)
  mem_iff : ∀ id, id ∈ nodes ↔ graph.contains id = true ∧ property id

/-- The ancestors of a node are the nodes that reach it, in ascending order. -/
theorem lists_ancestors (graph : Graph) (root : NodeId) :
    graph.Lists (graph.ancestors root) (graph.Reaches · root) where
  ascending := ancestors_ascending graph root
  mem_iff id := by
    rw [mem_ancestors]
    exact and_congr_left fun path => path.present_iff.symm

/-- The descendants of a node are the nodes that it reaches, in ascending order. -/
theorem lists_descendants (graph : Graph) (root : NodeId) :
    graph.Lists (graph.descendants root) (graph.Reaches root) where
  ascending := descendants_ascending graph root
  mem_iff id := by
    rw [mem_descendants]
    exact and_congr_left fun path => path.present_iff

theorem mem_ancestors_iff_mem_descendants {first second : NodeId} :
    first ∈ graph.ancestors second ↔ second ∈ graph.descendants first := by
  rw [mem_ancestors, mem_descendants]
  exact and_congr_left fun path => path.present_iff.symm

/-! ## Keeping -/

/-- What is left of a graph are the nodes that lead to its output, and the edges into them. -/
structure Prunes (graph : Graph) (root : NodeId) (pruned : Graph) (count : Nat) : Prop where
  nodes : ∀ id node, pruned.node? id = some node ↔
    graph.node? id = some node ∧ graph.Reaches id root
  edges : ∀ edge, graph.Reaches edge.target root →
    pruned.multiplicity edge = graph.multiplicity edge
  others : ∀ edge, ¬ graph.Reaches edge.target root → pruned.multiplicity edge = 0
  output : pruned.output = some root
  count : count = Set.ncard { id | graph.contains id = true ∧ ¬ graph.Reaches id root }

theorem mem_ancestors_of_present (present : graph.contains output = true) {id : NodeId} :
    id ∈ graph.ancestors output ↔ graph.Reaches id output :=
  mem_ancestors.trans (and_iff_right present)

/-- An edge into a node that leads to the output comes from such a node. -/
theorem Closed.reaches_source (closed : graph.Closed) {edge : Edge} (member : edge ∈ graph.edges)
    (path : graph.Reaches edge.target output) : graph.Reaches edge.source output :=
  path.head ⟨closed.sources edge member, closed.targets edge member, edge, member, rfl, rfl⟩

/-- An edge is kept with all its occurrences, or not at all. -/
theorem multiplicity_retain (graph : Graph) (kept : List NodeId) (edge : Edge) :
    (graph.retain kept).multiplicity edge =
      if edge.source ∈ kept ∧ edge.target ∈ kept then graph.multiplicity edge else 0 := by
  rw [multiplicity_eq_count, multiplicity_eq_count, edges_retain]
  split
  · rename_i both
    exact List.count_filter (decide_eq_true both)
  · rename_i either
    refine List.count_eq_zero.mpr fun member => either ?_
    exact of_decide_eq_true (List.mem_filter.mp member).2

/-- The nodes that are not kept are counted. -/
theorem nodeCount_sub_retain (graph : Graph) (kept : List NodeId) :
    graph.nodeCount - (graph.retain kept).nodeCount =
      Set.ncard { id | graph.contains id = true ∧ id ∉ kept } := by
  let dropped := graph.nodeIds.filter (· ∉ kept)
  have distinct : dropped.Nodup := graph.nodup_nodeIds.filter _
  have members : { id | graph.contains id = true ∧ id ∉ kept } = ↑dropped.toFinset := by
    ext id
    simp [dropped, mem_nodeIds]
  have split : graph.nodeCount = (graph.retain kept).nodeCount + dropped.length := by
    have parts := List.length_eq_length_filter_add (l := graph.nodeIds) (· ∈ kept)
    simpa [dropped, nodeIds, nodeCount, nodes_retain, List.filter_map, Function.comp_def]
      using parts
  rw [members, Set.ncard_coe_finset, List.toFinset_card_of_nodup distinct, split,
    Nat.add_sub_cancel_left]

/-- Keeping the ancestors of the output keeps what pruning has to keep. -/
theorem prunes_retain (closed : graph.Closed) (isOutput : graph.output = some output)
    (present : graph.contains output = true) :
    graph.Prunes output (graph.retain (graph.ancestors output))
      (graph.nodeCount - (graph.retain (graph.ancestors output)).nodeCount) where
  nodes id node := by
    rw [node?_retain_eq_some_iff, mem_ancestors_of_present present]
    exact and_comm
  edges edge path := by
    rw [multiplicity_retain]
    split
    · rfl
    · rename_i dropped
      refine (multiplicity_eq_zero_iff.mpr fun member => dropped ⟨?_, ?_⟩).symm
      · exact (mem_ancestors_of_present present).mpr (closed.reaches_source member path)
      · exact (mem_ancestors_of_present present).mpr path
  others edge dead := by
    rw [multiplicity_retain]
    exact if_neg fun kept => dead ((mem_ancestors_of_present present).mp kept.2)
  output := by
    have kept := (mem_ancestors_of_present present).mpr ReflTransGen.refl
    rw [output_retain, isOutput, Option.filter_some_pos (List.contains_iff_mem.mpr kept)]
  count := by
    rw [nodeCount_sub_retain]
    simp only [mem_ancestors_of_present present]

/-! ## The whole pass -/

/--
Searching back from a node finds what leads to it, searching forth what it leads to.  Pruning keeps
what leads to the output and counts the rest, and it finds nothing to drop a second time.
-/
theorem prune_exact (closed : graph.Closed) (isOutput : graph.output = some output)
    (present : graph.contains output = true) :
    (∀ root, graph.Lists (graph.ancestors root) (graph.Reaches · root)) ∧
      (∀ root, graph.Lists (graph.descendants root) (graph.Reaches root)) ∧
      (∀ first second, first ∈ graph.ancestors second ↔ second ∈ graph.descendants first) ∧
      ∃ pruned count, graph.prune = .ok (pruned, count) ∧ graph.Prunes output pruned count ∧
        pruned.prune = .ok (pruned, 0) := by
  refine ⟨lists_ancestors graph, lists_descendants graph,
    fun _ _ => mem_ancestors_iff_mem_descendants, ?_⟩
  refine ⟨graph.retain (graph.ancestors output), _, ?_, prunes_retain closed isOutput present, ?_⟩
  · rw [prune, isOutput]
    rfl
  · exact (live_retain isOutput present).prune (closed.retain _)

/-- Two values that feed each other and, twice, the output; two more that only feed each other. -/
def deadBranch : Graph :=
  let value : Node := { kind := .value, name := "value" }
  let values : Graph := (List.replicate 5 value).foldl withNode empty
  (values.addEdges [⟨0, 1, 0, 0⟩, ⟨1, 0, 0, 0⟩, ⟨1, 3, 0, 0⟩, ⟨1, 3, 0, 0⟩, ⟨1, 2, 0, 0⟩,
    ⟨2, 4, 0, 0⟩, ⟨4, 2, 0, 0⟩]).setOutput 3

/-- Two of five nodes are dead, one of them fed by a live one. -/
theorem prune_exact_deadBranch :
    (deadBranch.Closed ∧ deadBranch.output = some 3 ∧ deadBranch.contains 3 = true) ∧
      deadBranch.ancestors 3 = [0, 1, 3] ∧ deadBranch.descendants 2 = [2, 4] ∧
      deadBranch.prune.map (·.2) = .ok 2 ∧
      ∃ pruned count, deadBranch.prune = .ok (pruned, count) ∧ deadBranch.Prunes 3 pruned count ∧
        pruned.prune = .ok (pruned, 0) := by
  have closed : deadBranch.Closed := by decide +kernel
  have isOutput : deadBranch.output = some 3 := by decide +kernel
  have present : deadBranch.contains 3 = true := by decide +kernel
  rcases prune_exact closed isOutput present with ⟨-, -, -, pruned⟩
  exact ⟨⟨closed, isOutput, present⟩, by decide +kernel, by decide +kernel, by decide +kernel,
    pruned⟩

end NodeMaterial.Graph
