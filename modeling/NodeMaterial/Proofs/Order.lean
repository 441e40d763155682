import NodeMaterial.Proofs.Paths
import NodeMaterial.Proofs.Sorting

/-!
# Acyclic graphs are those that have an order

The order of a graph is greedy and nothing may follow it.  If all nodes have a place, each
edge leads forward, so no path comes back.  A node without a place is fed by another one, and
in an acyclic graph going back from node to node would come to an end.

Whatever edges lead to gets a place in the order.  It has just the nodes of the graph if edges
lead to nodes only.
-/

namespace NodeMaterial.Graph

open Relation

variable {graph : Graph}

/-- An order that is given goes as far as it can, and has all nodes. -/
theorem topologicalOrder_eq_ok
    {order : List NodeId} (ordered : graph.topologicalOrder = .ok order) :
    graph.Exhaustive order ∧ graph.nodeCount ≤ order.length := by
  simp only [topologicalOrder] at ordered
  split at ordered
  · cases ordered
  · rename_i enough
    cases ordered
    exact ⟨exhaustive_run graph, Nat.le_of_not_lt enough⟩

/-- What leads to a node of the order has an earlier place in it. -/
theorem forward_of_ordered
    {order : List NodeId} (ordered : graph.topologicalOrder = .ok order) {edge : Edge}
    (member : edge ∈ graph.edges) (target : edge.target ∈ order) :
    edge.source ∈ order ∧ order.idxOf edge.source < order.idxOf edge.target :=
  (topologicalOrder_eq_ok ordered).1.greedy.forward member target

/-- An order without anything else than nodes has all of them. -/
theorem topologicalOrder_perm
    {order : List NodeId} (ordered : graph.topologicalOrder = .ok order)
    (present : ∀ id ∈ order, graph.contains id = true) :
    order.Perm graph.nodeIds := by
  obtain ⟨exhaustive, enough⟩ := topologicalOrder_eq_ok ordered
  have subset : order ⊆ graph.nodeIds := fun id placed => mem_nodeIds.mpr (present id placed)
  have length : graph.nodeIds.length ≤ order.length := by
    rw [nodeIds, List.length_map]
    exact enough
  exact (List.subperm_of_subset exhaustive.greedy.nodup subset).perm_of_length_le length

theorem Closed.contains_of_vertex
    (closed : graph.Closed) {id : NodeId} (vertex : graph.Vertex id) :
    graph.contains id = true := by
  rcases vertex with present | ⟨edge, member, rfl⟩
  · exact present
  · exact closed.targets edge member

/-- Where edges connect nodes, an order has each node once and nothing else. -/
theorem Closed.topologicalOrder_perm
    (closed : graph.Closed) {order : List NodeId} (ordered : graph.topologicalOrder = .ok order) :
    order.Perm graph.nodeIds :=
  Graph.topologicalOrder_perm ordered fun _ placed =>
    closed.contains_of_vertex ((topologicalOrder_eq_ok ordered).1.greedy.vertex placed)

/-- In an acyclic graph a node without a place would be fed by an earlier one without a place. -/
theorem Acyclic.mem_of_exhaustive
    (acyclic : graph.Acyclic) (sources : ∀ edge ∈ graph.edges, graph.contains edge.source = true)
    {order : List NodeId} (exhaustive : graph.Exhaustive order) (id : NodeId)
    (present : graph.contains id = true) :
    id ∈ order := by
  induction id using acyclic.wellFounded.induction with
  | h id induction =>
      by_contra fresh
      refine exhaustive.stuck id ⟨.inl present, fresh, fun edge member target => ?_⟩
      have source := sources edge member
      exact induction edge.source ⟨source, present, edge, member, rfl, target⟩ source

/-- An acyclic graph has an order in which every node has a place. -/
theorem Acyclic.exists_order
    (acyclic : graph.Acyclic)
    (sources : ∀ edge ∈ graph.edges, graph.contains edge.source = true) :
    ∃ order, graph.topologicalOrder = .ok order ∧
      ∀ id, graph.contains id = true → id ∈ order := by
  have placed := acyclic.mem_of_exhaustive sources (exhaustive_run graph)
  refine ⟨_, ?_, placed⟩
  have subset : graph.nodeIds ⊆ (graph.unsorted.run graph.successors).order :=
    fun id member => placed id (mem_nodeIds.mp member)
  have enough := (List.subperm_of_subset graph.nodup_nodeIds subset).length_le
  rw [nodeIds, List.length_map] at enough
  exact if_neg (Nat.not_lt_of_le enough)

/-- The order decides whether a graph is acyclic. -/
theorem Closed.acyclic_iff_exists_order (closed : graph.Closed) :
    graph.Acyclic ↔ ∃ order, graph.topologicalOrder = .ok order := by
  constructor
  · intro acyclic
    obtain ⟨order, ordered, -⟩ := acyclic.exists_order closed.sources
    exact ⟨order, ordered⟩
  · rintro ⟨order, ordered⟩ id cycle
    have perm := closed.topologicalOrder_perm ordered
    have forward : ∀ first second, TransGen graph.Step first second →
        order.idxOf first < order.idxOf second := by
      have step : ∀ first second, graph.Step first second →
          order.idxOf first < order.idxOf second := by
        rintro first second ⟨-, present, edge, member, rfl, rfl⟩
        have placed := perm.mem_iff.mpr (mem_nodeIds.mpr present)
        exact (forward_of_ordered ordered member placed).2
      intro first second chain
      induction chain with
      | single last => exact step _ _ last
      | tail _ last induction => exact induction.trans (step _ _ last)
    exact Nat.lt_irrefl _ (forward id id cycle)

/-! ## Deciding whether a graph is acyclic -/

/-- The graph without the edges that do not lead from a node to a node. -/
def inner (graph : Graph) : Graph :=
  graph.filterEdges fun edge => graph.contains edge.source && graph.contains edge.target

theorem mem_edges_inner {edge : Edge} :
    edge ∈ graph.inner.edges ↔ edge ∈ graph.edges ∧
      graph.contains edge.source = true ∧ graph.contains edge.target = true := by
  rw [inner, edges_filterEdges, List.mem_filter, Bool.and_eq_true]

theorem closed_inner (graph : Graph) : graph.inner.Closed where
  sources _ member := (mem_edges_inner.mp member).2.1
  targets _ member := (mem_edges_inner.mp member).2.2

/-- Steps are between nodes, so the other edges do not matter for cycles. -/
theorem step_inner (graph : Graph) : graph.inner.Step = graph.Step := by
  funext first second
  refine propext ⟨?_, ?_⟩
  · rintro ⟨source, target, edge, member, rfl, rfl⟩
    exact ⟨source, target, edge, (mem_edges_inner.mp member).1, rfl, rfl⟩
  · rintro ⟨source, target, edge, member, rfl, rfl⟩
    exact ⟨source, target, edge, mem_edges_inner.mpr ⟨member, source, target⟩, rfl, rfl⟩

/-- Cycles run through nodes only, so edges that hang loose do not matter. -/
theorem acyclic_inner : graph.inner.Acyclic ↔ graph.Acyclic := by
  rw [Acyclic, Acyclic, step_inner]

instance (graph : Graph) : Decidable graph.Acyclic :=
  decidable_of_iff (graph.inner.topologicalOrder.isOk = true) <| by
    rw [← acyclic_inner, (closed_inner graph).acyclic_iff_exists_order]
    cases graph.inner.topologicalOrder with
    | error left => simp [Except.isOk, Except.toBool]
    | ok order => simp [Except.isOk, Except.toBool]

end NodeMaterial.Graph
