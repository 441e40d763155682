import NodeMaterial.Proofs.Order

/-!
# The least order, and what has no place in one

Of all orders in which every edge leads forward, the greedy one comes first when orders are
compared node by node.  As long as two orders go along, the next node of either may follow
what they share, and the greedy order has the least number that may follow.

Nodes behind a cycle are never placed, because each of them waits for another one.  All
other nodes are placed, because going back from them comes to an end.
-/

namespace NodeMaterial.Graph

open Relation

variable {graph : Graph}

/-- All nodes in an order in which every edge leads forward. -/
structure IsOrder (graph : Graph) (order : List NodeId) : Prop where
  perm : order.Perm graph.nodeIds
  forward : ∀ edge ∈ graph.edges, order.idxOf edge.source < order.idxOf edge.target

/-- An order before all others, where the first node that differs decides. -/
structure IsLeastOrder (graph : Graph) (order : List NodeId) : Prop extends
    graph.IsOrder order where
  least : ∀ other, graph.IsOrder other → order = other ∨ List.Lex (· < ·) order other

/-! ## The least order -/

/-- A node of an order may follow the nodes before it. -/
theorem IsOrder.mayFollow
    {before after : List NodeId} {id : NodeId} (isOrder : graph.IsOrder (before ++ id :: after)) :
    graph.MayFollow before id := by
  have nodup : (before ++ id :: after).Nodup :=
    isOrder.perm.nodup_iff.mpr graph.nodup_nodeIds
  have fresh : id ∉ before := fun early =>
    (List.nodup_append.mp nodup).2.2 id early id List.mem_cons_self rfl
  refine ⟨?_, fresh, fun edge member target => ?_⟩
  · exact .inl (mem_nodeIds.mp (isOrder.perm.mem_iff.mp (by simp)))
  · have less := isOrder.forward edge member
    rw [target, List.idxOf_append_of_notMem fresh, List.idxOf_cons_self, Nat.add_zero] at less
    by_contra late
    rw [List.idxOf_append_of_notMem late] at less
    exact Nat.not_lt_of_le (Nat.le_add_right _ _) less

/-- Two orders go along until the one has a smaller number than the other. -/
def Undercuts (order other : List NodeId) : Prop :=
  ∃ (shared after behind : List NodeId) (small large : NodeId),
    order = shared ++ small :: after ∧ other = shared ++ large :: behind ∧ small < large

/-- An order that undercuts another at a place comes before it. -/
theorem Undercuts.lex {order other : List NodeId} (undercuts : Undercuts order other) :
    List.Lex (· < ·) order other := by
  rcases undercuts with ⟨shared, after, behind, small, large, rfl, rfl, less⟩
  induction shared with
  | nil => exact .rel less
  | cons first shared induction => exact .cons induction

/-- A greedy order goes along with any other order, or undercuts it. -/
theorem Greedy.prefix_or_undercuts
    {order other : List NodeId} (greedy : graph.Greedy order) (isOrder : graph.IsOrder other)
    (short : order.length ≤ other.length) :
    (∃ after, order ++ after = other) ∨ Undercuts order other := by
  induction greedy with
  | nil => exact .inl ⟨other, rfl⟩
  | @snoc placed id _ _ first induction =>
      rw [List.length_append, List.length_singleton] at short
      rcases induction (Nat.le_of_succ_le short) with ⟨after, rfl⟩ |
          ⟨shared, after, behind, small, large, rfl, isOther, less⟩
      · cases after with
        | nil =>
            rw [List.append_nil] at short
            exact absurd short (Nat.not_succ_le_self _)
        | cons next after =>
            rcases Nat.lt_or_eq_of_le (first next isOrder.mayFollow) with less | rfl
            · exact .inr ⟨placed, [], after, id, next, rfl, rfl, less⟩
            · exact .inl ⟨after, List.append_assoc ..⟩
      · exact .inr ⟨shared, after ++ [id], behind, small, large, by simp, isOther, less⟩

/-- The order that is found comes before all others. -/
theorem topologicalOrder_isLeastOrder
    (closed : graph.Closed) {order : List NodeId} (ordered : graph.topologicalOrder = .ok order) :
    graph.IsLeastOrder order where
  perm := closed.topologicalOrder_perm ordered
  forward edge member := by
    have placed := (closed.topologicalOrder_perm ordered).mem_iff.mpr
      (mem_nodeIds.mpr (closed.targets edge member))
    exact (forward_of_ordered ordered member placed).2
  least other isOrder := by
    have length := ((closed.topologicalOrder_perm ordered).trans isOrder.perm.symm).length_eq
    have greedy := (topologicalOrder_eq_ok ordered).1.greedy
    rcases greedy.prefix_or_undercuts isOrder (Nat.le_of_eq length) with ⟨after, rfl⟩ | undercuts
    · rw [List.length_append] at length
      have nothing : after = [] := List.eq_nil_of_length_eq_zero (by omega)
      exact .inl (by rw [nothing, List.append_nil])
    · exact .inr undercuts.lex

/-! ## What is left -/

/-- No node behind a cycle gets a place: another one behind a cycle would have to be before it. -/
theorem Greedy.not_behindCycle
    {order : List NodeId} (greedy : graph.Greedy order) {id : NodeId} (placed : id ∈ order) :
    ¬ graph.BehindCycle id := by
  induction greedy generalizing id with
  | nil => cases placed
  | snoc _ next _ induction =>
      rcases List.mem_append.mp placed with before | last
      · exact induction before
      · intro behind
        rcases behind.exists_step with ⟨first, firstBehind, -, -, edge, member, rfl, target⟩
        have source := next.sources edge member (target.trans (List.mem_singleton.mp last))
        exact induction source firstBehind

/-- Only nodes behind a cycle are left: from any other node the way back would come to an end. -/
theorem Exhaustive.behindCycle
    (closed : graph.Closed) {order : List NodeId} (exhaustive : graph.Exhaustive order)
    {id : NodeId} (present : graph.contains id = true) (left : id ∉ order) :
    graph.BehindCycle id := by
  by_contra free
  have accessible := acc_of_not_behindCycle free
  induction accessible with
  | intro id _ induction =>
      refine exhaustive.stuck id ⟨.inl present, left, fun edge member target => ?_⟩
      by_contra sourceLeft
      have source := closed.sources edge member
      have step : graph.Step edge.source id := ⟨source, present, edge, member, rfl, target⟩
      exact induction edge.source step source sourceLeft fun behind => free (behind.step step)

theorem BehindCycle.present {id : NodeId} (behind : graph.BehindCycle id) :
    graph.contains id = true := by
  rcases behind.exists_step with ⟨first, -, step⟩
  exact step.target_present

/-- What is left over is what no exhaustive order places. -/
theorem topologicalOrder_eq_error
    {left : List NodeId} (failed : graph.topologicalOrder = .error left) :
    ∃ order, graph.Exhaustive order ∧ left = graph.nodeIds.filter fun id => !order.contains id := by
  simp only [topologicalOrder] at failed
  split at failed
  · cases failed
    exact ⟨_, exhaustive_run graph, rfl⟩
  · cases failed

/-! ## Whatever the graph -/

/--
A graph has an order if and only if it has no cycle; the order is then the least of those in which
every edge leads forward.  Otherwise exactly the nodes behind cycles are listed, by their numbers.
-/
theorem topologicalOrder_canonical (closed : graph.Closed) :
    ((∃ order, graph.topologicalOrder = .ok order) ↔ graph.Acyclic) ∧
      (∀ order, graph.topologicalOrder = .ok order → graph.IsLeastOrder order) ∧
      ∀ left, graph.topologicalOrder = .error left →
        left.Pairwise (· < ·) ∧ ∀ id, id ∈ left ↔ graph.BehindCycle id := by
  refine ⟨closed.acyclic_iff_exists_order.symm, fun order ordered => ?_, fun left failed => ?_⟩
  · exact topologicalOrder_isLeastOrder closed ordered
  · rcases topologicalOrder_eq_error failed with ⟨order, exhaustive, rfl⟩
    refine ⟨(ascending_nodeIds graph).filter _, fun id => ?_⟩
    simp only [List.mem_filter, mem_nodeIds, Bool.not_eq_true', ← Bool.not_eq_true,
      List.contains_iff_mem]
    constructor
    · rintro ⟨present, left⟩
      exact exhaustive.behindCycle closed present left
    · intro behind
      exact ⟨behind.present, fun placed => exhaustive.greedy.not_behindCycle placed behind⟩

/-- So many plain values, with edges between them. -/
def valuesWith (count : Nat) (edges : List Edge) : Graph :=
  ((List.replicate count { kind := .value, name := "value" }).foldl withNode empty).addEdges edges

/-- Values that feed earlier ones, one of them twice. -/
def upstream : Graph :=
  valuesWith 4 [⟨3, 0, 0, 0⟩, ⟨2, 1, 0, 0⟩, ⟨2, 1, 0, 0⟩]

/-- Two values that feed each other, one before and one behind them, and one that feeds itself. -/
def whirlpool : Graph :=
  valuesWith 6 [⟨0, 1, 0, 0⟩, ⟨1, 2, 0, 0⟩, ⟨2, 1, 0, 0⟩, ⟨2, 3, 0, 0⟩, ⟨4, 4, 0, 0⟩]

/-- The first graph has an order; of the second, the first and the last value can be placed only. -/
theorem topologicalOrder_canonical_whirlpool :
    (upstream.Closed ∧ upstream.topologicalOrder = .ok [2, 1, 3, 0] ∧
      upstream.IsLeastOrder [2, 1, 3, 0]) ∧
    whirlpool.Closed ∧ whirlpool.topologicalOrder = .error [1, 2, 3, 4] ∧
      ∀ id, id ∈ [1, 2, 3, 4] ↔ whirlpool.BehindCycle id := by
  have upstreamClosed : upstream.Closed := by decide +kernel
  have whirlpoolClosed : whirlpool.Closed := by decide +kernel
  have ordered : upstream.topologicalOrder = .ok [2, 1, 3, 0] := by decide +kernel
  have failed : whirlpool.topologicalOrder = .error [1, 2, 3, 4] := by decide +kernel
  rcases topologicalOrder_canonical upstreamClosed with ⟨-, least, -⟩
  rcases topologicalOrder_canonical whirlpoolClosed with ⟨-, -, left⟩
  exact ⟨⟨upstreamClosed, ordered, least _ ordered⟩, whirlpoolClosed, failed, (left _ failed).2⟩

end NodeMaterial.Graph
