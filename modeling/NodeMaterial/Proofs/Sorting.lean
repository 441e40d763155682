import NodeMaterial.Graph.Order
import NodeMaterial.Proofs.GraphOperations

/-!
# What counting edges places

A node may follow some placed nodes if it is not among them and every edge into it comes
from one of them.  An order is greedy if each of its nodes is the first, in the order of
numbers, that may follow the nodes before it.

While an order is made, some occurrences of edges are still pending: those that leave nodes
without a place, and those that leave the last node and have not been taken off yet.  The
number kept for a node is the number of pending edges into it, and the nodes that are ready
are those without a place into which no pending edge leads.  One occurrence after the other
is taken off, so in the end the order is greedy and no node may follow it.

A number that only edges lead to is counted like a node.
-/

namespace NodeMaterial

/-! ## Tables that are filled from edges -/

namespace EdgeBag

/-- Counting adds up the occurrences of the edges into each node. -/
theorem get?_foldl_degrees (entries : List (Edge × Nat)) (table : Table Nat) (id : NodeId) :
    (entries.foldl (fun degrees entry => degrees.update 0 entry.1.target (· + entry.2))
        table).get? id =
      if entries.any (·.1.target == id) then
        some ((table.get? id).getD 0 + (expand entries).countP (·.target == id))
      else
        table.get? id := by
  induction entries generalizing table with
  | nil => rfl
  | cons entry others induction =>
      rw [List.foldl_cons, induction, Table.get?_update, expand_cons, List.countP_append,
        List.countP_replicate, List.any_cons]
      by_cases here : entry.1.target = id
      · simp only [here, if_true, Option.getD_some, beq_self_eq_true, Bool.true_or]
        split
        · rw [Nat.add_assoc]
        · rename_i nowhere
          have none : (expand others).countP (·.target == id) = 0 := by
            rw [List.countP_eq_zero]
            intro edge member
            rcases mem_expand member with ⟨other, otherMember, rfl⟩
            simp only [List.any_eq_true, not_exists, not_and] at nowhere
            exact nowhere other otherMember
          rw [none, Nat.add_zero]
      · have elsewhere : (entry.1.target == id) = false := beq_eq_false_iff_ne.mpr here
        rw [elsewhere, Bool.false_or, if_neg (Ne.symm here), if_neg Bool.false_ne_true,
          Nat.zero_add]

theorem nodup_foldl_degrees (entries : List (Edge × Nat)) {table : Table Nat}
    (nodup : table.ids.Nodup) :
    (Table.ids (entries.foldl
      (fun degrees entry => degrees.update 0 entry.1.target (· + entry.2)) table)).Nodup := by
  induction entries generalizing table with
  | nil => exact nodup
  | cons entry others induction => exact induction (Table.nodup_update 0 _ _ nodup)

end EdgeBag

namespace Sorting

/-- Counting down a number that is not zero yet. -/
theorem release_eq {state : Sorting} {id : NodeId} {left : Nat}
    (found : state.degrees.get? id = some (left + 1)) :
    state.release id =
      { state with
        degrees := state.degrees.update 0 id fun _ => left
        ready := if left = 0 then NodeSet.insert id state.ready else state.ready } := by
  simp only [release, found]

theorem order_release (state : Sorting) (id : NodeId) : (state.release id).order = state.order := by
  unfold release
  split <;> rfl

theorem order_foldl_release (ids : List NodeId) (state : Sorting) :
    (ids.foldl release state).order = state.order := by
  induction ids generalizing state with
  | nil => rfl
  | cons id others induction => rw [List.foldl_cons, induction, order_release]

end Sorting

namespace Graph

variable {graph : Graph}

/-- A node, or a number that an edge leads to. -/
def Vertex (graph : Graph) (id : NodeId) : Prop :=
  graph.contains id = true ∨ ∃ edge ∈ graph.edges, edge.target = id

theorem any_target_entries {id : NodeId} :
    graph.bag.entries.any (·.1.target == id) = true ↔ ∃ edge ∈ graph.edges, edge.target = id := by
  simp only [List.any_eq_true, beq_iff_eq, edges, EdgeBag.mem_occurrences]
  constructor
  · rintro ⟨entry, member, target⟩
    exact ⟨entry.1, ⟨entry, member, rfl⟩, target⟩
  · rintro ⟨edge, ⟨entry, member, rfl⟩, target⟩
    exact ⟨entry, member, target⟩

theorem get?_zeros (ids : List NodeId) (id : NodeId) :
    Table.get? (ids.map (·, 0)) id = if id ∈ ids then some 0 else none := by
  induction ids with
  | nil => rfl
  | cons first others induction =>
      rw [List.map_cons, Table.get?_cons, induction]
      by_cases same : first = id
      · simp [same]
      · simp [same, Ne.symm same]

/-- At first a vertex has the number of edges into it, and nothing else has a number. -/
theorem get?_inDegrees (graph : Graph) (id : NodeId) :
    (graph.Vertex id → graph.inDegrees.get? id = some (graph.edges.countP (·.target == id))) ∧
      (graph.inDegrees.get? id ≠ none → graph.Vertex id) := by
  have counted := EdgeBag.get?_foldl_degrees graph.bag.entries (graph.nodeIds.map (·, 0)) id
  rw [get?_zeros] at counted
  rw [inDegrees, counted]
  by_cases entered : ∃ edge ∈ graph.edges, edge.target = id
  · rw [if_pos (any_target_entries.mpr entered)]
    refine ⟨fun _ => ?_, fun _ => .inr entered⟩
    split <;> simp [edges, EdgeBag.occurrences]
  · rw [if_neg (mt any_target_entries.mp entered)]
    have none : graph.edges.countP (·.target == id) = 0 := by
      rw [List.countP_eq_zero]
      exact fun edge member target => entered ⟨edge, member, beq_iff_eq.mp target⟩
    rw [none]
    refine ⟨fun vertex => ?_, fun some => ?_⟩
    · rw [if_pos (mem_nodeIds.mpr (vertex.resolve_right entered))]
    · refine .inl (mem_nodeIds.mp (Decidable.byContradiction fun absent => ?_))
      exact some (if_neg absent)

theorem nodup_inDegrees (graph : Graph) : graph.inDegrees.ids.Nodup := by
  apply EdgeBag.nodup_foldl_degrees
  simpa [Table.ids, Function.comp_def] using graph.nodup_nodeIds

/-- The numbers to take edges off when a node gets its place, once for each occurrence. -/
theorem getD_successors (graph : Graph) (id : NodeId) :
    (graph.successors.get? id).getD [] = (graph.outEdges id).map (·.target) := by
  have targets : ∀ entry : Edge × Nat, List.replicate entry.2 entry.1.target =
      (List.replicate entry.2 entry.1).map (·.target) := fun _ => List.map_replicate.symm
  rw [successors, Table.getD_get?_foldl_append fun entry : Edge × Nat => entry.1.source,
    Table.get?_nil, Option.getD_none, List.nil_append, outEdges, EdgeBag.leaving,
    EdgeBag.block_eq_filter, EdgeBag.expand, List.map_flatMap]
  simp only [targets]

/-! ## Greedy orders -/

/-- A vertex without a place, with nothing in front of it that has none. -/
structure MayFollow (graph : Graph) (placed : List NodeId) (id : NodeId) : Prop where
  vertex : graph.Vertex id
  fresh : id ∉ placed
  sources : ∀ edge ∈ graph.edges, edge.target = id → edge.source ∈ placed

/-- Each vertex is the first of those that may follow the ones before it. -/
inductive Greedy (graph : Graph) : List NodeId → Prop
  | nil : Greedy graph []
  | snoc {placed : List NodeId} {id : NodeId} (greedy : Greedy graph placed)
      (next : graph.MayFollow placed id)
      (first : ∀ other, graph.MayFollow placed other → id ≤ other) :
      Greedy graph (placed ++ [id])

namespace Greedy

variable {order : List NodeId}

/-- A greedy order has no node twice. -/
theorem nodup (greedy : graph.Greedy order) : order.Nodup := by
  induction greedy with
  | nil => exact List.nodup_nil
  | snoc _ next _ induction =>
      rw [List.nodup_append]
      refine ⟨induction, List.nodup_singleton _, fun id placed other last same => ?_⟩
      rw [List.mem_singleton.mp last] at same
      exact next.fresh (same ▸ placed)

theorem vertex (greedy : graph.Greedy order) {id : NodeId} (placed : id ∈ order) :
    graph.Vertex id := by
  induction greedy with
  | nil => cases placed
  | snoc _ next _ induction =>
      rcases List.mem_append.mp placed with before | last
      · exact induction before
      · exact List.mem_singleton.mp last ▸ next.vertex

/-- What leads to a placed vertex has an earlier place. -/
theorem forward (greedy : graph.Greedy order) {edge : Edge} (member : edge ∈ graph.edges)
    (target : edge.target ∈ order) :
    edge.source ∈ order ∧ order.idxOf edge.source < order.idxOf edge.target := by
  induction greedy with
  | nil => cases target
  | @snoc placed id _ next _ induction =>
      by_cases before : edge.target ∈ placed
      · obtain ⟨source, less⟩ := induction before
        rw [List.idxOf_append_of_mem source, List.idxOf_append_of_mem before]
        exact ⟨List.mem_append_left _ source, less⟩
      · have last : edge.target = id :=
          List.mem_singleton.mp ((List.mem_append.mp target).resolve_left before)
        have source := next.sources edge member last
        rw [List.idxOf_append_of_mem source, List.idxOf_append_of_notMem before]
        exact ⟨List.mem_append_left _ source,
          Nat.lt_add_right _ (List.idxOf_lt_length_iff.mpr source)⟩

end Greedy

/-! ## The order under construction -/

/-- The occurrences of edges that leave numbers without a place. -/
def pending (graph : Graph) (placed : List NodeId) : List Edge :=
  graph.edges.filter fun edge => decide (edge.source ∉ placed)

/-- What leaves a number is pending until the number has a place. -/
theorem pending_perm (graph : Graph) {placed : List NodeId} {id : NodeId} (fresh : id ∉ placed) :
    (graph.pending placed).Perm (graph.outEdges id ++ graph.pending (placed ++ [id])) := by
  have leaving : (graph.pending placed).filter (fun edge => decide (edge.source = id)) =
      graph.outEdges id := by
    rw [outEdges_eq_filter, pending, List.filter_filter]
    refine List.filter_congr fun edge _ => ?_
    by_cases leaves : edge.source = id
    · simp [leaves, fresh]
    · simp [leaves]
  have staying : (graph.pending placed).filter (fun edge => !decide (edge.source = id)) =
      graph.pending (placed ++ [id]) := by
    rw [pending, pending, List.filter_filter]
    refine List.filter_congr fun edge _ => ?_
    rw [Bool.eq_iff_iff]
    simp [and_comm]
  have halves := List.filter_append_perm (fun edge => decide (edge.source = id))
    (graph.pending placed)
  rw [leaving, staying] at halves
  exact halves.symm

/-- Some occurrences are pending: the numbers count them, and no ready vertex waits for one. -/
structure Underway (graph : Graph) (pending : List Edge) (state : Sorting) : Prop where
  greedy : graph.Greedy state.order
  edges : ∀ edge ∈ pending, edge ∈ graph.edges
  placed : ∀ edge ∈ pending, edge.target ∉ state.order
  degrees : ∀ id, graph.Vertex id →
    state.degrees.get? id = some (pending.countP (·.target == id))
  ascending : state.ready.Pairwise (· < ·)
  ready : ∀ id, id ∈ state.ready ↔
    graph.Vertex id ∧ id ∉ state.order ∧ ∀ edge ∈ pending, edge.target ≠ id

namespace Underway

variable {edges others : List Edge} {edge : Edge} {state : Sorting}

theorem perm (underway : graph.Underway edges state) (same : edges.Perm others) :
    graph.Underway others state where
  greedy := underway.greedy
  edges edge member := underway.edges edge (same.mem_iff.mpr member)
  placed edge member := underway.placed edge (same.mem_iff.mpr member)
  degrees id vertex := same.countP_eq _ ▸ underway.degrees id vertex
  ascending := underway.ascending
  ready id := by simp only [underway.ready, same.mem_iff]

/-- An occurrence that is pending is counted at its target. -/
theorem get?_target (underway : graph.Underway (edge :: edges) state) :
    state.degrees.get? edge.target = some (edges.countP (·.target == edge.target) + 1) := by
  have member : edge ∈ graph.edges := underway.edges edge List.mem_cons_self
  rw [underway.degrees _ (.inr ⟨edge, member, rfl⟩), List.countP_cons,
    if_pos (beq_self_eq_true _)]

/-- The target of an occurrence that is taken off gets ready if nothing else leads to it. -/
theorem mem_ready_release (underway : graph.Underway (edge :: edges) state) (id : NodeId) :
    id ∈ (state.release edge.target).ready ↔
      graph.Vertex id ∧ id ∉ state.order ∧ ∀ other ∈ edges, other.target ≠ id := by
  have before : id ∈ state.ready ↔ graph.Vertex id ∧ id ∉ state.order ∧
      edge.target ≠ id ∧ ∀ other ∈ edges, other.target ≠ id := by
    rw [underway.ready, List.forall_mem_cons]
  rw [Sorting.release_eq underway.get?_target]
  by_cases same : id = edge.target
  · subst same
    have vertex : graph.Vertex edge.target :=
      .inr ⟨edge, underway.edges edge List.mem_cons_self, rfl⟩
    have unplaced : edge.target ∉ state.order := underway.placed edge List.mem_cons_self
    have notBefore : edge.target ∉ state.ready := fun ready => (before.mp ready).2.2.1 rfl
    have last : edges.countP (·.target == edge.target) = 0 ↔
        ∀ other ∈ edges, other.target ≠ edge.target := by
      simp [List.countP_eq_zero]
    dsimp only
    split
    · rename_i zero
      simpa [vertex, unplaced] using last.mp zero
    · rename_i more
      simp [vertex, unplaced, notBefore, ← last, more]
  · have after : (id ∈ if edges.countP (·.target == edge.target) = 0 then
        NodeSet.insert edge.target state.ready else state.ready) ↔ id ∈ state.ready := by
      split
      · simp [same]
      · exact Iff.rfl
    dsimp only
    rw [after, before]
    simp [Ne.symm same]

/-- Taking an occurrence off makes its target ready if it was the last one into it. -/
theorem release (underway : graph.Underway (edge :: edges) state) :
    graph.Underway edges (state.release edge.target) := by
  have result := Sorting.release_eq underway.get?_target
  constructor
  case greedy => exact state.order_release edge.target ▸ underway.greedy
  case edges => exact fun other later => underway.edges other (List.mem_cons_of_mem _ later)
  case placed =>
    intro other later
    rw [Sorting.order_release]
    exact underway.placed other (List.mem_cons_of_mem _ later)
  case degrees =>
    intro id isVertex
    rw [result, Table.get?_update]
    split
    · rename_i same
      rw [same]
    · rename_i different
      have elsewhere : ¬ (edge.target == id) = true := by simpa using Ne.symm different
      rw [underway.degrees id isVertex, List.countP_cons, if_neg elsewhere, Nat.add_zero]
  case ascending =>
    rw [result]
    dsimp only
    split
    · exact NodeSet.ascending_insert _ underway.ascending
    · exact underway.ascending
  case ready =>
    intro id
    rw [Sorting.order_release]
    exact underway.mem_ready_release id

theorem foldl_release (underway : graph.Underway (edges ++ others) state) :
    graph.Underway others ((edges.map (·.target)).foldl Sorting.release state) := by
  induction edges generalizing state with
  | nil => exact underway
  | cons edge edges induction => exact induction underway.release

/-- Between steps, the nodes that are ready are those that may follow. -/
theorem mem_ready_iff (underway : graph.Underway (graph.pending state.order) state)
    {id : NodeId} : id ∈ state.ready ↔ graph.MayFollow state.order id := by
  rw [underway.ready]
  constructor
  · rintro ⟨vertex, fresh, free⟩
    refine ⟨vertex, fresh, fun edge member target => ?_⟩
    by_contra source
    exact free edge (List.mem_filter.mpr ⟨member, decide_eq_true source⟩) target
  · rintro ⟨vertex, fresh, sources⟩
    refine ⟨vertex, fresh, fun edge waits target => ?_⟩
    obtain ⟨member, source⟩ := List.mem_filter.mp waits
    exact of_decide_eq_true source (sources edge member target)

/-- The first ready vertex gets the next place, and then what leaves it is pending as well. -/
theorem place {degrees : Table Nat} {id : NodeId} {ready order : List NodeId}
    (underway : graph.Underway (graph.pending order) ⟨degrees, id :: ready, order⟩) :
    graph.Underway (graph.outEdges id ++ graph.pending (order ++ [id]))
      ⟨degrees, ready, order ++ [id]⟩ := by
  have isReady : ∀ {other}, other ∈ id :: ready ↔ graph.MayFollow order other :=
    fun {other} => @mem_ready_iff graph ⟨degrees, id :: ready, order⟩ underway other
  have next : graph.MayFollow order id := isReady.mp List.mem_cons_self
  obtain ⟨least, ascending⟩ := List.pairwise_cons.mp underway.ascending
  have waiting := underway.perm (pending_perm graph next.fresh)
  have behind : ∀ {other}, other ∈ ready ↔ other ∈ id :: ready ∧ other ≠ id := by
    intro other
    constructor
    · exact fun member => ⟨List.mem_cons_of_mem _ member, (Nat.ne_of_lt (least other member)).symm⟩
    · rintro ⟨member, different⟩
      exact (List.mem_cons.mp member).resolve_left different
  constructor
  · refine underway.greedy.snoc next fun other follows => ?_
    rcases List.mem_cons.mp (isReady.mpr follows) with rfl | later
    · exact Nat.le_refl _
    · exact Nat.le_of_lt (least other later)
  · exact waiting.edges
  · intro edge member placed
    rcases List.mem_append.mp placed with before | last
    · exact waiting.placed edge member before
    · have free := ((waiting.ready id).mp List.mem_cons_self).2.2
      exact free edge member (List.mem_singleton.mp last)
  · exact waiting.degrees
  · exact ascending
  · intro other
    rw [behind, waiting.ready]
    simp only [List.mem_append, List.mem_singleton, not_or]
    exact ⟨fun ⟨⟨vertex, fresh, free⟩, different⟩ => ⟨vertex, ⟨fresh, different⟩, free⟩,
      fun ⟨vertex, ⟨fresh, different⟩, free⟩ => ⟨⟨vertex, fresh, free⟩, different⟩⟩

end Underway

/-- A greedy order that no vertex may follow. -/
structure Exhaustive (graph : Graph) (order : List NodeId) : Prop where
  greedy : graph.Greedy order
  stuck : ∀ id, ¬ graph.MayFollow order id

/-- A run that starts properly ends with an order that nothing may follow. -/
theorem Underway.run {state : Sorting}
    (underway : graph.Underway (graph.pending state.order) state) :
    graph.Exhaustive (state.run graph.successors).order := by
  fun_induction Sorting.run graph.successors state with
  | case1 degrees order =>
      refine ⟨underway.greedy, fun id follows => ?_⟩
      exact List.not_mem_nil (underway.mem_ready_iff.mpr follows)
  | case2 degrees id ready order induction =>
      rw [getD_successors] at induction ⊢
      apply induction
      rw [Sorting.order_foldl_release]
      exact underway.place.foldl_release

/-- At first no edge is taken off the count. -/
theorem underway_unsorted (graph : Graph) :
    graph.Underway (graph.pending []) graph.unsorted := by
  have all : graph.pending [] = graph.edges := by simp [pending]
  rw [all]
  constructor
  · exact .nil
  · exact fun _ member => member
  · exact fun _ _ => List.not_mem_nil
  · exact fun id => (graph.get?_inDegrees id).1
  · exact NodeSet.ascending_ofList _
  · intro id
    have zero : id ∈ graph.unsorted.ready ↔ graph.inDegrees.get? id = some 0 := by
      rw [← Table.mem_iff_get? graph.nodup_inDegrees]
      simp [unsorted]
    have count : graph.edges.countP (·.target == id) = 0 ↔
        ∀ edge ∈ graph.edges, edge.target ≠ id := by
      simp [List.countP_eq_zero]
    rw [zero, ← count]
    constructor
    · intro isZero
      have vertex := (graph.get?_inDegrees id).2 (by simp [isZero])
      rw [(graph.get?_inDegrees id).1 vertex] at isZero
      exact ⟨vertex, List.not_mem_nil, Option.some.inj isZero⟩
    · rintro ⟨vertex, -, none⟩
      rw [(graph.get?_inDegrees id).1 vertex, none]

/-- Counting edges down makes the greedy order until nothing may follow it. -/
theorem exhaustive_run (graph : Graph) :
    graph.Exhaustive (graph.unsorted.run graph.successors).order :=
  (underway_unsorted graph).run

end Graph

end NodeMaterial
