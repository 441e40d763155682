import NodeMaterial.Graph.Basic
import NodeMaterial.Graph.NodeSet

/-!
# The least topological order

Every node is given the number of edges into it, each counted as often as it occurs.
Nodes whose number is zero are ready.  The first of them, in the order of numbers, gets
the next place; each edge that leaves it is taken off the number of its target, once for
each occurrence, and a target whose number comes down to zero is ready too.

The order is complete if every node has a place; otherwise the nodes that are left lie on
a cycle or behind one.
-/

namespace NodeMaterial

/-- An order under construction: edges still to come, nodes that are ready, and the order. -/
structure Sorting where
  degrees : Table Nat
  ready : List NodeId
  order : List NodeId
  deriving DecidableEq, Repr

namespace Sorting

/-- Takes an edge into a node off its number; the last edge makes the node ready. -/
def release (state : Sorting) (id : NodeId) : Sorting :=
  match state.degrees.get? id with
  | some (left + 1) =>
      { state with
        degrees := state.degrees.update 0 id fun _ => left
        ready := if left = 0 then NodeSet.insert id state.ready else state.ready }
  | _ => state

/-- How many places are still to be given: every node waits for edges or is ready. -/
def work (state : Sorting) : Nat :=
  state.ready.length + state.degrees.countP fun entry => decide (0 < entry.2)

/-- Fewer nodes wait if the number of one of them is replaced by zero, and no more otherwise. -/
theorem countP_update {degrees : Table Nat} {id : NodeId} {left : Nat}
    (found : degrees.get? id = some (left + 1)) :
    (degrees.update 0 id fun _ => left).countP (fun entry => decide (0 < entry.2)) +
        (if left = 0 then 1 else 0) =
      degrees.countP fun entry => decide (0 < entry.2) := by
  induction degrees with
  | nil => simp [Table.get?] at found
  | cons first others induction =>
      rcases first with ⟨other, degree⟩
      rw [Table.update]
      by_cases same : id = other
      · have here : degree = left + 1 := by simpa [Table.get?, same] using found
        rw [if_pos same, List.countP_cons, List.countP_cons, here]
        cases left <;> simp
      · have behind : Table.get? others id = some (left + 1) := by
          simpa [Table.get?, Ne.symm same] using found
        rw [if_neg same, List.countP_cons, List.countP_cons, ← induction behind]
        omega

/--
Counting down a node moves it from the waiting to the ready ones at most, so the work does not
grow.
-/
theorem work_release_le (state : Sorting) (id : NodeId) :
    (state.release id).work ≤ state.work := by
  unfold release
  split
  · rename_i left found
    have waiting := countP_update found
    have grown := NodeSet.length_insert_le id state.ready
    simp only [work]
    split
    · rename_i last
      rw [if_pos last] at waiting
      omega
    · omega
  · exact Nat.le_refl _

theorem work_foldl_release_le (state : Sorting) (ids : List NodeId) :
    (ids.foldl release state).work ≤ state.work := by
  induction ids generalizing state with
  | nil => exact Nat.le_refl _
  | cons id others induction =>
      exact Nat.le_trans (induction (state.release id)) (work_release_le state id)

/-- Gives places to nodes as long as one is ready. -/
def run (successors : Table (List NodeId)) : Sorting → Sorting
  | ⟨degrees, [], order⟩ => ⟨degrees, [], order⟩
  | ⟨degrees, id :: ready, order⟩ =>
      run successors <|
        ((successors.get? id).getD []).foldl release ⟨degrees, ready, order ++ [id]⟩
termination_by state => state.work
decreasing_by
  refine Nat.lt_of_le_of_lt (work_foldl_release_le _ _) ?_
  simp only [work, List.length_cons]
  omega

end Sorting

namespace Graph

/-- The number of edges into each node, and into each number that an edge leads to. -/
def inDegrees (graph : Graph) : Table Nat :=
  graph.bag.entries.foldl
    (fun degrees entry => degrees.update 0 entry.1.target (· + entry.2))
    (graph.nodeIds.map (·, 0))

/-- The targets of the edges that leave each node, once for each occurrence. -/
def successors (graph : Graph) : Table (List NodeId) :=
  graph.bag.entries.foldl
    (fun table entry =>
      table.update [] entry.1.source (· ++ List.replicate entry.2 entry.1.target)) []

/-- The order before anything has a place. -/
def unsorted (graph : Graph) : Sorting :=
  let degrees := graph.inDegrees
  ⟨degrees, NodeSet.ofList ((degrees.filter (·.2 == 0)).map (·.1)), []⟩

/-- The least order in which every edge leads forward, or the nodes that have no place in one. -/
def topologicalOrder (graph : Graph) : Except (List NodeId) (List NodeId) :=
  let order := (graph.unsorted.run graph.successors).order
  if order.length < graph.nodeCount then
    .error (graph.nodeIds.filter fun id => !order.contains id)
  else
    .ok order

end Graph

end NodeMaterial
