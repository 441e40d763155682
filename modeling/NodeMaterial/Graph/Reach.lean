import NodeMaterial.Graph.Basic
import NodeMaterial.Graph.NodeSet

/-!
# What reaches a node and what a node reaches

Both sets are found with a queue.  A number is taken from its front; if it is that of a
node that has not been found yet, the node is found now, and what lies next to it goes
to the end of the queue.  So a number can stand in the queue several times, and can be
that of no node.

What lies next to a node is looked up in a table of sources for the one search, and is
scanned for among the edges, which are in order, for the other.

The search ends because a node that is found uses up its share of a bound: the entries
that it adds to the queue, and itself.
-/

namespace NodeMaterial.Graph

/-- How much those of some numbers that have not been found can still add to a queue. -/
def outstanding (next : NodeId → List NodeId) (found : List NodeId) : List NodeId → Nat
  | [] => 0
  | id :: others =>
      (if id ∈ found then 0 else (next id).length + 1) + outstanding next found others

/-- Finding one more node leaves at most as many edges to follow. -/
theorem outstanding_insert_le
    (next : NodeId → List NodeId) (found : List NodeId) (id : NodeId) (ids : List NodeId) :
    outstanding next (NodeSet.insert id found) ids ≤ outstanding next found ids := by
  induction ids with
  | nil => exact Nat.le_refl _
  | cons first others induction =>
      refine Nat.add_le_add ?_ induction
      by_cases known : first ∈ found
      · simp [known]
      · rw [if_neg known]
        split
        · exact Nat.zero_le _
        · exact Nat.le_refl _

/-- Finding a node uses up its share. -/
theorem outstanding_insert_lt
    (next : NodeId → List NodeId) {found : List NodeId} {id : NodeId} {ids : List NodeId}
    (member : id ∈ ids) (new : id ∉ found) :
    outstanding next (NodeSet.insert id found) ids + (next id).length <
      outstanding next found ids := by
  induction ids with
  | nil => cases member
  | cons first others induction =>
      by_cases same : first = id
      · have rest := outstanding_insert_le next found id others
        simp only [outstanding, same, NodeSet.mem_insert, true_or, if_true, new, if_false]
        omega
      · have rest := induction ((List.mem_cons.mp member).resolve_left (Ne.symm same))
        simp only [outstanding, NodeSet.mem_insert, same, false_or]
        omega

/-- Finds nodes until nothing is left in the queue. -/
def explore (graph : Graph) (next : NodeId → List NodeId) (found queue : List NodeId) :
    List NodeId :=
  match queue with
  | [] => found
  | id :: queue =>
      if graph.contains id ∧ id ∉ found then
        graph.explore next (NodeSet.insert id found) (queue ++ next id)
      else
        graph.explore next found queue
termination_by queue.length + outstanding next found graph.nodeIds
decreasing_by
  · rename_i finds
    rcases List.any_eq_true.mp finds.1 with ⟨node, present, isNode⟩
    have member : id ∈ graph.nodeIds := List.mem_map.mpr ⟨node, present, beq_iff_eq.mp isNode⟩
    have used := outstanding_insert_lt next member finds.2
    simp only [List.length_append, List.length_cons]
    omega
  · simp only [List.length_cons]
    omega

/-- The sources of the edges into each node. -/
def predecessors (graph : Graph) : Table (List NodeId) :=
  graph.bag.entries.foldl
    (fun table entry => table.update [] entry.1.target (· ++ [entry.1.source])) []

/-- The nodes from which a node can be reached, with the node itself. -/
def ancestors (graph : Graph) (root : NodeId) : List NodeId :=
  let sources := graph.predecessors
  graph.explore (fun id => (sources.get? id).getD []) [] [root]

/-- The nodes that can be reached from a node, with the node itself. -/
def descendants (graph : Graph) (root : NodeId) : List NodeId :=
  graph.explore (fun id => (graph.bag.block id).map (·.1.target)) [] [root]

end NodeMaterial.Graph
