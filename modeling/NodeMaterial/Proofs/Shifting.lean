import NodeMaterial.Pass.Parallax
import NodeMaterial.Proofs.GraphOperations

/-!
# Edges that are exchanged one after the other

The edges into a node are listed, and then taken out of the graph one after the other; some
come back at once in another place.  An edge that comes back can be equal to one that is still
to be taken out.  This does no harm: what is taken out has been listed, so it is there to be
taken out, and in the end each edge occurs as often as if all listed edges had been taken out
first and the others added after that.
-/

namespace NodeMaterial.Graph

variable {graph : Graph} {id : NodeId}

/-- Takes out an occurrence of an edge and adds edges in its stead. -/
def exchange (added : Edge → List Edge) (graph : Graph) (edge : Edge) : Graph :=
  (graph.removeEdge edge).1.addEdges (added edge)

/-- What exchanges leave is counted at the end, as long as everything taken out is there. -/
theorem multiplicity_foldl_exchange
    (added : Edge → List Edge) {edges : List Edge}
    (listed : ∀ edge, edges.count edge ≤ graph.multiplicity edge) (edge : Edge) :
    (edges.foldl (exchange added) graph).multiplicity edge + edges.count edge =
      graph.multiplicity edge + (edges.flatMap added).count edge := by
  induction edges generalizing graph with
  | nil => simp
  | cons first others induction =>
      have counts : ∀ other, (first :: others).count other =
          others.count other + if other = first then 1 else 0 := by
        intro other
        by_cases same : other = first
        · rw [same, List.count_cons_self, if_pos rfl]
        · rw [List.count_cons_of_ne (Ne.symm same), if_neg same, Nat.add_zero]
      have step : ∀ other, (exchange added graph first).multiplicity other +
          (if other = first then 1 else 0) =
            graph.multiplicity other + (added first).count other := by
        intro other
        have enough := listed other
        rw [counts] at enough
        rw [exchange, multiplicity_addEdges, multiplicity_removeEdge]
        omega
      have still : ∀ other,
          others.count other ≤ (exchange added graph first).multiplicity other := by
        intro other
        have enough := listed other
        have after := step other
        rw [counts] at enough
        omega
      have rest := induction still
      have after := step edge
      rw [List.foldl_cons, List.flatMap_cons, List.count_append, counts]
      omega

theorem nodes_removeEdge (graph : Graph) (edge : Edge) :
    (graph.removeEdge edge).1.nodes = graph.nodes := by
  rw [removeEdge]
  split <;> rfl

theorem output_removeEdge (graph : Graph) (edge : Edge) :
    (graph.removeEdge edge).1.output = graph.output := by
  rw [removeEdge]
  split <;> rfl

theorem nextId_removeEdge (graph : Graph) (edge : Edge) :
    (graph.removeEdge edge).1.nextId = graph.nextId := by
  rw [removeEdge]
  split <;> rfl

/-- Exchanging edges changes nothing else. -/
theorem frame_foldl_exchange (added : Edge → List Edge) (edges : List Edge) (graph : Graph) :
    (edges.foldl (exchange added) graph).nodes = graph.nodes ∧
      (edges.foldl (exchange added) graph).output = graph.output ∧
      (edges.foldl (exchange added) graph).nextId = graph.nextId := by
  induction edges generalizing graph with
  | nil => exact ⟨rfl, rfl, rfl⟩
  | cons edge others induction =>
      obtain ⟨nodes, output, nextId⟩ := induction (exchange added graph edge)
      rw [List.foldl_cons, nodes, output, nextId, exchange, nodes_addEdges, output_addEdges,
        nextId_addEdges]
      exact ⟨nodes_removeEdge graph edge, output_removeEdge graph edge,
        nextId_removeEdge graph edge⟩

/-- Exchanging all edges that pass a test is taking them out first and then adding. -/
theorem foldl_exchange_eq (added : Edge → List Edge) (test : Edge → Bool) (graph : Graph) :
    (graph.edges.filter test).foldl (exchange added) graph =
      (graph.filterEdges fun edge => !test edge).addEdges
        ((graph.edges.filter test).flatMap added) := by
  have listed : ∀ edge, (graph.edges.filter test).count edge ≤ graph.multiplicity edge := by
    intro edge
    rw [multiplicity_eq_count]
    exact List.filter_sublist.count_le edge
  obtain ⟨nodes, output, nextId⟩ := frame_foldl_exchange added (graph.edges.filter test) graph
  refine eq_of_views ?_ (List.perm_iff_count.mpr fun edge => ?_) ?_ ?_
  · rw [nodes, nodes_addEdges]
    rfl
  · have counted := multiplicity_foldl_exchange added listed edge
    rw [← multiplicity_eq_count, ← multiplicity_eq_count, multiplicity_addEdges,
      multiplicity_filterEdges]
    by_cases passes : test edge = true
    · rw [List.count_filter passes, ← multiplicity_eq_count] at counted
      simp only [passes, Bool.not_true, Bool.false_eq_true, if_false]
      omega
    · have unlisted : (graph.edges.filter test).count edge = 0 :=
        List.count_eq_zero.mpr fun member => passes (List.mem_filter.mp member).2
      simp only [passes, Bool.not_false, if_true]
      omega
  · rw [nextId, nextId_addEdges]
    rfl
  · rw [output, output_addEdges]
    rfl

/-! ## The height map -/

/-- The edges of a texture into the second input go all at once. -/
theorem unplugHeight_eq (graph : Graph) (source id : NodeId) :
    graph.unplugHeight source id = graph.filterEdges fun edge =>
      !(edge.target == id && edge.source == source && edge.inSocket == 1) := by
  have exchanged := foldl_exchange_eq (fun _ => []) (fun edge =>
    edge.target == id && edge.source == source && edge.inSocket == 1) graph
  have listed : (graph.inEdges id).filter (fun edge =>
      edge.source == source && edge.inSocket == 1) = graph.edges.filter fun edge =>
        edge.target == id && edge.source == source && edge.inSocket == 1 := by
    rw [inEdges_eq_filter, List.filter_filter]
    congr 1
    funext edge
    rw [Bool.eq_iff_iff]
    simp [and_comm, and_left_comm, and_assoc]
  have nothing : (graph.edges.filter fun edge =>
      edge.target == id && edge.source == source && edge.inSocket == 1).flatMap
        (fun _ => ([] : List Edge)) = [] := by
    simp
  rw [nothing] at exchanged
  rw [unplugHeight, listed]
  exact exchanged

/-- Takes out the edges into all inputs of a node but the first. -/
def unplugLater (graph : Graph) (id : NodeId) : Graph :=
  graph.filterEdges fun edge => !(edge.target == id && decide (1 ≤ edge.inSocket))

/-- The edges into the inputs behind the second one of a node, moved up. -/
def shiftedEdges (graph : Graph) (id : NodeId) : List Edge :=
  ((graph.inEdges id).filter fun edge => decide (1 < edge.inSocket)).map shiftDown

/-- What comes back of an edge: one that enters behind the second input enters one before. -/
def movedUp (edge : Edge) : List Edge :=
  if 1 < edge.inSocket then [shiftDown edge] else []

theorem flatMap_movedUp (edges : List Edge) :
    (edges.filter fun edge => decide (1 ≤ edge.inSocket)).flatMap movedUp =
      (edges.filter fun edge => decide (1 < edge.inSocket)).map shiftDown := by
  induction edges with
  | nil => rfl
  | cons edge others induction =>
      by_cases behind : 1 < edge.inSocket
      · have later : 1 ≤ edge.inSocket := Nat.le_of_lt behind
        simp [later, behind, movedUp, induction]
      · by_cases second : 1 ≤ edge.inSocket
        · simp [second, behind, movedUp, induction]
        · simp [second, behind, induction]

/-- The edges into later inputs move up all at once. -/
theorem foldl_shiftEdge_eq (graph : Graph) (id : NodeId) :
    (graph.inEdges id).foldl shiftEdge graph =
      (graph.unplugLater id).addEdges (graph.shiftedEdges id) := by
  have step : ∀ current edge, shiftEdge current edge =
      if decide (1 ≤ edge.inSocket) = true then exchange movedUp current edge else current := by
    intro current edge
    rw [shiftEdge, exchange, movedUp]
    by_cases behind : 1 < edge.inSocket
    · have later : 1 ≤ edge.inSocket := Nat.le_of_lt behind
      simp only [behind, later, if_true, decide_true]
      rfl
    · simp only [behind, if_false, decide_eq_true_eq]
      rfl
  have listed : (graph.inEdges id).filter (fun edge => decide (1 ≤ edge.inSocket)) =
      graph.edges.filter fun edge => edge.target == id && decide (1 ≤ edge.inSocket) := by
    rw [inEdges_eq_filter, List.filter_filter]
    congr 1
    funext edge
    rw [Bool.eq_iff_iff]
    simp [and_comm]
  calc (graph.inEdges id).foldl shiftEdge graph
      = ((graph.inEdges id).filter fun edge => decide (1 ≤ edge.inSocket)).foldl
          (exchange movedUp) graph := by
        rw [List.foldl_filter]
        congr 1
        funext current edge
        exact step current edge
    _ = (graph.unplugLater id).addEdges (graph.shiftedEdges id) := by
        rw [shiftedEdges, ← flatMap_movedUp, listed]
        exact foldl_exchange_eq movedUp _ graph

/-- Dropping the second input takes out the later edges and adds them again, moved up. -/
theorem dropSecondInput_eq {node : Node} (found : graph.node? id = some node)
    (several : 2 ≤ node.inputs.length) :
    graph.dropSecondInput id =
      ((graph.unplugLater id).modifyNode id withoutSecondInput).addEdges
        (graph.shiftedEdges id) := by
  rw [dropSecondInput, found]
  dsimp only
  rw [if_neg (Nat.not_lt.mpr several)]
  exact foldl_shiftEdge_eq (graph.modifyNode id withoutSecondInput) id

end NodeMaterial.Graph
