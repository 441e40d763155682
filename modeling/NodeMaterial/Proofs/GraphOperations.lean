import Mathlib.Data.List.Nodup
import NodeMaterial.Graph.Basic
import NodeMaterial.Proofs.Occurrences

/-!
# What a graph holds after an operation

A graph is described by two views: the node under a number, and the occurrences
of its edges.  This module says what each operation does to the two views, and to
the output.  The passes are described by these laws alone.
-/

namespace NodeMaterial.Edge

/-- The output socket that an edge leaves. -/
def start (edge : Edge) : NodeId × Nat :=
  (edge.source, edge.outSocket)

/-- The input socket that an edge enters. -/
def finish (edge : Edge) : NodeId × Nat :=
  (edge.target, edge.inSocket)

end NodeMaterial.Edge

namespace NodeMaterial.Graph

/-! ## Looking nodes up -/

theorem ascending_nodeIds (graph : Graph) : graph.nodeIds.Pairwise (· < ·) :=
  List.pairwise_map.mpr graph.ascending

theorem nodup_nodeIds (graph : Graph) : graph.nodeIds.Nodup :=
  (ascending_nodeIds graph).imp Nat.ne_of_lt

/-- A number belongs to one node. -/
theorem eq_of_id_eq
    {graph : Graph} {first second : Node}
    (firstMember : first ∈ graph.nodes) (secondMember : second ∈ graph.nodes)
    (same : first.id = second.id) :
    first = second :=
  List.inj_on_of_nodup_map graph.nodup_nodeIds firstMember secondMember same

/-- Looking a number up finds the node that carries it. -/
theorem node?_eq_some_iff {graph : Graph} {id : NodeId} {node : Node} :
    graph.node? id = some node ↔ node ∈ graph.nodes ∧ node.id = id := by
  constructor
  · intro found
    exact ⟨List.mem_of_find?_eq_some found, by simpa using List.find?_some found⟩
  · rintro ⟨member, rfl⟩
    obtain ⟨other, found⟩ : ∃ other, graph.node? node.id = some other := by
      rw [← Option.isSome_iff_exists, node?, List.find?_isSome]
      exact ⟨node, member, by simp⟩
    have same : other.id = node.id := by simpa using List.find?_some found
    rw [found, eq_of_id_eq (List.mem_of_find?_eq_some found) member same]

theorem mem_nodes_of_node? {graph : Graph} {id : NodeId} {node : Node}
    (found : graph.node? id = some node) : node ∈ graph.nodes :=
  (node?_eq_some_iff.mp found).1

theorem id_of_node? {graph : Graph} {id : NodeId} {node : Node}
    (found : graph.node? id = some node) : node.id = id :=
  (node?_eq_some_iff.mp found).2

theorem node?_of_mem {graph : Graph} {node : Node} (member : node ∈ graph.nodes) :
    graph.node? node.id = some node :=
  node?_eq_some_iff.mpr ⟨member, rfl⟩

theorem contains_iff {graph : Graph} {id : NodeId} :
    graph.contains id = true ↔ ∃ node, graph.node? id = some node := by
  simp [contains, node?_eq_some_iff]

theorem contains_of_node? {graph : Graph} {id : NodeId} {node : Node}
    (found : graph.node? id = some node) : graph.contains id = true :=
  contains_iff.mpr ⟨node, found⟩

theorem mem_nodeIds {graph : Graph} {id : NodeId} :
    id ∈ graph.nodeIds ↔ graph.contains id = true := by
  simp [contains, nodeIds]

/-! ## Nodes after an operation -/

theorem node?_mapNodes (graph : Graph) (change : Node → Node) (id : NodeId) :
    (graph.mapNodes change).node? id =
      (graph.node? id).map fun node => { change node with id := node.id } := by
  simp only [node?, mapNodes, List.find?_map]
  rfl

@[simp]
theorem contains_mapNodes (graph : Graph) (change : Node → Node) (id : NodeId) :
    (graph.mapNodes change).contains id = graph.contains id := by
  simp only [contains, mapNodes, List.any_map]
  rfl

/-- A node that is modified keeps its number. -/
theorem node?_modifyNode_self
    {graph : Graph} {id : NodeId} {node : Node} (change : Node → Node)
    (found : graph.node? id = some node) :
    (graph.modifyNode id change).node? id = some { change node with id } := by
  rw [modifyNode, node?_mapNodes, found]
  simp [id_of_node? found]

/-- Modifying a node leaves the others as they are. -/
theorem node?_modifyNode_of_ne
    (graph : Graph) {id other : NodeId} (change : Node → Node)
    (different : other ≠ id) :
    (graph.modifyNode id change).node? other = graph.node? other := by
  rw [modifyNode, node?_mapNodes]
  cases found : graph.node? other with
  | none => rfl
  | some node =>
      have unchanged : node.id ≠ id := by rwa [id_of_node? found]
      simp [unchanged]

@[simp]
theorem contains_modifyNode
    (graph : Graph) (id other : NodeId) (change : Node → Node) :
    (graph.modifyNode id change).contains other = graph.contains other :=
  contains_mapNodes ..

/-- Nodes that are selected by number are found as before. -/
theorem node?_filterNodes (graph : Graph) (keeps : NodeId → Bool) (id : NodeId) :
    (graph.filterNodes (keeps ·.id)).node? id =
      if keeps id then graph.node? id else none := by
  simp only [node?, filterNodes, List.find?_filter]
  split
  · rename_i kept
    congr 1
    funext node
    by_cases same : node.id = id <;> simp [same, kept]
  · rename_i dropped
    refine List.find?_eq_none.mpr fun node _ => ?_
    by_cases same : node.id = id <;> simp [same, dropped]

/-- Removing a node leaves the others as they are. -/
theorem node?_withoutNode_of_ne
    (graph : Graph) {id other : NodeId} (different : other ≠ id) :
    (graph.withoutNode id).node? other = graph.node? other := by
  rw [withoutNode]
  split
  · exact (node?_filterNodes graph (· != id) other).trans (by simp [different])
  · rfl

@[simp]
theorem node?_withoutNode_self (graph : Graph) (id : NodeId) :
    (graph.withoutNode id).node? id = none := by
  rw [withoutNode]
  split
  · exact (node?_filterNodes graph (· != id) id).trans (by simp)
  · rename_i absent
    rw [Option.eq_none_iff_forall_ne_some]
    exact fun node found => absent (contains_of_node? found)

theorem node?_withoutNode_eq_some_iff
    {graph : Graph} {id other : NodeId} {node : Node} :
    (graph.withoutNode id).node? other = some node ↔
      other ≠ id ∧ graph.node? other = some node := by
  by_cases same : other = id
  · simp [same]
  · simp [node?_withoutNode_of_ne graph same, same]

theorem contains_withoutNode {graph : Graph} {id other : NodeId} :
    (graph.withoutNode id).contains other = true ↔
      other ≠ id ∧ graph.contains other = true := by
  simp [contains_iff, node?_withoutNode_eq_some_iff]

theorem node?_retain (graph : Graph) (kept : List NodeId) (id : NodeId) :
    (graph.retain kept).node? id = if id ∈ kept then graph.node? id else none := by
  refine (node?_filterNodes graph kept.contains id).trans ?_
  simp

/-- The nodes of a list that is retained are found as before, and no others. -/
theorem node?_retain_eq_some_iff
    {graph : Graph} {kept : List NodeId} {id : NodeId} {node : Node} :
    (graph.retain kept).node? id = some node ↔
      id ∈ kept ∧ graph.node? id = some node := by
  rw [node?_retain]
  split <;> simp [*]

@[simp]
theorem node?_addEdges (graph : Graph) (edges : List Edge) (id : NodeId) :
    (graph.addEdges edges).node? id = graph.node? id := by
  induction edges generalizing graph with
  | nil => rfl
  | cons edge others induction => exact induction (graph.addEdge edge)

@[simp]
theorem contains_addEdges (graph : Graph) (edges : List Edge) (id : NodeId) :
    (graph.addEdges edges).contains id = graph.contains id := by
  rw [Bool.eq_iff_iff, contains_iff, contains_iff, node?_addEdges]

/-! ## Edges after an operation -/

@[simp]
theorem edges_modifyNode (graph : Graph) (id : NodeId) (change : Node → Node) :
    (graph.modifyNode id change).edges = graph.edges :=
  rfl

@[simp]
theorem edges_filterEdges (graph : Graph) (keeps : Edge → Bool) :
    (graph.filterEdges keeps).edges = graph.edges.filter keeps :=
  EdgeBag.occurrences_filter graph.bag keeps

/-- Adding edges adds their occurrences, wherever they stand in the order. -/
theorem edges_addEdges (graph : Graph) (edges : List Edge) :
    (graph.addEdges edges).edges.Perm (graph.edges ++ edges) := by
  induction edges generalizing graph with
  | nil => simp [addEdges]
  | cons edge others induction =>
      have added : (graph.addEdge edge).edges.Perm (edge :: graph.edges) :=
        EdgeBag.occurrences_add graph.bag edge
      calc
        ((graph.addEdge edge).addEdges others).edges.Perm
            ((graph.addEdge edge).edges ++ others) := induction (graph.addEdge edge)
        _ |>.Perm (edge :: graph.edges ++ others) := added.append_right others
        _ |>.Perm (graph.edges ++ edge :: others) := List.perm_middle.symm

theorem mem_edges_addEdges {graph : Graph} {edges : List Edge} {edge : Edge} :
    edge ∈ (graph.addEdges edges).edges ↔ edge ∈ graph.edges ∨ edge ∈ edges := by
  rw [(edges_addEdges graph edges).mem_iff, List.mem_append]

theorem edges_withoutNode
    {graph : Graph} {id : NodeId} (present : graph.contains id = true) :
    (graph.withoutNode id).edges = graph.edges.filter (!·.touches id) := by
  rw [withoutNode, if_pos present]
  exact EdgeBag.occurrences_filter graph.bag _

theorem mem_edges_withoutNode
    {graph : Graph} {id : NodeId} {edge : Edge} (present : graph.contains id = true) :
    edge ∈ (graph.withoutNode id).edges ↔
      edge ∈ graph.edges ∧ edge.source ≠ id ∧ edge.target ≠ id := by
  simp [edges_withoutNode present, Edge.touches]

theorem mem_edges_of_mem_edges_withoutNode
    {graph : Graph} {id : NodeId} {edge : Edge}
    (member : edge ∈ (graph.withoutNode id).edges) : edge ∈ graph.edges := by
  by_cases present : graph.contains id = true
  · exact ((mem_edges_withoutNode present).mp member).1
  · rwa [withoutNode, if_neg present] at member

/-- An edge is retained with both of its ends. -/
theorem mem_edges_retain
    {graph : Graph} {kept : List NodeId} {edge : Edge} :
    edge ∈ (graph.retain kept).edges ↔
      edge ∈ graph.edges ∧ edge.source ∈ kept ∧ edge.target ∈ kept := by
  have retained : (graph.retain kept).edges =
      graph.edges.filter fun edge =>
        kept.contains edge.source && kept.contains edge.target :=
    EdgeBag.occurrences_filter graph.bag _
  simp [retained]

theorem outEdges_eq_filter (graph : Graph) (id : NodeId) :
    graph.outEdges id = graph.edges.filter (·.source == id) :=
  EdgeBag.leaving_eq_filter graph.bag id

theorem inEdges_eq_filter (graph : Graph) (id : NodeId) :
    graph.inEdges id = graph.edges.filter (·.target == id) :=
  EdgeBag.entering_eq_filter graph.bag id

@[simp]
theorem mem_outEdges {graph : Graph} {id : NodeId} {edge : Edge} :
    edge ∈ graph.outEdges id ↔ edge ∈ graph.edges ∧ edge.source = id := by
  simp [outEdges_eq_filter]

@[simp]
theorem mem_inEdges {graph : Graph} {id : NodeId} {edge : Edge} :
    edge ∈ graph.inEdges id ↔ edge ∈ graph.edges ∧ edge.target = id := by
  simp [inEdges_eq_filter]

/-- The edges into a node are in order. -/
theorem inEdges_ascending (graph : Graph) (id : NodeId) :
    (graph.inEdges id).Pairwise fun first second =>
      first = second ∨ first.before second = true := by
  rw [inEdges_eq_filter]
  exact (EdgeBag.occurrences_ascending graph.bag).filter _

/-! ## How often an edge occurs after an operation -/

theorem multiplicity_eq_count (graph : Graph) (edge : Edge) :
    graph.multiplicity edge = graph.edges.count edge :=
  EdgeBag.multiplicity_eq_count graph.bag edge

theorem multiplicity_eq_zero_iff {graph : Graph} {edge : Edge} :
    graph.multiplicity edge = 0 ↔ edge ∉ graph.edges := by
  rw [multiplicity_eq_count, List.count_eq_zero]

theorem mem_edges_congr {left right : Graph} {first second : Edge}
    (same : left.multiplicity first = right.multiplicity second) :
    first ∈ left.edges ↔ second ∈ right.edges := by
  rw [← not_iff_not, ← multiplicity_eq_zero_iff, ← multiplicity_eq_zero_iff, same]

/-- An occurrence is taken out of the edges, if there is one. -/
theorem edges_removeEdge (graph : Graph) (edge : Edge) :
    (graph.removeEdge edge).1.edges = graph.edges.erase edge := by
  rw [removeEdge]
  split
  next => exact EdgeBag.occurrences_remove graph.bag edge
  next absent =>
    rw [List.erase_of_not_mem]
    exact multiplicity_eq_zero_iff.mp (Nat.eq_zero_of_not_pos absent)

/-- Removing an edge takes one occurrence, if there is any. -/
theorem multiplicity_removeEdge (graph : Graph) (edge other : Edge) :
    (graph.removeEdge edge).1.multiplicity other =
      graph.multiplicity other - if other = edge then 1 else 0 := by
  rw [multiplicity_eq_count, multiplicity_eq_count, edges_removeEdge]
  split
  next same => rw [same, List.count_erase_self]
  next different => rw [List.count_erase_of_ne different, Nat.sub_zero]

theorem multiplicity_addEdges (graph : Graph) (edges : List Edge) (edge : Edge) :
    (graph.addEdges edges).multiplicity edge = graph.multiplicity edge + edges.count edge := by
  rw [multiplicity_eq_count, multiplicity_eq_count, (edges_addEdges graph edges).count_eq,
    List.count_append]

theorem multiplicity_filterEdges (graph : Graph) (keeps : Edge → Bool) (edge : Edge) :
    (graph.filterEdges keeps).multiplicity edge =
      if keeps edge = true then graph.multiplicity edge else 0 := by
  rw [multiplicity_eq_count, multiplicity_eq_count, edges_filterEdges]
  split
  · rename_i kept
    exact List.count_filter kept
  · rename_i dropped
    exact List.count_eq_zero.mpr fun member => dropped (List.mem_filter.mp member).2

/-- With a node go all occurrences of the edges that touch it. -/
theorem multiplicity_withoutNode
    {graph : Graph} {id : NodeId} (present : graph.contains id = true) (edge : Edge) :
    (graph.withoutNode id).multiplicity edge =
      if edge.touches id = true then 0 else graph.multiplicity edge := by
  have filtered := multiplicity_filterEdges graph (!·.touches id) edge
  rw [multiplicity_eq_count, edges_filterEdges] at filtered
  rw [multiplicity_eq_count, edges_withoutNode present, filtered]
  cases edge.touches id <;> rfl

/-! ## The output after an operation -/

@[simp]
theorem output_addEdges (graph : Graph) (edges : List Edge) :
    (graph.addEdges edges).output = graph.output := by
  induction edges generalizing graph with
  | nil => rfl
  | cons edge others induction => exact induction (graph.addEdge edge)

theorem output_withoutNode_of_ne
    {graph : Graph} {id : NodeId} (different : graph.output ≠ some id) :
    (graph.withoutNode id).output = graph.output := by
  rw [withoutNode]
  split
  · simp [different]
  · rfl

/-! ## Graphs whose edges connect nodes -/

/-- Both ends of every edge are nodes. -/
structure Closed (graph : Graph) : Prop where
  sources : ∀ edge ∈ graph.edges, graph.contains edge.source = true
  targets : ∀ edge ∈ graph.edges, graph.contains edge.target = true

instance (graph : Graph) : Decidable graph.Closed :=
  decidable_of_iff
    ((∀ edge ∈ graph.edges, graph.contains edge.source = true) ∧
      ∀ edge ∈ graph.edges, graph.contains edge.target = true)
    ⟨fun closed => ⟨closed.1, closed.2⟩, fun closed => ⟨closed.sources, closed.targets⟩⟩

variable {graph : Graph}

/-- Removing a node leaves no edge without an end. -/
theorem Closed.withoutNode (closed : graph.Closed) (id : NodeId) :
    (graph.withoutNode id).Closed := by
  by_cases present : graph.contains id = true
  · constructor
    · intro edge member
      rcases (mem_edges_withoutNode present).mp member with ⟨old, away, -⟩
      exact contains_withoutNode.mpr ⟨away, closed.sources edge old⟩
    · intro edge member
      rcases (mem_edges_withoutNode present).mp member with ⟨old, -, away⟩
      exact contains_withoutNode.mpr ⟨away, closed.targets edge old⟩
  · rwa [Graph.withoutNode, if_neg present]

/-- Retaining nodes leaves no edge without an end. -/
theorem Closed.retain (closed : graph.Closed) (kept : List NodeId) :
    (graph.retain kept).Closed := by
  have contains_retain : ∀ id ∈ kept, graph.contains id = true →
      (graph.retain kept).contains id = true := by
    intro id member present
    rcases contains_iff.mp present with ⟨node, found⟩
    exact contains_of_node? (node?_retain_eq_some_iff.mpr ⟨member, found⟩)
  constructor
  · intro edge member
    rcases mem_edges_retain.mp member with ⟨old, kept, -⟩
    exact contains_retain edge.source kept (closed.sources edge old)
  · intro edge member
    rcases mem_edges_retain.mp member with ⟨old, -, kept⟩
    exact contains_retain edge.target kept (closed.targets edge old)

/-- Edges between nodes keep a graph closed. -/
theorem Closed.addEdges
    (closed : graph.Closed) {edges : List Edge}
    (sources : ∀ edge ∈ edges, graph.contains edge.source = true)
    (targets : ∀ edge ∈ edges, graph.contains edge.target = true) :
    (graph.addEdges edges).Closed := by
  constructor
  · intro edge member
    rw [contains_addEdges]
    exact (mem_edges_addEdges.mp member).elim (closed.sources edge) (sources edge)
  · intro edge member
    rw [contains_addEdges]
    exact (mem_edges_addEdges.mp member).elim (closed.targets edge) (targets edge)

theorem Closed.filterEdges (closed : graph.Closed) (keeps : Edge → Bool) :
    (graph.filterEdges keeps).Closed := by
  constructor
  · intro edge member
    rw [edges_filterEdges] at member
    exact closed.sources edge (List.mem_filter.mp member).1
  · intro edge member
    rw [edges_filterEdges] at member
    exact closed.targets edge (List.mem_filter.mp member).1

theorem Closed.mapNodes (closed : graph.Closed) (change : Node → Node) :
    (graph.mapNodes change).Closed := by
  constructor
  · intro edge member
    rw [contains_mapNodes]
    exact closed.sources edge member
  · intro edge member
    rw [contains_mapNodes]
    exact closed.targets edge member

/-- No edge touches a number that no node has. -/
theorem Closed.not_touches
    (closed : graph.Closed) {id : NodeId} (absent : graph.contains id = false)
    {edge : Edge} (member : edge ∈ graph.edges) :
    edge.source ≠ id ∧ edge.target ≠ id := by
  constructor
  · rintro rfl
    simp [closed.sources edge member] at absent
  · rintro rfl
    simp [closed.targets edge member] at absent

/-- No edge of a closed graph touches a number that no node has. -/
theorem Closed.edges_withoutNode (closed : graph.Closed) (id : NodeId) :
    (graph.withoutNode id).edges = graph.edges.filter (!·.touches id) := by
  by_cases present : graph.contains id = true
  · exact Graph.edges_withoutNode present
  · rw [Graph.withoutNode, if_neg present]
    refine (List.filter_eq_self.mpr fun edge member => ?_).symm
    rcases closed.not_touches (Bool.eq_false_iff.mpr present) member with ⟨source, target⟩
    simp [Edge.touches, source, target]

/-! ## All nodes and edges -/

/-- Graphs are equal if they have the same nodes, edges, next number and output. -/
theorem eq_of_views {left right : Graph}
    (nodes : left.nodes = right.nodes) (edges : left.edges.Perm right.edges)
    (nextId : left.nextId = right.nextId) (output : left.output = right.output) :
    left = right := by
  have bag : left.bag = right.bag := EdgeBag.eq_of_perm edges
  cases left
  cases right
  simp_all

/-- Graphs are equal if looking nodes up and counting edges gives the same in both. -/
theorem eq_of_lookups {left right : Graph}
    (nodes : ∀ id, left.node? id = right.node? id)
    (edges : ∀ edge, left.multiplicity edge = right.multiplicity edge)
    (nextId : left.nextId = right.nextId) (output : left.output = right.output) :
    left = right := by
  have distinct : ∀ graph : Graph, graph.nodes.Nodup :=
    fun graph => List.Nodup.of_map Node.id graph.nodup_nodeIds
  have members : ∀ node, node ∈ left.nodes ↔ node ∈ right.nodes := by
    intro node
    constructor
    · intro member
      exact mem_nodes_of_node? ((nodes node.id).symm.trans (node?_of_mem member))
    · intro member
      exact mem_nodes_of_node? ((nodes node.id).trans (node?_of_mem member))
  have permuted : left.nodes.Perm right.nodes :=
    (List.perm_ext_iff_of_nodup (distinct left) (distinct right)).mpr members
  have sameNodes : left.nodes = right.nodes :=
    permuted.eq_of_pairwise (fun _ _ _ _ before after => absurd after (Nat.lt_asymm before))
      left.ascending right.ascending
  refine eq_of_views sameNodes (List.perm_iff_count.mpr fun edge => ?_) nextId output
  simpa only [multiplicity_eq_count] using edges edge

theorem nodes_addEdges (graph : Graph) (edges : List Edge) :
    (graph.addEdges edges).nodes = graph.nodes := by
  induction edges generalizing graph with
  | nil => rfl
  | cons edge others induction => exact induction (graph.addEdge edge)

theorem nextId_addEdges (graph : Graph) (edges : List Edge) :
    (graph.addEdges edges).nextId = graph.nextId := by
  induction edges generalizing graph with
  | nil => rfl
  | cons edge others induction => exact induction (graph.addEdge edge)

theorem nodes_withoutNode (graph : Graph) (id : NodeId) :
    (graph.withoutNode id).nodes = graph.nodes.filter (·.id != id) := by
  rw [withoutNode]
  split
  · rfl
  · rename_i absent
    refine (List.filter_eq_self.mpr fun node member => ?_).symm
    rw [bne_iff_ne]
    rintro rfl
    exact absent (contains_of_node? (node?_of_mem member))

theorem nextId_withoutNode (graph : Graph) (id : NodeId) :
    (graph.withoutNode id).nextId = graph.nextId := by
  rw [withoutNode]
  split <;> rfl

theorem output_withoutNode (graph : Graph) (id : NodeId) :
    (graph.withoutNode id).output =
      if graph.contains id = true ∧ graph.output = some id then none else graph.output := by
  rw [withoutNode]
  by_cases present : graph.contains id = true <;> simp [present]

theorem nodes_retain (graph : Graph) (kept : List NodeId) :
    (graph.retain kept).nodes = graph.nodes.filter (·.id ∈ kept) := by
  simp [retain, filterNodes, filterEdges]

/-- The edges that are retained lie within the list. -/
theorem edges_retain (graph : Graph) (kept : List NodeId) :
    (graph.retain kept).edges =
      graph.edges.filter fun edge => edge.source ∈ kept ∧ edge.target ∈ kept := by
  have filtered : (graph.retain kept).edges = graph.edges.filter fun edge =>
      kept.contains edge.source && kept.contains edge.target :=
    edges_filterEdges graph _
  rw [filtered]
  simp

end NodeMaterial.Graph
