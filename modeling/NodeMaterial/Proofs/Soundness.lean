import NodeMaterial.Pass.SharedTextures
import NodeMaterial.Proofs.Reachability

/-!
# Sound graphs

An edge of a sound graph starts at an output that exists, and unless the kind of its
source is excused it lands on an input that exists.  The sockets of geometry and
texture nodes fit their kinds.  Kinds are excused so that one development covers
graphs without any fault and graphs in which the edges of some kinds may miss.

Every pass is put together from a few operations on graphs.  This module shows what
each of them needs in order to keep a graph sound.
-/

namespace NodeMaterial

/-- Whether a pass may let the edges that leave a node of this kind start elsewhere. -/
def Kind.handsOn : Kind → Bool
  | .reroute => true
  | .group .replace => true
  | .geometry _ => true
  | .texture _ _ => true
  | .separateRgb => true
  | _ => false

/-- The sockets of a node fit its kind. -/
structure Node.Shaped (node : Node) : Prop where
  geometry : Graph.isGeometry node = true → node.inputs = [] ∧ node.outputs.length = 1
  texture : node.kind.isTexture = true →
    node.inputs.length = Graph.laneCount node ∧
      node.outputs.length = 2 * Graph.laneCount node

namespace Graph

/-- An edge starts at an output socket of a node. -/
def Starts (graph : Graph) (edge : Edge) : Prop :=
  ∃ node, graph.node? edge.source = some node ∧ edge.outSocket < node.outputs.length

/-- An edge ends at an input socket of a node. -/
def Lands (graph : Graph) (edge : Edge) : Prop :=
  ∃ node, graph.node? edge.target = some node ∧ edge.inSocket < node.inputs.length

instance (graph : Graph) (edge : Edge) : Decidable (graph.Starts edge) :=
  inferInstanceAs
    (Decidable (∃ node ∈ graph.node? edge.source, edge.outSocket < node.outputs.length))

instance (graph : Graph) (edge : Edge) : Decidable (graph.Lands edge) :=
  inferInstanceAs
    (Decidable (∃ node ∈ graph.node? edge.target, edge.inSocket < node.inputs.length))

/-- An edge starts at a node of a kind whose edges need not land. -/
def Excused (excused : Kind → Prop) (graph : Graph) (edge : Edge) : Prop :=
  ∃ node, graph.node? edge.source = some node ∧ excused node.kind

/--
Edges start at sockets and end at sockets, unless they are excused, and nodes have their shapes.
-/
structure Sound (excused : Kind → Prop) (graph : Graph) : Prop where
  starts : ∀ edge ∈ graph.edges, graph.Starts edge
  lands : ∀ edge ∈ graph.edges, graph.Excused excused edge ∨ graph.Lands edge
  shaped : ∀ id node, graph.node? id = some node → node.Shaped

/-- No edge enters a geometry accessor. -/
def Unfed (graph : Graph) : Prop :=
  ∀ edge ∈ graph.edges, ∀ node,
    graph.node? edge.target = some node → isGeometry node = false

instance (graph : Graph) : Decidable graph.Unfed :=
  inferInstanceAs (Decidable (∀ edge ∈ graph.edges, ∀ node ∈ graph.node? edge.target,
    isGeometry node = false))

/-- The nodes of one graph have the kinds that they have in another. -/
def KeepsKinds (other graph : Graph) : Prop :=
  ∀ id node, other.node? id = some node →
    ∃ old, graph.node? id = some old ∧ old.kind = node.kind

variable {excused : Kind → Prop} {graph other : Graph}

theorem isGeometry_eq_false_of_isTexture {node : Node} (texture : node.kind.isTexture = true) :
    isGeometry node = false := by
  cases kind : node.kind <;> simp_all [isGeometry, Kind.isTexture]

theorem Starts.present {edge : Edge} (starts : graph.Starts edge) :
    graph.contains edge.source = true := by
  rcases starts with ⟨node, found, -⟩
  exact contains_of_node? found

theorem Sound.source_present
    (sound : graph.Sound excused) {edge : Edge} (member : edge ∈ graph.edges) :
    graph.contains edge.source = true :=
  (sound.starts edge member).present

theorem Sound.lands_of_source
    (sound : graph.Sound excused) {edge : Edge} {node : Node}
    (member : edge ∈ graph.edges) (found : graph.node? edge.source = some node)
    (strict : ¬ excused node.kind) :
    graph.Lands edge := by
  rcases sound.lands edge member with ⟨other, otherFound, otherExcused⟩ | lands
  · have same : other = node := Option.some.inj (otherFound.symm.trans found)
    exact absurd (same ▸ otherExcused) strict
  · exact lands

/-- Where nothing is excused, no edge can enter a node without inputs. -/
theorem Sound.unfed (sound : graph.Sound fun _ => False) : graph.Unfed := by
  intro edge member node found
  rcases sound.lands edge member with ⟨_, _, impossible⟩ | ⟨target, targetFound, inRange⟩
  · exact impossible.elim
  · have same : target = node := Option.some.inj (targetFound.symm.trans found)
    subst same
    cases geometry : isGeometry target with
    | false => rfl
    | true =>
        have noInputs := ((sound.shaped _ _ found).geometry geometry).1
        simp [noInputs] at inRange

/-! ## Kinds -/

theorem KeepsKinds.refl (graph : Graph) : graph.KeepsKinds graph :=
  fun _ node found => ⟨node, found, rfl⟩

/-- Kinds can be followed back through several changes. -/
theorem KeepsKinds.trans {third : Graph}
    (left : third.KeepsKinds other) (right : other.KeepsKinds graph) :
    third.KeepsKinds graph := by
  intro id node found
  rcases left id node found with ⟨middle, middleFound, middleKind⟩
  rcases right id middle middleFound with ⟨old, oldFound, oldKind⟩
  exact ⟨old, oldFound, oldKind.trans middleKind⟩

theorem keepsKinds_of_nodes
    (nodes : ∀ id node, other.node? id = some node → graph.node? id = some node) :
    other.KeepsKinds graph :=
  fun id node found => ⟨node, nodes id node found, rfl⟩

theorem keepsKinds_withoutNode (graph : Graph) (id : NodeId) :
    (graph.withoutNode id).KeepsKinds graph :=
  keepsKinds_of_nodes fun _ _ found => (node?_withoutNode_eq_some_iff.mp found).2

theorem keepsKinds_addEdges (graph : Graph) (edges : List Edge) :
    (graph.addEdges edges).KeepsKinds graph :=
  keepsKinds_of_nodes fun _ _ found => by rwa [node?_addEdges] at found

/-- A change of nodes that leaves kinds alone keeps all kinds. -/
theorem keepsKinds_mapNodes
    (graph : Graph) {change : Node → Node} (kind : ∀ node, (change node).kind = node.kind) :
    (graph.mapNodes change).KeepsKinds graph := by
  intro id node found
  rw [node?_mapNodes, Option.map_eq_some_iff] at found
  rcases found with ⟨old, oldFound, rfl⟩
  exact ⟨old, oldFound, (kind old).symm⟩

theorem keepsKinds_modifyNode
    (graph : Graph) (id : NodeId) {change : Node → Node}
    (kind : ∀ node, (change node).kind = node.kind) :
    (graph.modifyNode id change).KeepsKinds graph := by
  apply keepsKinds_mapNodes
  intro node
  split
  · exact kind node
  · rfl

/-! ## Operations that keep a graph sound -/

/-- Edges between sockets can be added. -/
theorem Sound.addEdges
    (sound : graph.Sound excused) {edges : List Edge}
    (starts : ∀ edge ∈ edges, graph.Starts edge)
    (lands : ∀ edge ∈ edges, graph.Excused excused edge ∨ graph.Lands edge) :
    (graph.addEdges edges).Sound excused where
  starts edge member := by
    have starts : graph.Starts edge :=
      (mem_edges_addEdges.mp member).elim (sound.starts edge) (starts edge)
    simpa [Starts] using starts
  lands edge member := by
    have lands : graph.Excused excused edge ∨ graph.Lands edge :=
      (mem_edges_addEdges.mp member).elim (sound.lands edge) (lands edge)
    simpa [Excused, Lands] using lands
  shaped id node found := sound.shaped id node (by rwa [node?_addEdges] at found)

/--
A graph with some of the edges and some of the nodes of a sound graph is sound if
both ends of the edges that are left are nodes that are left.
-/
theorem Sound.restrict
    (sound : graph.Sound excused)
    (edges : ∀ edge ∈ other.edges, edge ∈ graph.edges)
    (nodes : ∀ id node, other.node? id = some node → graph.node? id = some node)
    (sources : ∀ edge ∈ other.edges, other.node? edge.source = graph.node? edge.source)
    (targets : ∀ edge ∈ other.edges, other.node? edge.target = graph.node? edge.target) :
    other.Sound excused where
  starts edge member := by
    rcases sound.starts edge (edges edge member) with ⟨node, found, inRange⟩
    exact ⟨node, (sources edge member).trans found, inRange⟩
  lands edge member := by
    rcases sound.lands edge (edges edge member) with
      ⟨node, found, kind⟩ | ⟨node, found, inRange⟩
    · exact Or.inl ⟨node, (sources edge member).trans found, kind⟩
    · exact Or.inr ⟨node, (targets edge member).trans found, inRange⟩
  shaped id node found := sound.shaped id node (nodes id node found)

theorem Sound.filterEdges (sound : graph.Sound excused) (keeps : Edge → Bool) :
    (graph.filterEdges keeps).Sound excused := by
  apply sound.restrict
  · intro edge member
    rw [edges_filterEdges] at member
    exact (List.mem_filter.mp member).1
  · intro id node found
    exact found
  · intro edge _
    rfl
  · intro edge _
    rfl

/-- A node leaves with its edges, so nothing is left hanging. -/
theorem Sound.withoutNode (sound : graph.Sound excused) (id : NodeId) :
    (graph.withoutNode id).Sound excused := by
  by_cases present : graph.contains id = true
  · apply sound.restrict
    · intro edge member
      exact ((mem_edges_withoutNode present).mp member).1
    · intro other node found
      exact (node?_withoutNode_eq_some_iff.mp found).2
    · intro edge member
      exact node?_withoutNode_of_ne graph ((mem_edges_withoutNode present).mp member).2.1
    · intro edge member
      exact node?_withoutNode_of_ne graph ((mem_edges_withoutNode present).mp member).2.2
  · rwa [Graph.withoutNode, if_neg present]

/-- Edges that are kept have both ends among the kept nodes. -/
theorem Sound.retain (sound : graph.Sound excused) (kept : List NodeId) :
    (graph.retain kept).Sound excused := by
  apply sound.restrict
  · intro edge member
    exact (mem_edges_retain.mp member).1
  · intro id node found
    exact (node?_retain_eq_some_iff.mp found).2
  · intro edge member
    rw [node?_retain, if_pos (mem_edges_retain.mp member).2.1]
  · intro edge member
    rw [node?_retain, if_pos (mem_edges_retain.mp member).2.2]

/-- Nodes may change if they keep their kinds and the numbers of their sockets. -/
theorem Sound.mapNodes
    (sound : graph.Sound excused) {change : Node → Node}
    (kind : ∀ node, (change node).kind = node.kind)
    (inputs : ∀ node, (change node).inputs.length = node.inputs.length)
    (outputs : ∀ node, (change node).outputs.length = node.outputs.length) :
    (graph.mapNodes change).Sound excused where
  starts edge member := by
    rcases sound.starts edge member with ⟨node, found, inRange⟩
    refine ⟨{ change node with id := node.id }, ?_, ?_⟩
    · rw [node?_mapNodes, found]
      rfl
    · exact (outputs node).symm ▸ inRange
  lands edge member := by
    rcases sound.lands edge member with ⟨node, found, excuse⟩ | ⟨node, found, inRange⟩
    · refine Or.inl ⟨{ change node with id := node.id }, ?_, ?_⟩
      · rw [node?_mapNodes, found]
        rfl
      · exact (kind node).symm ▸ excuse
    · refine Or.inr ⟨{ change node with id := node.id }, ?_, ?_⟩
      · rw [node?_mapNodes, found]
        rfl
      · exact (inputs node).symm ▸ inRange
  shaped id node found := by
    rw [node?_mapNodes, Option.map_eq_some_iff] at found
    rcases found with ⟨old, oldFound, rfl⟩
    have oldShaped := sound.shaped id old oldFound
    constructor
    · intro geometry
      simp only [isGeometry, kind old] at geometry
      rcases oldShaped.geometry geometry with ⟨noInputs, oneOutput⟩
      refine ⟨List.eq_nil_of_length_eq_zero ?_, (outputs old).trans oneOutput⟩
      rw [inputs old, noInputs]
      rfl
    · intro texture
      simp only [kind old] at texture
      have lanes := oldShaped.texture texture
      simpa only [laneCount, kind old, inputs old, outputs old] using lanes

/-- A node may change if the edges at it still find their sockets. -/
theorem Sound.modifyNode
    (sound : graph.Sound excused) {id : NodeId} {node : Node} {change : Node → Node}
    (found : graph.node? id = some node)
    (outputs : ∀ edge ∈ graph.edges, edge.source = id →
      edge.outSocket < (change node).outputs.length)
    (inputs : ∀ edge ∈ graph.edges, edge.target = id →
      graph.Excused excused edge ∨ edge.inSocket < (change node).inputs.length)
    (kind : excused node.kind → excused (change node).kind)
    (shaped : (change node).Shaped) :
    (graph.modifyNode id change).Sound excused where
  starts edge member := by
    by_cases source : edge.source = id
    · refine ⟨{ change node with id }, ?_, outputs edge member source⟩
      rw [source]
      exact node?_modifyNode_self change found
    · rcases sound.starts edge member with ⟨old, oldFound, inRange⟩
      exact ⟨old, (node?_modifyNode_of_ne graph change source).trans oldFound, inRange⟩
  lands edge member := by
    have excuse : graph.Excused excused edge →
        (graph.modifyNode id change).Excused excused edge := by
      rintro ⟨old, oldFound, oldKind⟩
      by_cases source : edge.source = id
      · have same : old = node := by
          rw [source] at oldFound
          exact Option.some.inj (oldFound.symm.trans found)
        subst same
        refine ⟨{ change old with id }, ?_, kind oldKind⟩
        rw [source]
        exact node?_modifyNode_self change found
      · exact ⟨old, (node?_modifyNode_of_ne graph change source).trans oldFound, oldKind⟩
    by_cases target : edge.target = id
    · refine (inputs edge member target).imp excuse fun inRange => ?_
      refine ⟨{ change node with id }, ?_, inRange⟩
      rw [target]
      exact node?_modifyNode_self change found
    · refine (sound.lands edge member).imp excuse fun ⟨old, oldFound, inRange⟩ => ?_
      exact ⟨old, (node?_modifyNode_of_ne graph change target).trans oldFound, inRange⟩
  shaped other old oldFound := by
    by_cases same : other = id
    · subst same
      rw [node?_modifyNode_self change found, Option.some.injEq] at oldFound
      rw [← oldFound]
      exact ⟨shaped.geometry, shaped.texture⟩
    · rw [node?_modifyNode_of_ne graph change same] at oldFound
      exact sound.shaped other old oldFound

theorem Starts.modifyNode
    {edge : Edge} (starts : graph.Starts edge) (id : NodeId) {change : Node → Node}
    (outputs : ∀ node, node.outputs.length ≤ (change node).outputs.length) :
    (graph.modifyNode id change).Starts edge := by
  rcases starts with ⟨node, found, inRange⟩
  by_cases source : edge.source = id
  · subst source
    exact ⟨_, node?_modifyNode_self change found, Nat.lt_of_lt_of_le inRange (outputs node)⟩
  · exact ⟨node, (node?_modifyNode_of_ne graph change source).trans found, inRange⟩

theorem Lands.modifyNode
    {edge : Edge} (lands : graph.Lands edge) (id : NodeId) {change : Node → Node}
    (inputs : ∀ node, node.inputs.length ≤ (change node).inputs.length) :
    (graph.modifyNode id change).Lands edge := by
  rcases lands with ⟨node, found, inRange⟩
  by_cases target : edge.target = id
  · subst target
    exact ⟨_, node?_modifyNode_self change found, Nat.lt_of_lt_of_le inRange (inputs node)⟩
  · exact ⟨node, (node?_modifyNode_of_ne graph change target).trans found, inRange⟩

theorem Excused.modifyNode
    {edge : Edge} (excuse : graph.Excused excused edge) (id : NodeId) {change : Node → Node}
    (kind : ∀ node, (change node).kind = node.kind) :
    (graph.modifyNode id change).Excused excused edge := by
  rcases excuse with ⟨node, found, nodeExcused⟩
  by_cases source : edge.source = id
  · subst source
    exact ⟨_, node?_modifyNode_self change found, by simpa only [kind node] using nodeExcused⟩
  · exact ⟨node, (node?_modifyNode_of_ne graph change source).trans found, nodeExcused⟩

/-- What an edge finds at a node that is known. -/
theorem Starts.outSocket_lt
    {edge : Edge} {node : Node} (starts : graph.Starts edge)
    (found : graph.node? edge.source = some node) :
    edge.outSocket < node.outputs.length := by
  rcases starts with ⟨other, otherFound, inRange⟩
  rwa [Option.some.inj (otherFound.symm.trans found)] at inRange

theorem Lands.inSocket_lt
    {edge : Edge} {node : Node} (lands : graph.Lands edge)
    (found : graph.node? edge.target = some node) :
    edge.inSocket < node.inputs.length := by
  rcases lands with ⟨other, otherFound, inRange⟩
  rwa [Option.some.inj (otherFound.symm.trans found)] at inRange

/-! ## Operations that keep accessors unfed -/

theorem Unfed.target_not_geometry
    (unfed : graph.Unfed) {edge : Edge} (member : edge ∈ graph.edges) {node : Node}
    (found : graph.node? edge.target = some node) :
    ¬ isGeometry node = true := by
  rw [unfed edge member node found]
  exact Bool.false_ne_true

/-- Edges that end where edges ended before enter no accessor. -/
theorem Unfed.of_targets
    (unfed : graph.Unfed) (kinds : other.KeepsKinds graph)
    (targets : ∀ edge ∈ other.edges, ∃ old ∈ graph.edges, old.target = edge.target) :
    other.Unfed := by
  intro edge member node found
  rcases targets edge member with ⟨oldEdge, oldMember, sameTarget⟩
  rcases kinds _ _ found with ⟨old, oldFound, sameKind⟩
  have oldUnfed := unfed oldEdge oldMember old (by rw [sameTarget]; exact oldFound)
  simpa only [isGeometry, sameKind] using oldUnfed

theorem Unfed.withoutNode (unfed : graph.Unfed) (id : NodeId) :
    (graph.withoutNode id).Unfed :=
  unfed.of_targets (keepsKinds_withoutNode graph id) fun edge member =>
    ⟨edge, mem_edges_of_mem_edges_withoutNode member, rfl⟩

theorem Unfed.addEdges
    (unfed : graph.Unfed) {edges : List Edge}
    (targets : ∀ edge ∈ edges, ∃ old ∈ graph.edges, old.target = edge.target) :
    (graph.addEdges edges).Unfed := by
  refine unfed.of_targets (keepsKinds_addEdges graph edges) fun edge member => ?_
  rcases mem_edges_addEdges.mp member with old | new
  · exact ⟨edge, old, rfl⟩
  · exact targets edge new

theorem Unfed.retain (unfed : graph.Unfed) (kept : List NodeId) :
    (graph.retain kept).Unfed :=
  unfed.of_targets
    (keepsKinds_of_nodes fun _ _ found => (node?_retain_eq_some_iff.mp found).2)
    fun edge member => ⟨edge, (mem_edges_retain.mp member).1, rfl⟩

/-! ## Operations that keep a graph acyclic -/

theorem Acyclic.of_steps
    (acyclic : graph.Acyclic)
    (steps : ∀ first second, other.Step first second → graph.Step first second) :
    other.Acyclic :=
  acyclic.of_shortcuts fun first second step => .single (steps first second step)

/-- Fewer nodes, and edges that run as old ones do, make no new steps. -/
theorem Acyclic.of_parallel
    (acyclic : graph.Acyclic)
    (present : ∀ id, other.contains id = true → graph.contains id = true)
    (edges : ∀ edge ∈ other.edges, ∃ old ∈ graph.edges,
      old.source = edge.source ∧ old.target = edge.target) :
    other.Acyclic := by
  apply acyclic.of_steps
  rintro first second ⟨firstPresent, secondPresent, edge, member, rfl, rfl⟩
  rcases edges edge member with ⟨old, oldMember, source, target⟩
  exact ⟨present _ firstPresent, present _ secondPresent, old, oldMember, source, target⟩

theorem Acyclic.retain (acyclic : graph.Acyclic) (kept : List NodeId) :
    (graph.retain kept).Acyclic := by
  apply acyclic.of_parallel
  · intro id present
    rcases contains_iff.mp present with ⟨node, found⟩
    exact contains_of_node? (node?_retain_eq_some_iff.mp found).2
  · intro edge member
    exact ⟨edge, (mem_edges_retain.mp member).1, rfl, rfl⟩

theorem KeepsKinds.present
    (kinds : other.KeepsKinds graph) (id : NodeId) (present : other.contains id = true) :
    graph.contains id = true := by
  rcases contains_iff.mp present with ⟨node, found⟩
  rcases kinds id node found with ⟨old, oldFound, -⟩
  exact contains_of_node? oldFound

end Graph

end NodeMaterial
