import NodeMaterial.Graph.Reach
import NodeMaterial.Proofs.Paths

/-!
# The queue finds exactly what is reachable

The ancestors and the descendants of a node are found with a queue.  Here they are shown to
be exactly the nodes from which a path leads to the node and to which a path leads from it.

What has been found and what stands in the queue is reachable, as far as it is a node.  What
lies next to a node that has been found has been found too or stands in the queue.  When the
queue is empty, nothing next to a found node is missing.
-/

namespace NodeMaterial.Graph

open Relation

variable {graph : Graph} {next : NodeId → List NodeId} {root id : NodeId}
  {found queue : List NodeId}

/-- A node that a search can come to from a node, always inside the graph. -/
def Discovers (graph : Graph) (next : NodeId → List NodeId) (root id : NodeId) : Prop :=
  graph.contains root = true ∧
    ReflTransGen (fun member id => graph.contains id = true ∧ id ∈ next member) root id

/-- Between two turns of a search: what has been found, and what the queue still holds. -/
structure Exploring (graph : Graph) (next : NodeId → List NodeId) (root : NodeId)
    (found queue : List NodeId) : Prop where
  ascending : found.Pairwise (· < ·)
  sound : ∀ id ∈ found, graph.Discovers next root id
  queued : ∀ id ∈ queue, graph.contains id = true → graph.Discovers next root id
  started : graph.contains root = true → root ∈ found ∨ root ∈ queue
  covered : ∀ member ∈ found, ∀ id ∈ next member, graph.contains id = true →
    id ∈ found ∨ id ∈ queue

namespace Exploring

theorem start (graph : Graph) (next : NodeId → List NodeId) (root : NodeId) :
    graph.Exploring next root [] [root] where
  ascending := .nil
  sound := nofun
  queued id isRoot present := by
    obtain rfl := List.mem_singleton.mp isRoot
    exact ⟨present, .refl⟩
  started _ := .inr (List.mem_singleton_self root)
  covered := nofun

/-- A new node is found, and what lies next to it goes to the end of the queue. -/
theorem find (exploring : graph.Exploring next root found (id :: queue))
    (present : graph.contains id = true) :
    graph.Exploring next root (NodeSet.insert id found) (queue ++ next id) := by
  have discovered : graph.Discovers next root id :=
    exploring.queued id List.mem_cons_self present
  -- What was found or queued before still is, because only the new node has left the queue.
  have still : ∀ other, other ∈ found ∨ other ∈ id :: queue →
      other ∈ NodeSet.insert id found ∨ other ∈ queue ++ next id := by
    rintro other (old | waiting)
    · exact .inl (NodeSet.mem_insert.mpr (.inr old))
    · rcases List.mem_cons.mp waiting with rfl | later
      · exact .inl (NodeSet.mem_insert.mpr (.inl rfl))
      · exact .inr (List.mem_append_left _ later)
  constructor
  · exact NodeSet.ascending_insert id exploring.ascending
  · intro other member
    rcases NodeSet.mem_insert.mp member with rfl | old
    · exact discovered
    · exact exploring.sound other old
  · intro other member otherPresent
    rcases List.mem_append.mp member with later | near
    · exact exploring.queued other (List.mem_cons_of_mem _ later) otherPresent
    · exact ⟨discovered.1, discovered.2.tail ⟨otherPresent, near⟩⟩
  · exact fun rootPresent => still root (exploring.started rootPresent)
  · intro member memberFound other near otherPresent
    rcases NodeSet.mem_insert.mp memberFound with rfl | old
    · exact .inr (List.mem_append_right _ near)
    · exact still other (exploring.covered member old other near otherPresent)

/-- A number of no node, or of a node found before, leaves the queue. -/
theorem skip (exploring : graph.Exploring next root found (id :: queue))
    (known : ¬ (graph.contains id = true ∧ id ∉ found)) :
    graph.Exploring next root found queue := by
  have still : ∀ other, graph.contains other = true → other ∈ found ∨ other ∈ id :: queue →
      other ∈ found ∨ other ∈ queue := by
    rintro other present (old | waiting)
    · exact .inl old
    · rcases List.mem_cons.mp waiting with rfl | later
      · exact .inl (by_contra fun new => known ⟨present, new⟩)
      · exact .inr later
  constructor
  · exact exploring.ascending
  · exact exploring.sound
  · exact fun other later => exploring.queued other (List.mem_cons_of_mem _ later)
  · exact fun present => still root present (exploring.started present)
  · intro member memberFound other near present
    exact still other present (exploring.covered member memberFound other near present)

/-- A search ends with an empty queue. -/
theorem explore (exploring : graph.Exploring next root found queue) :
    graph.Exploring next root (graph.explore next found queue) [] := by
  fun_induction Graph.explore graph next found queue with
  | case1 found => exact exploring
  | case2 found id queue finds induction => exact induction (exploring.find finds.1)
  | case3 found id queue known induction => exact induction (exploring.skip known)

/-- With nothing left in the queue, everything that can be discovered has been found. -/
theorem mem_iff (exploring : graph.Exploring next root found []) :
    id ∈ found ↔ graph.Discovers next root id := by
  refine ⟨exploring.sound id, ?_⟩
  rintro ⟨present, path⟩
  induction path with
  | refl => exact (exploring.started present).resolve_right List.not_mem_nil
  | tail _ near induction =>
      exact (exploring.covered _ induction _ near.2 near.1).resolve_right List.not_mem_nil

end Exploring

/-- A search from a node finds what can be discovered, in the order of numbers. -/
theorem explore_spec (graph : Graph) (next : NodeId → List NodeId) (root : NodeId) :
    (graph.explore next [] [root]).Pairwise (· < ·) ∧
      ∀ id, id ∈ graph.explore next [] [root] ↔ graph.Discovers next root id := by
  have finished := (Exploring.start graph next root).explore
  exact ⟨finished.ascending, fun _ => finished.mem_iff⟩

/-! ## Back and forth along edges -/

/-- The table of predecessors has the source of each edge into a node. -/
theorem mem_predecessors {member : NodeId} :
    id ∈ (graph.predecessors.get? member).getD [] ↔
      ∃ edge ∈ graph.edges, edge.source = id ∧ edge.target = member := by
  rw [predecessors, Table.getD_get?_foldl_append fun entry : Edge × Nat => entry.1.target]
  simp only [Table.get?_nil, Option.getD_none, List.nil_append, List.mem_flatMap, List.mem_filter,
    beq_iff_eq, List.mem_singleton, edges, EdgeBag.mem_occurrences]
  constructor
  · rintro ⟨entry, ⟨member, target⟩, source⟩
    exact ⟨entry.1, ⟨entry, member, rfl⟩, source.symm, target⟩
  · rintro ⟨_, ⟨entry, member, rfl⟩, source, target⟩
    exact ⟨entry, ⟨member, target⟩, source.symm⟩

/-- The block of a node has the target of each edge that leaves it. -/
theorem mem_block_targets {member : NodeId} :
    id ∈ (graph.bag.block member).map (·.1.target) ↔
      ∃ edge ∈ graph.edges, edge.source = member ∧ edge.target = id := by
  simp only [EdgeBag.block_eq_filter, List.mem_map, List.mem_filter, beq_iff_eq, edges,
    EdgeBag.mem_occurrences]
  constructor
  · rintro ⟨entry, ⟨member, source⟩, target⟩
    exact ⟨entry.1, ⟨entry, member, rfl⟩, source, target⟩
  · rintro ⟨_, ⟨entry, member, rfl⟩, source, target⟩
    exact ⟨entry, ⟨member, source⟩, target⟩

theorem ancestors_ascending (graph : Graph) (root : NodeId) :
    (graph.ancestors root).Pairwise (· < ·) :=
  (graph.explore_spec _ root).1

theorem descendants_ascending (graph : Graph) (root : NodeId) :
    (graph.descendants root).Pairwise (· < ·) :=
  (graph.explore_spec _ root).1

/-- The ancestors of a node are the nodes from which a path leads to it. -/
theorem mem_ancestors :
    id ∈ graph.ancestors root ↔ graph.contains root = true ∧ graph.Reaches id root := by
  rw [ancestors, (graph.explore_spec _ root).2, Discovers]
  simp only [mem_predecessors]
  refine and_congr_right fun present => ⟨fun path => ?_, fun path => ?_⟩
  · have inside : graph.contains id = true ∧ graph.Reaches id root := by
      induction path with
      | refl => exact ⟨present, .refl⟩
      | tail _ near induction =>
          exact ⟨near.1, .head ⟨near.1, induction.1, near.2⟩ induction.2⟩
    exact inside.2
  · refine ReflTransGen.head_induction_on path .refl fun step _ induction => ?_
    exact induction.tail ⟨step.source_present, step.2.2⟩

/-- The descendants of a node are the nodes to which a path leads from it. -/
theorem mem_descendants :
    id ∈ graph.descendants root ↔ graph.contains root = true ∧ graph.Reaches root id := by
  rw [descendants, (graph.explore_spec _ root).2, Discovers]
  simp only [mem_block_targets]
  refine and_congr_right fun present => ⟨fun path => ?_, fun path => ?_⟩
  · have inside : graph.contains id = true ∧ graph.Reaches root id := by
      induction path with
      | refl => exact ⟨present, .refl⟩
      | tail _ near induction =>
          exact ⟨near.1, .tail induction.2 ⟨induction.1, near.1, near.2⟩⟩
    exact inside.2
  · exact ReflTransGen.mono (fun _ _ step => ⟨step.target_present, step.2.2⟩) _ _ path

end NodeMaterial.Graph
