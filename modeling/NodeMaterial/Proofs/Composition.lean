import NodeMaterial.Instruction
import NodeMaterial.Proofs.Order
import NodeMaterial.Proofs.Soundness

/-!
# When a graph composes

Composition fails on a graph with a cycle, and on an edge that does not find its
sockets; it succeeds on all other graphs.  While edges are followed, the instruction
of a node keeps all that it has taken over from the node, the numbers of sockets
among it, so whether an edge finds its sockets can be read off the graph.
-/

namespace NodeMaterial

open NodeMaterial.Graph

/-- What an instruction takes over from its node. -/
structure Outline where
  tag : String
  inputs : Nat
  outputs : Nat
  params : List Param
  vertexParams : List String

/-- The outline that the instruction of a node has to have. -/
def Node.outline (node : Node) : Outline :=
  ⟨node.kind.tag, node.inputs.length, node.outputs.length, node.params,
    node.vertexParams.map (·.name)⟩

/-- What an instruction shows apart from its names. -/
def Instruction.outline (instruction : Instruction) : Outline :=
  ⟨instruction.tag, instruction.inputs.length, instruction.outputs.length, instruction.params,
    instruction.vertexParams⟩

theorem tag_of_outline
    {instruction : Instruction} {node : Node} (same : instruction.outline = node.outline) :
    instruction.tag = node.kind.tag :=
  congrArg Outline.tag same

theorem length_inputs_of_outline
    {instruction : Instruction} {node : Node} (same : instruction.outline = node.outline) :
    instruction.inputs.length = node.inputs.length :=
  congrArg Outline.inputs same

theorem length_outputs_of_outline
    {instruction : Instruction} {node : Node} (same : instruction.outline = node.outline) :
    instruction.outputs.length = node.outputs.length :=
  congrArg Outline.outputs same

namespace Wiring

variable {graph : Graph} {wiring next : Wiring} {edge : Edge}

/-! ## Outlines -/

/-- The outlines of the instructions so far. -/
def outlines (wiring : Wiring) : List (NodeId × Outline) :=
  wiring.records.map fun entry => (entry.1, entry.2.outline)

/-- A change of one instruction is seen at its node only. -/
theorem record?_modify
    (wiring : Wiring) (id other : NodeId) (change : Instruction → Instruction) :
    (wiring.modify id change).record? other =
      (wiring.record? other).map fun instruction =>
        if other = id then change instruction else instruction := by
  have found : (wiring.modify id change).records.find? (·.1 == other) =
      (wiring.records.find? (·.1 == other)).map fun entry =>
        (entry.1, if entry.1 == id then change entry.2 else entry.2) := by
    rw [modify, List.find?_map]
    rfl
  rw [record?, record?, found]
  cases entryFound : wiring.records.find? (·.1 == other) with
  | none => rfl
  | some entry =>
      have entryId : entry.1 = other := by simpa using List.find?_some entryFound
      simp [entryId]

theorem outline_setInput (place : Nat) (name : String) (instruction : Instruction) :
    (instruction.setInput place name).outline = instruction.outline := by
  simp [Instruction.outline, Instruction.setInput]

theorem outline_setOutput (place : Nat) (name : String) (instruction : Instruction) :
    (instruction.setOutput place name).outline = instruction.outline := by
  simp [Instruction.outline, Instruction.setOutput]

theorem outlines_modify
    (wiring : Wiring) (id : NodeId) {change : Instruction → Instruction}
    (kept : ∀ instruction, (change instruction).outline = instruction.outline) :
    (wiring.modify id change).outlines = wiring.outlines := by
  simp only [outlines, modify, List.map_map]
  apply List.map_congr_left
  intro entry _
  dsimp only [Function.comp]
  split
  · rw [kept entry.2]
  · rfl

theorem outlines_connect (wiring : Wiring) (edge : Edge) (name : String) :
    (wiring.connect edge name).outlines = wiring.outlines := by
  rw [connect, outlines_modify _ _ (outline_setInput edge.inSocket name),
    outlines_modify _ _ (outline_setOutput edge.outSocket name)]

/-- What an edge that can be followed finds, and what following it does. -/
theorem follow_eq_ok
    (followed : follow graph wiring edge = .ok next) :
    ∃ producer socket, wiring.record? edge.source = some producer ∧
      startSocket? graph edge = some socket ∧
      wiring.hasInput edge.target edge.inSocket = true ∧
      next = { wiring with
        names := (wiring.outputName producer edge.outSocket socket).2 }.connect edge
          (wiring.outputName producer edge.outSocket socket).1 := by
  rw [follow] at followed
  split at followed
  · rename_i producer socket record socketFound
    split at followed
    · rename_i lands
      exact ⟨producer, socket, record, socketFound, lands, (Except.ok.inj followed).symm⟩
    · cases followed
  · cases followed

theorem outlines_follow (followed : follow graph wiring edge = .ok next) :
    next.outlines = wiring.outlines := by
  rcases follow_eq_ok followed with ⟨producer, socket, -, -, -, rfl⟩
  exact outlines_connect _ edge _

/-- What every followed edge keeps is kept by all of them together. -/
theorem followAll_induction
    (Kept : Wiring → Prop) {edges : List Edge} {final : Wiring}
    (step : ∀ current edge next, edge ∈ edges → follow graph current edge = .ok next →
      Kept current → Kept next)
    (start : Kept wiring) (done : followAll graph edges wiring = .ok final) :
    Kept final := by
  induction edges generalizing wiring with
  | nil =>
      rw [followAll, Except.ok.injEq] at done
      exact done ▸ start
  | cons edge others induction =>
      rw [followAll] at done
      split at done
      · cases done
      · rename_i next followed
        refine induction (fun current other next member => ?_)
          (step wiring edge next List.mem_cons_self followed start) done
        exact step current other next (List.mem_cons_of_mem _ member)

theorem outlines_followAll
    {edges : List Edge} {final : Wiring} (done : followAll graph edges wiring = .ok final) :
    final.outlines = wiring.outlines := by
  apply followAll_induction (fun current => current.outlines = wiring.outlines) ?_ rfl done
  intro current edge next _ followed kept
  rw [outlines_follow followed, kept]

/-- Each node has an instruction with its outline, and nothing else has one. -/
def Fits (graph : Graph) (wiring : Wiring) : Prop :=
  ∀ id, (wiring.record? id).map Instruction.outline = (graph.node? id).map Node.outline

theorem record?_map_outline (wiring : Wiring) (id : NodeId) :
    (wiring.record? id).map Instruction.outline =
      (wiring.outlines.find? (·.1 == id)).map (·.2) := by
  rw [record?, outlines, List.find?_map, Option.map_map, Option.map_map]
  rfl

theorem Fits.of_outlines (fits : wiring.Fits graph) (same : next.outlines = wiring.outlines) :
    next.Fits graph := by
  intro id
  rw [record?_map_outline, same, ← record?_map_outline, fits id]

/-! ## Following edges -/

/-- Every node has an instruction of its own outline. -/
theorem Fits.record?_of_node?
    (fits : wiring.Fits graph) {id : NodeId} {node : Node} (found : graph.node? id = some node) :
    ∃ instruction, wiring.record? id = some instruction ∧
      instruction.outline = node.outline := by
  have same := fits id
  rw [found, Option.map_some, Option.map_eq_some_iff] at same
  exact same

/-- The instruction of a node has an input wherever an edge lands in range. -/
theorem Fits.hasInput_iff (fits : wiring.Fits graph) :
    wiring.hasInput edge.target edge.inSocket = true ↔ graph.Lands edge := by
  have same := fits edge.target
  rw [hasInput, Lands]
  cases found : graph.node? edge.target with
  | none =>
      rw [found, Option.map_none, Option.map_eq_none_iff] at same
      simp [same]
  | some node =>
      rcases fits.record?_of_node? found with ⟨instruction, record, outline⟩
      simp [record, length_inputs_of_outline outline]

/-- An edge starts at a socket if it starts in range. -/
theorem startSocket?_isSome_iff :
    (∃ socket, startSocket? graph edge = some socket) ↔ graph.Starts edge := by
  rw [startSocket?, Starts]
  cases graph.node? edge.source with
  | none => simp
  | some node => simp [← Option.isSome_iff_exists]

/-- An edge that starts and lands in range can be followed. -/
theorem follow_of_lands
    (fits : wiring.Fits graph) (starts : graph.Starts edge) (lands : graph.Lands edge) :
    ∃ next, follow graph wiring edge = .ok next ∧ next.Fits graph := by
  rcases startSocket?_isSome_iff.mpr starts with ⟨socket, socketFound⟩
  rcases starts with ⟨node, found, -⟩
  rcases fits.record?_of_node? found with ⟨producer, record, -⟩
  have succeeds : ∃ next, follow graph wiring edge = .ok next := by
    rw [follow, record, socketFound]
    exact ⟨_, if_pos (fits.hasInput_iff.mpr lands)⟩
  rcases succeeds with ⟨next, followed⟩
  exact ⟨next, followed, fits.of_outlines (outlines_follow followed)⟩

/-- An edge that misses a socket is reported. -/
theorem follow_of_misses
    (fits : wiring.Fits graph) (misses : ¬ (graph.Starts edge ∧ graph.Lands edge)) :
    follow graph wiring edge = .error (.danglingEdge edge) := by
  rw [follow]
  split
  · rename_i producer socket record socketFound
    have starts : graph.Starts edge := startSocket?_isSome_iff.mp ⟨socket, socketFound⟩
    apply if_neg
    intro hasInput
    exact misses ⟨starts, fits.hasInput_iff.mp hasInput⟩
  · rfl

/-- Following edges ends at the first one that does not find its sockets. -/
theorem followAll_cases (edges : List Edge) (fits : wiring.Fits graph) :
    (∃ next, followAll graph edges wiring = .ok next ∧
      ∀ edge ∈ edges, graph.Starts edge ∧ graph.Lands edge) ∨
    ∃ edge ∈ edges, ¬ (graph.Starts edge ∧ graph.Lands edge) ∧
      followAll graph edges wiring = .error (.danglingEdge edge) := by
  induction edges generalizing wiring with
  | nil => exact Or.inl ⟨wiring, rfl, by simp⟩
  | cons edge others induction =>
      rw [followAll]
      by_cases finds : graph.Starts edge ∧ graph.Lands edge
      · rcases follow_of_lands fits finds.1 finds.2 with ⟨next, followed, nextFits⟩
        rw [followed]
        rcases induction nextFits with ⟨final, rest, othersFind⟩ | ⟨other, member, rest⟩
        · refine Or.inl ⟨final, rest, ?_⟩
          intro other member
          rcases List.mem_cons.mp member with rfl | later
          · exact finds
          · exact othersFind other later
        · exact Or.inr ⟨other, List.mem_cons_of_mem _ member, rest⟩
      · rw [follow_of_misses fits finds]
        exact Or.inr ⟨edge, List.mem_cons_self, finds, rfl⟩

/-- An edge that is followed ends at an instruction that has been there all the time. -/
theorem record?_target_of_followAll
    {edges : List Edge} {final : Wiring} (done : followAll graph edges wiring = .ok final)
    (member : edge ∈ edges) : ∃ instruction, wiring.record? edge.target = some instruction := by
  induction edges generalizing wiring with
  | nil => cases member
  | cons first others induction =>
      rw [followAll] at done
      split at done
      · cases done
      · rename_i next followed
        rcases List.mem_cons.mp member with rfl | later
        · rw [follow] at followed
          split at followed
          · split at followed
            · rename_i hasInput
              rw [Wiring.hasInput, Option.any_eq_true] at hasInput
              rcases hasInput with ⟨instruction, record, -⟩
              exact ⟨instruction, record⟩
            · cases followed
          · cases followed
        · rcases induction done later with ⟨instruction, record⟩
          have same := record?_map_outline next edge.target
          rw [outlines_follow followed, ← record?_map_outline, record] at same
          rcases Option.map_eq_some_iff.mp same.symm with ⟨old, oldRecord, -⟩
          exact ⟨old, oldRecord⟩

/-! ## Setting up -/

theorem length_nameInputs (tag : String) (sockets : List Socket) (names : NameSupply) :
    (Instruction.nameInputs tag sockets names).1.length = sockets.length := by
  induction sockets generalizing names with
  | nil => rfl
  | cons socket others induction =>
      rw [Instruction.nameInputs]
      split
      · exact congrArg Nat.succ (induction names)
      · exact congrArg Nat.succ (induction _)

theorem length_nameOutputs (tag : String) (sockets : List Socket) (names : NameSupply) :
    (Instruction.nameOutputs tag sockets names).1.length = sockets.length := by
  induction sockets generalizing names with
  | nil => rfl
  | cons socket others induction =>
      rw [Instruction.nameOutputs]
      split
      · exact congrArg Nat.succ (induction names)
      · exact congrArg Nat.succ (induction _)

theorem outline_ofNode (node : Node) (names : NameSupply) :
    (Instruction.ofNode node names).1.outline = node.outline := by
  simp [Instruction.ofNode, Instruction.outline, Node.outline, length_nameInputs,
    length_nameOutputs]

/-- Instructions are set up for the nodes in order. -/
theorem outlines_setUp (nodes : List Node) (names : NameSupply) :
    (setUp nodes names).outlines = nodes.map fun node => (node.id, node.outline) := by
  induction nodes generalizing names with
  | nil => rfl
  | cons node others induction =>
      rw [List.map_cons, ← outline_ofNode node names]
      exact congrArg _ (induction _)

/-- Looking a node up among the nodes of an order is looking it up in the graph. -/
theorem find?_filterMap_node?
    {order : List NodeId} (complete : ∀ id, graph.contains id = true → id ∈ order)
    (id : NodeId) :
    (order.filterMap graph.node?).find? (·.id == id) = graph.node? id := by
  have found_of_mem : ∀ node ∈ order.filterMap graph.node?, graph.node? node.id = some node := by
    intro node member
    rcases List.mem_filterMap.mp member with ⟨place, -, found⟩
    exact node?_of_mem (mem_nodes_of_node? found)
  cases found : graph.node? id with
  | none =>
      refine List.find?_eq_none.mpr fun node member sameId => ?_
      have nodeFound := found_of_mem node member
      rw [beq_iff_eq.mp sameId, found] at nodeFound
      simp at nodeFound
  | some node =>
      have member : node ∈ order.filterMap graph.node? :=
        List.mem_filterMap.mpr ⟨id, complete id (contains_of_node? found), found⟩
      have isSome : ((order.filterMap graph.node?).find? (·.id == id)).isSome = true := by
        rw [List.find?_isSome]
        exact ⟨node, member, by simp [id_of_node? found]⟩
      rcases Option.isSome_iff_exists.mp isSome with ⟨first, firstFound⟩
      have firstId : first.id = id := by simpa using List.find?_some firstFound
      have same := found_of_mem first (List.mem_of_find?_eq_some firstFound)
      rw [firstId, found] at same
      rw [firstFound, same]

/-- An order of all nodes sets up an instruction for each. -/
theorem fits_setUp
    {order : List NodeId} (complete : ∀ id, graph.contains id = true → id ∈ order)
    (names : NameSupply) :
    (setUp (order.filterMap graph.node?) names).Fits graph := by
  intro id
  rw [record?_map_outline, outlines_setUp, List.find?_map, Option.map_map,
    ← find?_filterMap_node? complete]
  rfl

end Wiring

namespace Graph

variable {graph : Graph}

/-- Composing follows the edges that leave the nodes of the order. -/
theorem mem_flatMap_outEdges {order : List NodeId} {edge : Edge} :
    edge ∈ order.flatMap graph.outEdges ↔ edge ∈ graph.edges ∧ edge.source ∈ order := by
  simp only [List.mem_flatMap, mem_outEdges]
  constructor
  · rintro ⟨id, placed, member, rfl⟩
    exact ⟨member, placed⟩
  · rintro ⟨member, placed⟩
    exact ⟨edge.source, placed, member, rfl⟩

theorem placed_of_perm
    {order : List NodeId} (perm : order.Perm graph.nodeIds) (id : NodeId)
    (present : graph.contains id = true) : id ∈ order :=
  perm.mem_iff.mpr (mem_nodeIds.mpr present)

/-- On an acyclic graph only an edge that does not find its sockets is reported. -/
theorem Acyclic.compose_cases
    (acyclic : graph.Acyclic)
    (sources : ∀ edge ∈ graph.edges, graph.contains edge.source = true) :
    (∃ instructions, graph.compose = .ok instructions ∧
      ∀ edge ∈ graph.edges, graph.Starts edge ∧ graph.Lands edge) ∨
    ∃ edge ∈ graph.edges, ¬ (graph.Starts edge ∧ graph.Lands edge) ∧
      graph.compose = .error (.danglingEdge edge) := by
  rcases acyclic.exists_order sources with ⟨order, ordered, placed⟩
  rw [compose, ordered]
  dsimp only
  rcases Wiring.followAll_cases (order.flatMap graph.outEdges) (Wiring.fits_setUp placed {}) with
    ⟨final, finished, find⟩ | ⟨edge, member, misses, failed⟩
  · rw [finished]
    refine Or.inl ⟨_, rfl, fun edge member => ?_⟩
    exact find edge (mem_flatMap_outEdges.mpr ⟨member, placed _ (sources edge member)⟩)
  · rw [failed]
    exact Or.inr ⟨edge, (mem_flatMap_outEdges.mp member).1, misses, rfl⟩

/-- An order of all numbers lists all nodes. -/
theorem filterMap_node?_perm
    {order : List NodeId} (perm : order.Perm graph.nodeIds) :
    (order.filterMap graph.node?).Perm graph.nodes := by
  have whole : graph.nodeIds.filterMap graph.node? = graph.nodes := by
    rw [nodeIds, List.filterMap_map]
    refine (List.filterMap_congr fun node member => ?_).trans List.filterMap_some
    exact node?_of_mem member
  rw [← whole]
  exact perm.filterMap graph.node?

/-- If all edges of an order are followed, there is nothing in the order but nodes. -/
theorem contains_of_followAll
    {order : List NodeId} {final : Wiring} (ordered : graph.topologicalOrder = .ok order)
    (done : Wiring.followAll graph (order.flatMap graph.outEdges)
      (Wiring.setUp (order.filterMap graph.node?) {}) = .ok final)
    (id : NodeId) (placed : id ∈ order) :
    graph.contains id = true := by
  rcases (topologicalOrder_eq_ok ordered).1.greedy.vertex placed with
    present | ⟨edge, member, rfl⟩
  · exact present
  · -- The edge to the number is followed, so the number has an instruction, as only nodes do.
    have source := (forward_of_ordered ordered member placed).1
    rcases Wiring.record?_target_of_followAll done (mem_flatMap_outEdges.mpr ⟨member, source⟩) with
      ⟨instruction, record⟩
    have outline := Wiring.record?_map_outline
      (Wiring.setUp (order.filterMap graph.node?) {}) edge.target
    rw [record, Wiring.outlines_setUp] at outline
    rcases Option.map_eq_some_iff.mp outline.symm with ⟨entry, found, -⟩
    rcases List.mem_map.mp (List.mem_of_find?_eq_some found) with ⟨node, listed, rfl⟩
    rcases List.mem_filterMap.mp listed with ⟨other, -, otherFound⟩
    have isTarget : node.id = edge.target := by simpa using List.find?_some found
    rw [← isTarget]
    exact contains_of_node? (node?_of_mem (mem_nodes_of_node? otherFound))

/-- What composition goes through when it succeeds. -/
theorem compose_eq_ok
    {instructions : List Instruction} (composed : graph.compose = .ok instructions) :
    ∃ order final, graph.topologicalOrder = .ok order ∧ order.Perm graph.nodeIds ∧
      Wiring.followAll graph (order.flatMap graph.outEdges)
        (Wiring.setUp (order.filterMap graph.node?) {}) = .ok final ∧
      instructions = final.records.map (·.2) := by
  rw [compose] at composed
  split at composed
  · cases composed
  · rename_i order ordered
    dsimp only at composed
    split at composed
    · cases composed
    · rename_i final followed
      have perm := topologicalOrder_perm ordered (contains_of_followAll ordered followed)
      exact ⟨order, final, ordered, perm, followed, (Except.ok.inj composed).symm⟩

/-- There is an instruction for each node of a graph and for nothing else. -/
theorem tags_compose
    {instructions : List Instruction} (composed : graph.compose = .ok instructions) :
    ∃ nodes : List Node, nodes.Perm graph.nodes ∧
      instructions.map (·.tag) = nodes.map (·.kind.tag) := by
  rcases compose_eq_ok composed with ⟨order, final, -, perm, followed, rfl⟩
  refine ⟨order.filterMap graph.node?, filterMap_node?_perm perm, ?_⟩
  have kept := congrArg (List.map (·.2.tag))
    ((Wiring.outlines_followAll followed).trans (Wiring.outlines_setUp _ _))
  rw [Wiring.outlines, List.map_map, List.map_map] at kept
  rw [List.map_map]
  exact kept

end Graph

end NodeMaterial
