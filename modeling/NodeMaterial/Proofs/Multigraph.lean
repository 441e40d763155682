import Mathlib.Data.Multiset.Filter
import NodeMaterial.Proofs.GraphOperations

/-!
# A graph is a map of nodes with a multiset of edges

A graph stores counted edges in order and finds those that leave a node by a scan.  Seen
from outside it is simpler: a map from numbers to nodes, a multiset of edges, perhaps an
output, and the number of nodes that have ever been added.  Operations are performed here
on both, and after any history of them the two agree: the multigraph is what the graph
shows, every operation gave back the same on both sides, and all ways to ask a graph for
its edges are ways to look at one list.
-/

namespace NodeMaterial

/-- A change to a graph. -/
inductive Operation where
  | addNode (node : Node)
  | removeNode (id : NodeId)
  | addEdge (edge : Edge)
  | removeEdge (edge : Edge)
  | removeEdgesBetween (source target : NodeId)
  | retain (kept : List NodeId)
  | setOutput (id : NodeId)
  deriving DecidableEq

/-- What a change gives back. -/
inductive Yield where
  | number (id : NodeId)
  | node (removed : Option Node)
  | success (found : Bool)
  | edges (removed : Multiset Edge)
  | nothing
  deriving DecidableEq

namespace Operation

/-- Whether an operation adds a node or an occurrence of an edge. -/
def isAddition : Operation → Bool
  | .addNode _ => true
  | .addEdge _ => true
  | _ => false

/-- Performs operations one after the other, and lists what they give back. -/
def runAll {State : Type} (perform : State → Operation → State × Yield) :
    State → List Operation → State × List Yield
  | state, [] => (state, [])
  | state, operation :: others =>
      let (next, given) := perform state operation
      let (last, more) := runAll perform next others
      (last, given :: more)

end Operation

/-- The number under which a node was added. -/
def Yield.number? : Yield → Option NodeId
  | .number id => some id
  | _ => none

/-! ## Multigraphs -/

/-- A map of nodes and a multiset of edges; so many numbers have been given out. -/
structure Multigraph where
  nodes : NodeId → Option Node
  edges : Multiset Edge
  output : Option NodeId
  issued : Nat

namespace Multigraph

/-- No nodes, no edges, and no number issued. -/
def empty : Multigraph := ⟨fun _ => none, 0, none, 0⟩

/-- Keeps some nodes, the edges between them, and the output if it is one of them. -/
def keep (state : Multigraph) (kept : NodeId → Bool) : Multigraph :=
  { state with
    nodes := fun id => if kept id then state.nodes id else none
    edges := state.edges.filter fun edge => kept edge.source = true ∧ kept edge.target = true
    output := state.output.filter kept }

/-- What an operation does to a multigraph, and what it gives back. -/
def perform (state : Multigraph) : Operation → Multigraph × Yield
  | .addNode node =>
      ({ state with
         nodes := Function.update state.nodes state.issued (some { node with id := state.issued })
         issued := state.issued + 1 },
       .number state.issued)
  | .removeNode id => (state.keep (· != id), .node (state.nodes id))
  | .addEdge edge => ({ state with edges := edge ::ₘ state.edges }, .nothing)
  | .removeEdge edge =>
      ({ state with edges := state.edges.erase edge }, .success (decide (edge ∈ state.edges)))
  | .removeEdgesBetween source target =>
      ({ state with
         edges := state.edges.filter fun edge => ¬ (edge.source = source ∧ edge.target = target) },
       .edges (state.edges.filter fun edge => edge.source = source ∧ edge.target = target))
  | .retain kept => (state.keep (· ∈ kept), .nothing)
  | .setOutput id => ({ state with output := some id }, .nothing)

/-- Some node has the number. -/
def Has (state : Multigraph) (id : NodeId) : Prop :=
  (state.nodes id).isSome = true

instance (state : Multigraph) (id : NodeId) : Decidable (state.Has id) :=
  inferInstanceAs (Decidable ((state.nodes id).isSome = true))

/-- An edge is added between nodes, and the output is set to a node. -/
def Admits (state : Multigraph) : Operation → Prop
  | .addEdge edge => state.Has edge.source ∧ state.Has edge.target
  | .setOutput id => state.Has id
  | _ => True

/-- Each operation is admitted when its turn comes. -/
def AdmitsAll : Multigraph → List Operation → Prop
  | _, [] => True
  | state, operation :: others =>
      state.Admits operation ∧ AdmitsAll (state.perform operation).1 others

instance (state : Multigraph) : (operation : Operation) → Decidable (state.Admits operation)
  | .addEdge edge => inferInstanceAs (Decidable (state.Has edge.source ∧ state.Has edge.target))
  | .setOutput id => inferInstanceAs (Decidable (state.Has id))
  | .addNode _ | .removeNode _ | .removeEdge _ | .removeEdgesBetween _ _ | .retain _ =>
      .isTrue trivial

instance decidableAdmitsAll : (state : Multigraph) → (history : List Operation) →
    Decidable (state.AdmitsAll history)
  | _, [] => .isTrue trivial
  | state, operation :: others =>
      have := decidableAdmitsAll (state.perform operation).1 others
      inferInstanceAs (Decidable
        (state.Admits operation ∧ (state.perform operation).1.AdmitsAll others))

/-- Edges connect nodes, the output is a node, and nodes have numbers that were given out. -/
structure Regular (state : Multigraph) : Prop where
  sources : ∀ edge ∈ state.edges, state.Has edge.source
  targets : ∀ edge ∈ state.edges, state.Has edge.target
  output : ∀ id, state.output = some id → state.Has id
  own : ∀ id node, state.nodes id = some node → node.id = id ∧ id < state.issued

variable {state : Multigraph}

theorem has_iff {id : NodeId} : state.Has id ↔ ∃ node, state.nodes id = some node :=
  Option.isSome_iff_exists

theorem regular_empty : empty.Regular where
  sources edge member := absurd member (Multiset.notMem_zero edge)
  targets edge member := absurd member (Multiset.notMem_zero edge)
  output id isOutput := by cases isOutput
  own id node found := by cases found

/-! ## Operations keep a multigraph regular -/

theorem has_keep {kept : NodeId → Bool} {id : NodeId} :
    (state.keep kept).Has id ↔ kept id = true ∧ state.Has id := by
  by_cases isKept : kept id = true
  · simp [Has, keep, isKept]
  · simp [Has, keep, isKept]

theorem mem_edges_keep {kept : NodeId → Bool} {edge : Edge} :
    edge ∈ (state.keep kept).edges ↔
      edge ∈ state.edges ∧ kept edge.source = true ∧ kept edge.target = true :=
  Multiset.mem_filter

/-- Edges that are kept have both ends among the kept nodes. -/
theorem Regular.keep (regular : state.Regular) (kept : NodeId → Bool) :
    (state.keep kept).Regular where
  sources edge member := by
    rcases mem_edges_keep.mp member with ⟨old, source, -⟩
    exact has_keep.mpr ⟨source, regular.sources edge old⟩
  targets edge member := by
    rcases mem_edges_keep.mp member with ⟨old, -, target⟩
    exact has_keep.mpr ⟨target, regular.targets edge old⟩
  output id isOutput := by
    rcases Option.filter_eq_some_iff.mp isOutput with ⟨wasOutput, isKept⟩
    exact has_keep.mpr ⟨isKept, regular.output id wasOutput⟩
  own id node found := by
    simp only [Multigraph.keep] at found
    split at found
    · exact regular.own id node found
    · cases found

theorem has_addNode {node : Node} {id : NodeId} :
    (state.perform (.addNode node)).1.Has id ↔ id = state.issued ∨ state.Has id := by
  by_cases isNew : id = state.issued
  · subst isNew
    simp [Has, perform]
  · simp [Has, perform, isNew]

/-- A new number is above all numbers so far. -/
theorem Regular.addNode (regular : state.Regular) (node : Node) :
    (state.perform (.addNode node)).1.Regular where
  sources edge member := has_addNode.mpr (Or.inr (regular.sources edge member))
  targets edge member := has_addNode.mpr (Or.inr (regular.targets edge member))
  output id isOutput := has_addNode.mpr (Or.inr (regular.output id isOutput))
  own id stored found := by
    by_cases isNew : id = state.issued
    · subst isNew
      simp only [perform, Function.update_self, Option.some.injEq] at found
      exact ⟨found ▸ rfl, Nat.lt_succ_self _⟩
    · simp only [perform, Function.update_of_ne isNew] at found
      exact ⟨(regular.own id stored found).1, Nat.lt_succ_of_lt (regular.own id stored found).2⟩

/-- Edges between nodes can be put in place of the edges. -/
theorem Regular.withEdges
    (regular : state.Regular) {edges : Multiset Edge}
    (between : ∀ edge ∈ edges, state.Has edge.source ∧ state.Has edge.target) :
    { state with edges }.Regular where
  sources edge member := (between edge member).1
  targets edge member := (between edge member).2
  output := regular.output
  own := regular.own

/-- Admitted operations keep edges between nodes and numbers below the next one. -/
theorem Regular.perform
    (regular : state.Regular) {operation : Operation} (admitted : state.Admits operation) :
    (state.perform operation).1.Regular := by
  have fewer : ∀ edges ≤ state.edges, { state with edges }.Regular := by
    intro edges less
    refine regular.withEdges fun edge member => ?_
    have old := Multiset.mem_of_le less member
    exact ⟨regular.sources edge old, regular.targets edge old⟩
  cases operation with
  | addNode node => exact regular.addNode node
  | removeNode id => exact regular.keep _
  | addEdge edge =>
      refine regular.withEdges fun other member => ?_
      rcases Multiset.mem_cons.mp member with rfl | old
      · exact admitted
      · exact ⟨regular.sources other old, regular.targets other old⟩
  | removeEdge edge => exact fewer _ (Multiset.erase_le edge state.edges)
  | removeEdgesBetween source target => exact fewer _ (Multiset.filter_le _ state.edges)
  | retain kept => exact regular.keep _
  | setOutput id =>
      refine ⟨regular.sources, regular.targets, fun other isOutput => ?_, regular.own⟩
      exact Option.some.inj isOutput ▸ admitted

/-! ## Numbers and counts -/

/-- A node that is added gets the next number, and no other operation gives out a number. -/
theorem range_issued_perform (state : Multigraph) (operation : Operation) :
    List.range (state.perform operation).1.issued =
      List.range state.issued ++ (state.perform operation).2.number?.toList := by
  cases operation with
  | addNode node => exact List.range_succ
  | _ => exact (List.append_nil _).symm

/-- The numbers handed out are consecutive, also across removals. -/
theorem range_issued_runAll (state : Multigraph) (history : List Operation) :
    List.range (Operation.runAll perform state history).1.issued =
      List.range state.issued ++
        (Operation.runAll perform state history).2.filterMap Yield.number? := by
  induction history generalizing state with
  | nil => exact (List.append_nil _).symm
  | cons operation others induction =>
      simp only [Operation.runAll, induction, range_issued_perform, List.append_assoc]
      cases given : (state.perform operation).2.number? with
      | none => simp [given]
      | some id => simp [given]

/-- Only additions let the numbers and the edges grow, each by one. -/
theorem size_perform_le (state : Multigraph) (operation : Operation) :
    (state.perform operation).1.issued + (state.perform operation).1.edges.card ≤
      state.issued + state.edges.card + if operation.isAddition then 1 else 0 := by
  have fewer : ∀ edges ≤ state.edges, state.issued + edges.card ≤ state.issued + state.edges.card :=
    fun edges less => Nat.add_le_add_left (Multiset.card_le_card less) _
  cases operation with
  | addNode node => exact Nat.le_of_eq (Nat.add_right_comm ..)
  | addEdge edge =>
      simp only [perform, Multiset.card_cons, Operation.isAddition, if_true, Nat.add_assoc]
      exact Nat.le_refl _
  | removeEdge edge => exact fewer _ (Multiset.erase_le edge state.edges)
  | removeNode id => exact fewer _ (Multiset.filter_le _ state.edges)
  | removeEdgesBetween source target => exact fewer _ (Multiset.filter_le _ state.edges)
  | retain kept => exact fewer _ (Multiset.filter_le _ state.edges)
  | setOutput id => exact Nat.le_refl _

/-- Nodes and edges come from additions alone. -/
theorem size_runAll_le (state : Multigraph) (history : List Operation) :
    (Operation.runAll perform state history).1.issued +
        (Operation.runAll perform state history).1.edges.card ≤
      state.issued + state.edges.card + history.countP Operation.isAddition := by
  induction history generalizing state with
  | nil => exact Nat.le_refl _
  | cons operation others induction =>
      have rest := induction (state.perform operation).1
      have first := size_perform_le state operation
      simp only [Operation.runAll, List.countP_cons]
      omega

end Multigraph

/-! ## What a graph shows -/

namespace Graph

/-- Performs an operation on a graph, and gives back what it yields. -/
def perform (graph : Graph) : Operation → Graph × Yield
  | .addNode node =>
      let (larger, id) := graph.addNode node
      (larger, .number id)
  | .removeNode id =>
      let (smaller, removed) := graph.removeNode id
      (smaller, .node removed)
  | .addEdge edge => (graph.addEdge edge, .nothing)
  | .removeEdge edge =>
      let (smaller, found) := graph.removeEdge edge
      (smaller, .success found)
  | .removeEdgesBetween source target =>
      let (smaller, removed) := graph.removeEdgesBetween source target
      (smaller, .edges removed)
  | .retain kept => ((graph.retainNodes kept).1, .nothing)
  | .setOutput id => (graph.setOutput id, .nothing)

/-- The multigraph that a graph stands for. -/
def view (graph : Graph) : Multigraph :=
  ⟨graph.node?, graph.edges, graph.output, graph.nextId⟩

variable {graph : Graph}

theorem has_view {id : NodeId} : graph.view.Has id ↔ graph.contains id = true := by
  rw [contains_iff]
  exact Multigraph.has_iff

theorem node?_withNode (graph : Graph) (node : Node) (id : NodeId) :
    (graph.withNode node).node? id =
      if id = graph.nextId then some { node with id := graph.nextId } else graph.node? id := by
  have older : graph.node? graph.nextId = none := by
    rw [Option.eq_none_iff_forall_ne_some]
    intro old found
    rcases node?_eq_some_iff.mp found with ⟨member, isNew⟩
    exact Nat.lt_irrefl graph.nextId (isNew ▸ graph.issued old member)
  simp only [node?, withNode, List.find?_append] at older ⊢
  by_cases isNew : id = graph.nextId
  · subst isNew
    simp [older]
  · simp [isNew, Ne.symm isNew]

/-- Adding a node to the graph adds it to the multigraph it stands for. -/
theorem view_withNode (graph : Graph) (node : Node) :
    (graph.withNode node).view = (graph.view.perform (.addNode node)).1 := by
  have nodes : (graph.withNode node).node? =
      Function.update graph.node? graph.nextId (some { node with id := graph.nextId }) := by
    funext id
    rw [node?_withNode, Function.update_apply]
  simp only [view, Multigraph.perform, nodes]
  rfl

/-- Keeping nodes is seen by the nodes, the edges and the output that are left. -/
theorem view_eq_keep {result : Graph} {kept : NodeId → Bool}
    (nodes : ∀ id, result.node? id = if kept id = true then graph.node? id else none)
    (edges : result.edges = graph.edges.filter fun edge =>
      kept edge.source = true ∧ kept edge.target = true)
    (output : result.output = graph.output.filter kept)
    (nextId : result.nextId = graph.nextId) :
    result.view = graph.view.keep kept := by
  have sameNodes : result.node? = fun id => if kept id = true then graph.node? id else none :=
    funext nodes
  simp only [view, Multigraph.keep, sameNodes, edges, output, nextId, Multiset.filter_coe]

/-- Removing a node takes its edges along. -/
theorem view_withoutNode (regular : graph.view.Regular) (id : NodeId) :
    (graph.withoutNode id).view = graph.view.keep (· != id) := by
  have closed : graph.Closed :=
    ⟨fun edge member => has_view.mp (regular.sources edge member),
      fun edge member => has_view.mp (regular.targets edge member)⟩
  apply view_eq_keep
  · intro other
    by_cases same : other = id
    · simp [same]
    · simp [node?_withoutNode_of_ne graph same, same]
  · rw [closed.edges_withoutNode]
    congr 1
    funext edge
    rw [Bool.eq_iff_iff]
    simp [Edge.touches]
  · -- A number without a node is not the output, so nothing changes if it is removed.
    rw [output_withoutNode]
    cases isOutput : graph.output with
    | none => simp
    | some output =>
        have present : graph.contains output = true :=
          has_view.mp (regular.output output isOutput)
        by_cases same : output = id
        · simp [← same, present, Option.filter]
        · simp [same, Option.filter]
  · exact nextId_withoutNode graph id

/-- Retaining nodes keeps the edges between them. -/
theorem view_retain (graph : Graph) (kept : List NodeId) :
    (graph.retain kept).view = graph.view.keep (· ∈ kept) := by
  apply view_eq_keep
  · intro id
    simp [node?_retain]
  · rw [edges_retain]
    simp
  · have filtered : (graph.retain kept).output = graph.output.filter kept.contains := rfl
    rw [filtered]
    congr 1
    funext id
    simp
  · rfl

theorem edgesBetween_eq_filter (graph : Graph) (source target : NodeId) :
    graph.edgesBetween source target =
      graph.edges.filter fun edge => edge.source = source ∧ edge.target = target := by
  rw [edgesBetween, outEdges_eq_filter, List.filter_filter]
  congr 1
  funext edge
  rw [Bool.and_comm, Bool.eq_iff_iff]
  simp

/-- Taking out edges one after the other, with all their occurrences, filters the edges once. -/
theorem edges_foldl_discardEdge (graph : Graph) (removed : List Edge) :
    (removed.foldl discardEdge graph).edges = graph.edges.filter (· ∉ removed) := by
  induction removed generalizing graph with
  | nil => simp
  | cons edge others induction =>
      rw [List.foldl_cons, induction, discardEdge, edges_filterEdges, List.filter_filter]
      congr 1
      funext other
      rw [Bool.eq_iff_iff]
      simp [and_comm]

theorem view_foldl_discardEdge (graph : Graph) (removed : List Edge) :
    (removed.foldl discardEdge graph).view =
      ⟨graph.node?, (removed.foldl discardEdge graph).edges, graph.output, graph.nextId⟩ := by
  induction removed generalizing graph with
  | nil => rfl
  | cons edge others induction => exact induction (graph.discardEdge edge)

/-- The edges that are found are all the edges that go. -/
theorem view_removeEdgesBetween (graph : Graph) (source target : NodeId) :
    (graph.removeEdgesBetween source target).1.view =
      (graph.view.perform (.removeEdgesBetween source target)).1 := by
  have left : graph.edges.filter (· ∉ graph.edgesBetween source target) =
      graph.edges.filter fun edge => ¬ (edge.source = source ∧ edge.target = target) := by
    refine List.filter_congr fun edge member => ?_
    simp [edgesBetween_eq_filter, member]
  rw [removeEdgesBetween, view_foldl_discardEdge, edges_foldl_discardEdge, left]
  simp only [Multigraph.perform, view, Multiset.filter_coe]

/-- A removal reports whether the edge was there. -/
theorem found_removeEdge (graph : Graph) (edge : Edge) :
    (graph.removeEdge edge).2 = decide (edge ∈ graph.edges) := by
  have found : 0 < graph.multiplicity edge ↔ edge ∈ graph.edges := by
    rw [multiplicity_eq_count]
    exact List.count_pos_iff
  rw [removeEdge]
  split <;> simp_all

/-- A removal takes one occurrence of an edge out. -/
theorem view_removeEdge (graph : Graph) (edge : Edge) :
    (graph.removeEdge edge).1.view = (graph.view.perform (.removeEdge edge)).1 := by
  have same : (graph.removeEdge edge).1.view =
      ⟨graph.node?, (graph.removeEdge edge).1.edges, graph.output, graph.nextId⟩ := by
    rw [removeEdge]
    split <;> rfl
  rw [same, edges_removeEdge]
  rfl

/-- An operation does the same to a graph as to what the graph shows, and gives back the same. -/
theorem view_perform (regular : graph.view.Regular) (operation : Operation) :
    graph.view.perform operation =
      ((graph.perform operation).1.view, (graph.perform operation).2) := by
  cases operation with
  | addNode node => exact Prod.ext (view_withNode graph node).symm rfl
  | removeNode id => exact Prod.ext (view_withoutNode regular id).symm rfl
  | addEdge edge =>
      have added : (((graph.addEdge edge).edges : List Edge) : Multiset Edge) =
          edge ::ₘ (graph.edges : Multiset Edge) :=
        Multiset.coe_eq_coe.mpr (EdgeBag.occurrences_add graph.bag edge)
      simp only [perform, Multigraph.perform, view, added]
      rfl
  | removeEdge edge =>
      have found : (graph.view.perform (.removeEdge edge)).2 =
          .success (graph.removeEdge edge).2 := by
        rw [found_removeEdge]
        rfl
      exact Prod.ext (view_removeEdge graph edge).symm found
  | removeEdgesBetween source target =>
      have removed : (graph.view.perform (.removeEdgesBetween source target)).2 =
          .edges (graph.edgesBetween source target) := by
        rw [edgesBetween_eq_filter]
        rfl
      exact Prod.ext (view_removeEdgesBetween graph source target).symm removed
  | retain kept => exact Prod.ext (view_retain graph kept).symm rfl
  | setOutput id => rfl

/-! ## Histories -/

/-- A history does the same to a graph as to what the graph shows, and gives back the same. -/
theorem view_runAll
    {history : List Operation} (regular : graph.view.Regular)
    (admitted : graph.view.AdmitsAll history) :
    Operation.runAll Multigraph.perform graph.view history =
        ((Operation.runAll perform graph history).1.view,
          (Operation.runAll perform graph history).2) ∧
      (Operation.runAll perform graph history).1.view.Regular := by
  induction history generalizing graph with
  | nil => exact ⟨rfl, regular⟩
  | cons operation others induction =>
      rcases admitted with ⟨first, rest⟩
      have step := view_perform regular operation
      have next := regular.perform first
      rw [step] at rest next
      rcases induction next rest with ⟨same, last⟩
      refine ⟨?_, last⟩
      simp only [Operation.runAll, step, same]

/-- What a new graph shows after a history, and what the history has given back. -/
structure Reflects (history : List Operation) (graph : Graph) (given : List Yield) : Prop where
  /-- The same operations on a map of nodes and a multiset of edges end there. -/
  view : (graph.view, given) = Operation.runAll Multigraph.perform .empty history
  stored : ∀ entry ∈ graph.bag.entries, 1 ≤ entry.2 ∧
    graph.contains entry.1.source = true ∧ graph.contains entry.1.target = true
  output : ∀ id, graph.output = some id → graph.contains id = true
  own : ∀ id node, graph.node? id = some node ↔ node ∈ graph.nodes ∧ node.id = id
  issued : ∀ node ∈ graph.nodes, node.id < graph.nextId
  /-- Numbers are given out in order. -/
  numbers : given.filterMap Yield.number? = List.range graph.nextId
  once : (given.filterMap Yield.number?).Nodup
  outEdges : ∀ id, graph.outEdges id = graph.edges.filter fun edge => edge.source = id
  inEdges : ∀ id, graph.inEdges id = graph.edges.filter fun edge => edge.target = id
  between : ∀ source target, graph.edgesBetween source target =
    graph.edges.filter fun edge => edge.source = source ∧ edge.target = target
  multiplicity : ∀ edge, graph.multiplicity edge = graph.edges.count edge
  edgeCount : graph.edgeCount = graph.edges.length
  /-- No number and no count outgrows the additions. -/
  bounded : graph.nextId + graph.edgeCount ≤ history.countP Operation.isAddition

/-- After any history, a graph reflects a map of nodes with a multiset of edges. -/
theorem reflects_operations (history : List Operation)
    (admitted : Multigraph.empty.AdmitsAll history) :
    Reflects history (Operation.runAll perform .empty history).1
      (Operation.runAll perform .empty history).2 := by
  have agree := @view_runAll .empty history Multigraph.regular_empty admitted
  have numbers := Multigraph.range_issued_runAll .empty history
  have size := Multigraph.size_runAll_le .empty history
  have shows : Graph.empty.view = .empty := rfl
  rw [shows] at agree
  rw [agree.1] at numbers size
  generalize Operation.runAll perform .empty history = result at agree numbers size
  rcases result with ⟨graph, given⟩
  rcases agree with ⟨same, regular⟩
  have issued : given.filterMap Yield.number? = List.range graph.nextId := numbers.symm
  have counted : graph.edgeCount = graph.edges.length := EdgeBag.size_eq_length graph.bag
  constructor
  case view => exact same.symm
  case stored =>
    intro entry member
    have occurs : entry.1 ∈ graph.edges := EdgeBag.mem_occurrences.mpr ⟨entry, member, rfl⟩
    exact ⟨graph.bag.positive entry member, has_view.mp (regular.sources _ occurs),
      has_view.mp (regular.targets _ occurs)⟩
  case output => exact fun id isOutput => has_view.mp (regular.output id isOutput)
  case own => exact fun id node => node?_eq_some_iff
  case issued => exact fun node member => (regular.own node.id node (node?_of_mem member)).2
  case numbers => exact issued
  case once => exact issued ▸ List.nodup_range
  case outEdges => exact outEdges_eq_filter graph
  case inEdges => exact inEdges_eq_filter graph
  case between => exact edgesBetween_eq_filter graph
  case multiplicity => exact EdgeBag.multiplicity_eq_count graph.bag
  case edgeCount => exact counted
  case bounded => simpa [counted, view, Multigraph.empty] using size

/-- Nodes come and go between parallel edges, and the output goes with its node. -/
def comingAndGoing : List Operation :=
  [.addNode { kind := .value, name := "a" }, .addNode { kind := .value, name := "b" },
   .addEdge ⟨0, 1, 0, 0⟩, .addEdge ⟨0, 1, 0, 0⟩, .addEdge ⟨0, 1, 1, 0⟩, .removeEdge ⟨0, 1, 0, 0⟩,
   .setOutput 1, .addNode { kind := .output, name := "c" }, .addEdge ⟨1, 2, 0, 0⟩,
   .addEdge ⟨0, 2, 0, 1⟩, .removeEdgesBetween 0 1, .removeNode 1,
   .addNode { kind := .value, name := "b" }, .addEdge ⟨3, 2, 0, 0⟩]

/-- Of six edges two remain, and the number of the removed node is not given again. -/
theorem reflects_comingAndGoing :
    Multigraph.empty.AdmitsAll comingAndGoing ∧
      (Operation.runAll perform .empty comingAndGoing).1.edges = [⟨0, 2, 0, 1⟩, ⟨3, 2, 0, 0⟩] ∧
      Reflects comingAndGoing (Operation.runAll perform .empty comingAndGoing).1
        (Operation.runAll perform .empty comingAndGoing).2 := by
  have admitted : Multigraph.empty.AdmitsAll comingAndGoing := by decide
  exact ⟨admitted, by decide, reflects_operations comingAndGoing admitted⟩

end Graph

end NodeMaterial
