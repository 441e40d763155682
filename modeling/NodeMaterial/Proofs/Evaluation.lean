import Mathlib.Data.List.Induction
import NodeMaterial.Pass.Channels
import NodeMaterial.Proofs.Elimination
import NodeMaterial.Proofs.Order

/-!
# What a graph computes

An interpretation says what nodes compute: a node's outputs depend on its inputs, its
kind, the key of its data and its literals, and on nothing else.  An input reads the
output that feeds it or else its default value.

An acyclic graph is evaluated node by node, in its order.  The values found in that way
solve the equations of the nodes, and they are the only ones that do.
-/

namespace NodeMaterial

/-- The operations that nodes stand for. -/
structure Interpretation (Value : Type) where
  /-- The value of a socket that nothing feeds. -/
  constant : SocketValue → Value
  /-- A facet of the geometry, for a layer if it has layers. -/
  facet : Facet → Option String → Value
  /-- The outputs of a lookup in a texture. -/
  sample : Sampler → Option String → Value → Nat → Value
  /-- A component of a colour. -/
  component : Nat → Value → Value
  /-- The outputs of any other node, given its key, its literals and its inputs. -/
  operate : Kind → Option String → List (Option String) → List Value → Nat → Value

/-- The values of all outputs, by node and place. -/
abbrev Valuation (Value : Type) := NodeId → Nat → Value

namespace Graph

variable {Value : Type} (meaning : Interpretation Value)

/-- The literals of the parameters of a node. -/
def literals (node : Node) : List (Option String) :=
  (node.params ++ node.vertexParams).map (·.literal)

/-- What an accessor gives, whatever its other properties are. -/
def accessed (facet : Facet) (node : Node) : Value :=
  meaning.facet facet (if facet.isLayered then node.key? else none)

/-- The channel that an output of a node of vertex channels gives. -/
def channelAt (node : Node) (place : Nat) : Nat :=
  channelNames.idxOf (((node.outputs[place]?).map (·.identifier)).getD "")

/-- The value at a place of a list of inputs. -/
def inputAt (inputs : List Value) (place : Nat) : Value :=
  (inputs[place]?).getD (meaning.constant .zero)

/-- An output of a node.  Each lane of a texture makes one lookup and has two outputs. -/
def outputOf (node : Node) (inputs : List Value) (place : Nat) : Value :=
  match node.kind with
  | .geometry facet => accessed meaning facet node
  | .texture sampler _ =>
      meaning.sample sampler node.key? (inputAt meaning inputs (place / 2)) (place % 2)
  | .separateRgb => meaning.component place (inputAt meaning inputs 0)
  | .vertexChannels _ =>
      meaning.component (channelAt node place) (accessed meaning .vertexColor node)
  | kind => meaning.operate kind node.key? (literals node) inputs place

/-- What an input reads. -/
def read (graph : Graph) (values : Valuation Value) (id : NodeId) (place : Nat)
    (unfed : SocketValue) : Value :=
  match graph.feed? id place with
  | some edge => values edge.source edge.outSocket
  | none => meaning.constant unfed

/-- What the inputs of a node read. -/
def inputValues (graph : Graph) (values : Valuation Value) (node : Node) : List Value :=
  node.inputs.mapIdx fun place socket =>
    read meaning graph values node.id place socket.defaultValue

/-- The values of all outputs are those that the nodes compute. -/
def Solves (graph : Graph) (values : Valuation Value) : Prop :=
  ∀ id node, graph.node? id = some node → ∀ place,
    values id place = outputOf meaning node (inputValues meaning graph values node) place

/-- Computes the outputs of a node. -/
def evaluateNode (graph : Graph) (values : Valuation Value) (id : NodeId) : Valuation Value :=
  match graph.node? id with
  | none => values
  | some node =>
      Function.update values id
        (outputOf meaning node (inputValues meaning graph values node))

/-- Computes the outputs of all nodes, one after the other. -/
def evaluate (graph : Graph) : Valuation Value :=
  match graph.topologicalOrder with
  | .error _ => fun _ _ => meaning.constant .zero
  | .ok order =>
      order.foldl (evaluateNode meaning graph) fun _ _ => meaning.constant .zero

variable {meaning} {graph : Graph}

/-- A node sees only the values of the nodes that feed it. -/
theorem inputValues_congr
    {values others : Valuation Value} {node : Node}
    (same : ∀ edge ∈ graph.edges, edge.target = node.id →
      values edge.source = others edge.source) :
    inputValues meaning graph values node = inputValues meaning graph others node := by
  apply List.mapIdx_eq_mapIdx_iff.mpr
  intro place _
  rw [read, read]
  cases fed : graph.feed? node.id place with
  | none => rfl
  | some edge =>
      rcases feed?_fed edge fed with ⟨member, target⟩
      exact congrFun (same edge member target) edge.outSocket

theorem evaluateNode_of_ne
    (values : Valuation Value) {id other : NodeId} (different : other ≠ id) :
    evaluateNode meaning graph values id other = values other := by
  rw [evaluateNode]
  cases graph.node? id with
  | none => rfl
  | some node => exact Function.update_of_ne different _ _

theorem evaluateNode_self
    (values : Valuation Value) {id : NodeId} {node : Node} (found : graph.node? id = some node) :
    evaluateNode meaning graph values id id =
      outputOf meaning node (inputValues meaning graph values node) := by
  rw [evaluateNode, found]
  exact Function.update_self ..

/-- No edge leads from a node of an order to itself or back to a node before it. -/
theorem source_ne_of_forward
    {placed rest : List NodeId} {last : NodeId} (notPlaced : last ∉ placed)
    (forward : ∀ edge ∈ graph.edges, edge.source ∈ placed ++ [last] ++ rest →
      edge.target ∈ placed ++ [last] ++ rest →
      (placed ++ [last] ++ rest).idxOf edge.source < (placed ++ [last] ++ rest).idxOf edge.target)
    {edge : Edge} (member : edge ∈ graph.edges) (target : edge.target ∈ placed ++ [last]) :
    edge.source ≠ last := by
  intro source
  have lastMember : last ∈ placed ++ [last] ++ rest := by simp
  have ahead := forward edge member (source ▸ lastMember) (List.mem_append_left rest target)
  rw [source, List.append_assoc, List.idxOf_append_of_notMem notPlaced,
    List.singleton_append, List.idxOf_cons_self] at ahead
  rcases List.mem_append.mp target with before | same
  · rw [List.idxOf_append_of_mem before] at ahead
    exact absurd (List.idxOf_lt_length_of_mem before) (by omega)
  · rw [List.mem_singleton.mp same, List.idxOf_append_of_notMem notPlaced,
      List.idxOf_cons_self] at ahead
    exact absurd ahead (Nat.lt_irrefl _)

/-- Evaluating the first nodes of an order solves the equations of these nodes. -/
theorem solves_placed
    {order : List NodeId} (distinct : order.Nodup)
    (forward : ∀ edge ∈ graph.edges, edge.source ∈ order → edge.target ∈ order →
      order.idxOf edge.source < order.idxOf edge.target)
    (start : Valuation Value) (placed : List NodeId) (first : placed <+: order) :
    ∀ id ∈ placed, ∀ node, graph.node? id = some node →
      placed.foldl (evaluateNode meaning graph) start id =
        outputOf meaning node (inputValues meaning graph
          (placed.foldl (evaluateNode meaning graph) start) node) := by
  induction placed using List.reverseRecOn with
  | nil => simp
  | append_singleton placed last induction =>
      rcases first with ⟨rest, rfl⟩
      have notPlaced : last ∉ placed := by
        intro member
        have unique := (List.nodup_append.mp (List.nodup_append.mp distinct).1).2.2
        exact unique last member last (List.mem_singleton.mpr rfl) rfl
      intro id member node found
      have unchanged : inputValues meaning graph
            (evaluateNode meaning graph (placed.foldl (evaluateNode meaning graph) start) last)
            node =
          inputValues meaning graph (placed.foldl (evaluateNode meaning graph) start) node := by
        apply inputValues_congr
        intro edge edgeMember target
        rw [id_of_node? found] at target
        exact evaluateNode_of_ne _ (source_ne_of_forward notPlaced forward edgeMember
          (target ▸ member))
      rw [List.foldl_append, List.foldl_cons, List.foldl_nil, unchanged]
      rcases List.mem_append.mp member with before | same
      · have different : id ≠ last := fun equal => notPlaced (equal ▸ before)
        rw [evaluateNode_of_ne _ different]
        exact induction ⟨[last] ++ rest, by simp⟩ id before node found
      · rw [List.mem_singleton.mp same] at found ⊢
        exact evaluateNode_self _ found

/-- Evaluating in order gives every node the value that its inputs ask for. -/
theorem solves_evaluate (meaning : Interpretation Value) (acyclic : graph.Acyclic)
    (sources : ∀ edge ∈ graph.edges, graph.contains edge.source = true) :
    Solves meaning graph (evaluate meaning graph) := by
  rcases acyclic.exists_order sources with ⟨order, ordered, placed⟩
  have nodup : order.Nodup := (topologicalOrder_eq_ok ordered).1.greedy.nodup
  have forward : ∀ edge ∈ graph.edges, edge.source ∈ order → edge.target ∈ order →
      order.idxOf edge.source < order.idxOf edge.target :=
    fun edge member _ target => (forward_of_ordered ordered member target).2
  intro id node found place
  rw [evaluate, ordered]
  exact congrFun (solves_placed nodup forward _ order ⟨[], List.append_nil order⟩ id
    (placed id (contains_of_node? found)) node found) place

/-- The equations of an acyclic graph have one solution. -/
theorem Solves.unique
    {values others : Valuation Value} (acyclic : graph.Acyclic)
    (sources : ∀ edge ∈ graph.edges, graph.contains edge.source = true)
    (first : Solves meaning graph values) (second : Solves meaning graph others)
    {id : NodeId} (present : graph.contains id = true) :
    values id = others id := by
  induction id using acyclic.wellFounded.induction with
  | h id induction =>
      rcases contains_iff.mp present with ⟨node, found⟩
      have sameInputs : inputValues meaning graph values node =
          inputValues meaning graph others node := by
        apply inputValues_congr
        intro edge member target
        rw [id_of_node? found] at target
        have source := sources edge member
        exact induction edge.source ⟨source, present, edge, member, rfl, target⟩ source
      funext place
      rw [first id node found place, second id node found place, sameInputs]

end Graph

end NodeMaterial
