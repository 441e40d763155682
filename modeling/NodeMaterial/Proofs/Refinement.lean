import NodeMaterial.Proofs.Evaluation
import NodeMaterial.Proofs.WellFormed

/-!
# Graphs that compute the same

Each step of the passes that share nodes and hand out channels moves edges to other
sockets that give the same value.  The values of the old graph, moved along, therefore
solve the equations of the new graph, and there is only one solution.

It does not matter here which of several edges into an input is read, because all of
them start at the same output.
-/

namespace NodeMaterial

/-- The interpretation that tells nothing apart. -/
def Interpretation.trivial : Interpretation Unit where
  constant _ := ()
  facet _ _ := ()
  sample _ _ _ _ := ()
  component _ _ := ()
  operate _ _ _ _ _ := ()

/-- Whether the passes may change or remove a node of this kind. -/
def Kind.isMerged : Kind → Bool
  | .geometry _ => true
  | .texture _ _ => true
  | .separateRgb => true
  | _ => false

namespace Graph

variable {Value : Type} {meaning : Interpretation Value} {graph other : Graph}

/-- All edges into one input start at one output. -/
def SingleSource (graph : Graph) : Prop :=
  ∀ first ∈ graph.edges, ∀ second ∈ graph.edges,
    second.target = first.target → second.inSocket = first.inSocket →
    second.source = first.source ∧ second.outSocket = first.outSocket

instance (graph : Graph) : Decidable graph.SingleSource :=
  inferInstanceAs (Decidable (∀ first ∈ graph.edges, ∀ second ∈ graph.edges,
    second.target = first.target → second.inSocket = first.inSocket →
    second.source = first.source ∧ second.outSocket = first.outSocket))

/-- A well-formed graph whose inputs have one source each, with splitters of one input. -/
structure Plain (graph : Graph) : Prop where
  wellFormed : graph.WellFormed
  single : graph.SingleSource
  splitters : ∀ node ∈ graph.nodes, node.kind = .separateRgb →
    node.inputs.length = 1 ∧ node.outputs.length ≤ 3

theorem Plain.sources
    (plain : graph.Plain) (edge : Edge) (member : edge ∈ graph.edges) :
    graph.contains edge.source = true :=
  (plain.wellFormed.endpoints edge member).1

theorem Plain.solves_evaluate (meaning : Interpretation Value) (plain : graph.Plain) :
    Solves meaning graph (evaluate meaning graph) :=
  Graph.solves_evaluate meaning plain.wellFormed.acyclic plain.sources

/-- The equations of a plain graph have one solution. -/
theorem Solves.evaluate_eq
    {values : Valuation Value} (solves : Solves meaning graph values) (plain : graph.Plain)
    {id : NodeId} (present : graph.contains id = true) :
    evaluate meaning graph id = values id :=
  (plain.solves_evaluate meaning).unique plain.wellFormed.acyclic
    plain.sources solves present

theorem Solves.inputValues_evaluate
    {values : Valuation Value} (solves : Solves meaning graph values) (plain : graph.Plain)
    (node : Node) :
    inputValues meaning graph (evaluate meaning graph) node =
      inputValues meaning graph values node := by
  apply inputValues_congr
  intro edge member _
  exact solves.evaluate_eq plain (plain.sources edge member)

/-! ## Moving values along with edges -/

theorem feed?_eq_some
    {id : NodeId} {place : Nat} {edge : Edge} (fed : graph.feed? id place = some edge) :
    edge ∈ graph.edges ∧ edge.target = id ∧ edge.inSocket = place := by
  rcases feed?_fed edge fed with ⟨member, target⟩
  exact ⟨member, target, by simpa using List.find?_some fed⟩

theorem exists_feed?
    {edge : Edge} (member : edge ∈ graph.edges) :
    ∃ first, graph.feed? edge.target edge.inSocket = some first := by
  rw [← Option.isSome_iff_exists, feed?, List.find?_isSome]
  exact ⟨edge, mem_inEdges.mpr ⟨member, rfl⟩, by simp⟩

/--
The edges of one graph come from edges of another one: an output has moved, and an input
has an origin.  The values at the starts of edges have moved along.
-/
structure Carries (other graph : Graph) (values old : Valuation Value)
    (moved origin : NodeId → Nat → NodeId × Nat) : Prop where
  came : ∀ edge ∈ other.edges, ∃ previous ∈ graph.edges,
    origin edge.target edge.inSocket = (previous.target, previous.inSocket) ∧
    moved previous.source previous.outSocket = (edge.source, edge.outSocket) ∧
    values edge.source edge.outSocket = old previous.source previous.outSocket
  stays : ∀ previous ∈ graph.edges, ∀ id place, other.contains id = true →
    origin id place = (previous.target, previous.inSocket) →
    ∃ edge ∈ other.edges, edge.target = id ∧ edge.inSocket = place

section Carrying

variable {values old : Valuation Value} {moved origin : NodeId → Nat → NodeId × Nat}

/-- Inputs that have one source each still do where edges have moved. -/
theorem Carries.single
    (carries : Carries other graph values old moved origin) (single : graph.SingleSource) :
    other.SingleSource := by
  intro first firstMember second secondMember sameTarget sameSocket
  rcases carries.came first firstMember with ⟨oldFirst, oldFirstMember, firstFrom, firstMoved, -⟩
  rcases carries.came second secondMember with
    ⟨oldSecond, oldSecondMember, secondFrom, secondMoved, -⟩
  rw [sameTarget, sameSocket, firstFrom, Prod.mk.injEq] at secondFrom
  rcases single oldFirst oldFirstMember oldSecond oldSecondMember secondFrom.1.symm
    secondFrom.2.symm with ⟨sameSource, sameOutput⟩
  rw [sameSource, sameOutput, firstMoved, Prod.mk.injEq] at secondMoved
  exact ⟨secondMoved.1.symm, secondMoved.2.symm⟩

/-- An input reads what its origin reads. -/
theorem Carries.read_eq
    (carries : Carries other graph values old moved origin) (single : graph.SingleSource)
    {id sourceId : NodeId} {place fromPlace : Nat} (present : other.contains id = true)
    (isOrigin : origin id place = (sourceId, fromPlace)) (unfed : SocketValue) :
    read meaning other values id place unfed =
      read meaning graph old sourceId fromPlace unfed := by
  rw [read, read]
  cases fed : other.feed? id place with
  | none =>
      cases oldFed : graph.feed? sourceId fromPlace with
      | none => rfl
      | some previous =>
          rcases feed?_eq_some oldFed with ⟨member, rfl, rfl⟩
          rcases carries.stays previous member id place present isOrigin with
            ⟨edge, edgeMember, rfl, rfl⟩
          rcases exists_feed? edgeMember with ⟨first, firstFed⟩
          rw [firstFed] at fed
          cases fed
  | some edge =>
      rcases feed?_eq_some fed with ⟨member, rfl, rfl⟩
      rcases carries.came edge member with ⟨previous, previousMember, isFrom, -, value⟩
      rw [isOrigin, Prod.mk.injEq] at isFrom
      rcases isFrom with ⟨rfl, rfl⟩
      rcases exists_feed? previousMember with ⟨first, firstFed⟩
      rcases feed?_eq_some firstFed with ⟨firstMember, sameTarget, sameSocket⟩
      rcases single previous previousMember first firstMember sameTarget sameSocket with
        ⟨sameSource, sameOutput⟩
      simp only [firstFed, value, sameSource, sameOutput]

/-- A node whose inputs are where they were reads what it read. -/
theorem Carries.inputValues_eq
    (carries : Carries other graph values old moved origin) (single : graph.SingleSource)
    {id : NodeId} {node previous : Node}
    (found : other.node? id = some node) (wasFound : graph.node? id = some previous)
    (inputs : node.inputs = previous.inputs)
    (fixed : ∀ place, origin id place = (id, place)) :
    inputValues meaning other values node = inputValues meaning graph old previous := by
  rw [inputValues, inputValues, inputs]
  apply List.mapIdx_eq_mapIdx_iff.mpr
  intro place _
  rw [id_of_node? found, id_of_node? wasFound]
  exact carries.read_eq single (contains_of_node? found) (fixed place) _

end Carrying

/-! ## What a pass keeps -/

/-- A node is what it was, or it is an accessor that now hands out channels. -/
def StandsFor (node previous : Node) : Prop :=
  node = previous ∨
    previous.kind = .geometry .vertexColor ∧ ∃ channels, node = withChannels channels previous

theorem StandsFor.inputs {node previous : Node} (stands : StandsFor node previous) :
    node.inputs = previous.inputs := by
  rcases stands with rfl | ⟨-, channels, rfl⟩
  · rfl
  · rfl

theorem StandsFor.isTexture {node previous : Node} (stands : StandsFor node previous) :
    node.kind.isTexture = previous.kind.isTexture := by
  rcases stands with rfl | ⟨kind, channels, rfl⟩
  · rfl
  · rw [kind]
    rfl

theorem StandsFor.trans
    {node middle previous : Node} (left : StandsFor node middle)
    (right : StandsFor middle previous) :
    StandsFor node previous := by
  rcases left with rfl | ⟨middleKind, channels, rfl⟩
  · exact right
  · rcases right with rfl | ⟨-, _, rfl⟩
    · exact Or.inr ⟨middleKind, channels, rfl⟩
    · cases middleKind

/--
One graph computes what another does.  Nodes that are not merged are the same, and all
nodes but samplers read the same at their inputs.  Every lookup of a sampler is made by a
lane of one.
-/
structure Refines (meaning : Interpretation Value) (other graph : Graph) : Prop where
  kept : ∀ id node, graph.node? id = some node → node.kind.isMerged = false →
    other.node? id = some node
  output : ∀ id node, graph.output = some id → graph.node? id = some node →
    node.kind.isMerged = false → other.output = some id
  survivors : ∀ id node, other.node? id = some node → node.kind.isTexture = false →
    ∃ previous, graph.node? id = some previous ∧ StandsFor node previous ∧
      inputValues meaning other (evaluate meaning other) node =
        inputValues meaning graph (evaluate meaning graph) previous
  lanes : ∀ id previous sampler lanes, graph.node? id = some previous →
    previous.kind = .texture sampler lanes → ∀ lane < lanes,
    ∃ keeper node count place, other.node? keeper = some node ∧
      node.kind = .texture sampler count ∧ node.key? = previous.key? ∧ place < count ∧
      inputAt meaning (inputValues meaning other (evaluate meaning other) node) place =
        inputAt meaning (inputValues meaning graph (evaluate meaning graph) previous) lane

theorem Refines.refl (meaning : Interpretation Value) (graph : Graph) :
    Refines meaning graph graph where
  kept _ _ found _ := found
  output _ _ isOutput _ _ := isOutput
  survivors _ node found _ := ⟨node, found, Or.inl rfl, rfl⟩
  lanes id previous _ lanes found kind lane inRange :=
    ⟨id, previous, lanes, lane, found, kind, rfl, inRange, rfl⟩

/-- Passes can be put one after another. -/
theorem Refines.trans {third : Graph}
    (left : Refines meaning third other) (right : Refines meaning other graph) :
    Refines meaning third graph where
  kept id node found unmerged := left.kept id node (right.kept id node found unmerged) unmerged
  output id node isOutput found unmerged :=
    left.output id node (right.output id node isOutput found unmerged)
      (right.kept id node found unmerged) unmerged
  survivors id node found notSampler := by
    rcases left.survivors id node found notSampler with
      ⟨middle, middleFound, middleStands, middleReads⟩
    rcases right.survivors id middle middleFound (middleStands.isTexture ▸ notSampler) with
      ⟨previous, wasFound, stands, reads⟩
    exact ⟨previous, wasFound, middleStands.trans stands, middleReads.trans reads⟩
  lanes id previous sampler lanes wasFound wasKind lane inRange := by
    rcases right.lanes id previous sampler lanes wasFound wasKind lane inRange with
      ⟨middleId, middle, count, place, middleFound, middleKind, middleKey, placed, middleReads⟩
    rcases left.lanes middleId middle sampler count middleFound middleKind place placed with
      ⟨keeper, node, total, final, found, kind, key, finalPlaced, reads⟩
    exact ⟨keeper, node, total, final, found, kind, key.trans middleKey, finalPlaced,
      reads.trans middleReads⟩

/-- A step that leaves samplers alone and moves no input. -/
theorem Carries.refines
    {values : Valuation Value} {moved origin : NodeId → Nat → NodeId × Nat}
    (carries : Carries other graph values (evaluate meaning graph) moved origin)
    (solves : Solves meaning other values) (single : graph.SingleSource) (plain : other.Plain)
    (fixed : ∀ id place, origin id place = (id, place))
    (nodes : ∀ id node, other.node? id = some node → ∃ previous,
      graph.node? id = some previous ∧ StandsFor node previous)
    (samplers : ∀ id node, graph.node? id = some node → node.kind.isTexture = true →
      other.node? id = some node)
    (kept : ∀ id node, graph.node? id = some node → node.kind.isMerged = false →
      other.node? id = some node)
    (output : ∀ id node, graph.output = some id → graph.node? id = some node →
      node.kind.isMerged = false → other.output = some id) :
    Refines meaning other graph where
  kept := kept
  output := output
  survivors id node found _ := by
    rcases nodes id node found with ⟨previous, wasFound, stands⟩
    refine ⟨previous, wasFound, stands, ?_⟩
    rw [solves.inputValues_evaluate plain]
    exact carries.inputValues_eq single found wasFound stands.inputs (fixed id)
  lanes id previous sampler lanes wasFound kind lane inRange := by
    have found : other.node? id = some previous :=
      samplers id previous wasFound (by rw [kind]; rfl)
    refine ⟨id, previous, lanes, lane, found, kind, rfl, inRange, ?_⟩
    rw [solves.inputValues_evaluate plain,
      carries.inputValues_eq single found wasFound rfl (fixed id)]

end Graph

end NodeMaterial
