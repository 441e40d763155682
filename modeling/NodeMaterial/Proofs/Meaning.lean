import NodeMaterial.Proofs.SharedMeaning

/-!
# Merging keeps what a graph computes

A splitter that reads an accessor gives components of a vertex colour.  The accessor
gives the same ones once it hands out channels itself.

Together with sharing: nodes that the passes do not merge stay and compute the same
values from the same inputs, and every lookup of a sampler is still made.
-/

namespace NodeMaterial

namespace Graph

variable {Value : Type} {meaning : Interpretation Value} {graph other : Graph}

/-! ## Handing out channels -/

section Exposing

variable {accessor : Node} {splitters : List NodeId}

/-- An edge into a splitter ends at its only input. -/
theorem Plain.inSocket_splitter
    (plain : graph.Plain) {edge : Edge} (member : edge ∈ graph.edges)
    (splitter : graph.HasKind edge.target .separateRgb) :
    edge.inSocket = 0 := by
  rcases splitter with ⟨node, found, kind⟩
  have oneInput := (plain.splitters node (mem_nodes_of_node? found) kind).1
  have inRange := plain.wellFormed.inputs edge member node found
  omega

/-- Splitters of one input read one node if that input has one source. -/
theorem Plain.readOne (plain : graph.Plain) : graph.SplittersReadOne := by
  intro first firstMember second secondMember splitter sameTarget
  have firstPlace := plain.inSocket_splitter firstMember splitter
  have secondPlace := plain.inSocket_splitter secondMember (sameTarget ▸ splitter)
  exact (plain.single first firstMember second secondMember sameTarget
    (secondPlace.trans firstPlace.symm)).1

/-- A splitter of an accessor reads what this accesses. -/
theorem inputAt_splitter
    (meaning : Interpretation Value) (plain : graph.Plain)
    (splits : graph.Splits accessor splitters) {id : NodeId} {node : Node}
    (found : graph.node? id = some node) (member : id ∈ splitters) :
    inputAt meaning (inputValues meaning graph (evaluate meaning graph) node) 0 =
      accessed meaning .vertexColor accessor := by
  rcases splits.splitter id member with ⟨_, sameFound, kind⟩
  cases found.symm.trans sameFound
  have oneInput := (plain.splitters node (mem_nodes_of_node? found) kind).1
  rcases (splits.readers id).mp member with ⟨feed, feedMember, source, rfl⟩
  have place := plain.inSocket_splitter feedMember ⟨node, found, kind⟩
  rcases exists_feed? feedMember with ⟨first, firstFed⟩
  rcases feed?_eq_some firstFed with ⟨firstMember, sameTarget, -⟩
  have firstSource := (plain.readOne.source_eq_accessor splits firstMember (sameTarget ▸ member))
  have fromAccessor : evaluate meaning graph first.source first.outSocket =
      accessed meaning .vertexColor accessor := by
    rw [firstSource, plain.solves_evaluate meaning _ _ splits.found]
    simp only [outputOf, splits.kind]
  rw [place] at firstFed
  rw [inputAt, inputValues, List.getElem?_mapIdx, List.getElem?_eq_getElem (by omega)]
  simp only [Option.map_some, Option.getD_some, read, id_of_node? found, firstFed, fromAccessor]

/-- The place where an accessor hands out a channel has the name of the channel. -/
theorem channelAt_withChannels
    {channels : List Nat} {channel : Nat} (isExposed : channel ∈ channels)
    (inRange : channel < 3) (node : Node) :
    channelAt (withChannels channels node) (channels.idxOf channel) = channel := by
  have named : ∀ channel < 3,
      channelNames.idxOf ((channelNames[channel]?).getD "") = channel := by
    decide
  have place := List.getElem?_idxOf isExposed
  simp only [channelAt, withChannels, List.getElem?_map, place, Option.map_some,
    Option.getD_some, channelSocket, Socket.titled]
  exact named channel inRange

/-- An accessor gives the component that a splitter would give of its value. -/
theorem outputOf_withChannels
    {channels : List Nat} {channel : Nat} (isExposed : channel ∈ channels)
    (inRange : channel < 3) (node : Node) (inputs : List Value) :
    outputOf meaning (withChannels channels node) inputs (channels.idxOf channel) =
      meaning.component channel (accessed meaning .vertexColor node) := by
  change meaning.component (channelAt (withChannels channels node) _) _ = _
  rw [channelAt_withChannels isExposed inRange]
  rfl

/-- The values after an accessor has begun to hand out channels. -/
def channelValues (meaning : Interpretation Value) (accessor : Node) (channels : List Nat)
    (values : Valuation Value) : Valuation Value :=
  Function.update values accessor.id (outputOf meaning (withChannels channels accessor) [])

/-- Where an output of a splitter is found after that. -/
def handedOut (accessor : Node) (splitters : List NodeId) (channels : List Nat)
    (source : NodeId) (place : Nat) : NodeId × Nat :=
  if source ∈ splitters then (accessor.id, channels.idxOf place) else (source, place)

/-- An input that read a splitter reads the same component from the accessor. -/
theorem carries_expose
    (meaning : Interpretation Value) (plain : graph.Plain)
    (splits : graph.Splits accessor splitters) :
    Carries (graph.expose accessor.id splitters) graph
      (channelValues meaning accessor (graph.exposed splitters) (evaluate meaning graph))
      (evaluate meaning graph)
      (handedOut accessor splitters (graph.exposed splitters)) Prod.mk := by
  have sound := plain.wellFormed.sound
  constructor
  · intro edge member
    rcases (mem_edges_expose splits).mp member with
      ⟨old, sourceAway, targetAway⟩ | ⟨read, readMember, rfl⟩
    · refine ⟨edge, old, rfl, ?_, ?_⟩
      · rw [handedOut, if_neg sourceAway]
      · rw [channelValues, Function.update_of_ne]
        exact splits.source_ne_accessor old targetAway
    · rcases mem_channelReads.mp readMember with ⟨readEdge, fromSplitter, inRange⟩
      have isExposed : read.outSocket ∈ graph.exposed splitters :=
        mem_exposed.mpr ⟨inRange, read, readMember, rfl⟩
      refine ⟨read, readEdge, rfl, ?_, ?_⟩
      · rw [handedOut, if_pos fromSplitter]
        rfl
      · rcases splits.splitter read.source fromSplitter with ⟨splitter, found, kind⟩
        have component : evaluate meaning graph read.source read.outSocket =
            meaning.component read.outSocket (accessed meaning .vertexColor accessor) := by
          rw [plain.solves_evaluate meaning _ _ found]
          simp only [outputOf, kind, inputAt_splitter meaning plain splits found fromSplitter]
        rw [component, ← outputOf_withChannels isExposed inRange accessor []]
        simp only [channelValues, readDirectly, Function.update_self]
  · intro previous member id place stillPresent isOrigin
    rcases contains_expose.mp stillPresent with ⟨notSplitter, -⟩
    cases isOrigin
    by_cases fromSplitter : previous.source ∈ splitters
    · refine ⟨readDirectly accessor.id (graph.exposed splitters) previous, ?_, rfl, rfl⟩
      have inRange : previous.outSocket < 3 := by
        rcases splits.splitter previous.source fromSplitter with ⟨splitter, found, kind⟩
        have few := (plain.splitters splitter (mem_nodes_of_node? found) kind).2
        exact Nat.lt_of_lt_of_le (plain.wellFormed.outputs previous member splitter found) few
      exact (mem_edges_expose splits).mpr
        (Or.inr ⟨previous, mem_channelReads.mpr ⟨member, fromSplitter, inRange⟩, rfl⟩)
    · exact ⟨previous,
        (mem_edges_expose splits).mpr (Or.inl ⟨member, fromSplitter, notSplitter⟩), rfl, rfl⟩

theorem node?_of_node?_expose
    {id : NodeId} {node : Node}
    (found : (graph.expose accessor.id splitters).node? id = some node)
    (notAccessor : id ≠ accessor.id) :
    graph.node? id = some node := by
  rw [node?_expose_of_ne notAccessor] at found
  split at found
  · cases found
  · exact found

theorem Plain.expose (plain : graph.Plain) (splits : graph.Splits accessor splitters) :
    (graph.expose accessor.id splitters).Plain := by
  constructor
  · have sound : (graph.expose accessor.id splitters).Sound fun _ => False := by
      apply plain.wellFormed.sound.expose splits fun _ _ => id
      intro read member source target
      exact absurd target (plain.readOne.not_chained splits member source)
    exact sound.wellFormed (plain.wellFormed.acyclic.expose splits)
  · exact (carries_expose .trivial plain splits).single plain.single
  · intro node member kind
    have found := node?_of_mem member
    have has : (graph.expose accessor.id splitters).HasKind node.id .separateRgb :=
      ⟨node, found, kind⟩
    have notAccessor := (has.of_expose splits fun _ => Kind.noConfusion).1
    have wasFound := node?_of_node?_expose found notAccessor
    exact plain.splitters node (mem_nodes_of_node? wasFound) kind

/-- The old values, with components at the new outputs, solve the new equations. -/
theorem solves_expose
    (meaning : Interpretation Value) (plain : graph.Plain)
    (splits : graph.Splits accessor splitters) :
    Solves meaning (graph.expose accessor.id splitters)
      (channelValues meaning accessor (graph.exposed splitters) (evaluate meaning graph)) := by
  have carries := carries_expose meaning plain splits
  intro id node found place
  by_cases atAccessor : id = accessor.id
  · subst atAccessor
    cases found.symm.trans (node?_expose_accessor splits)
    rw [channelValues, Function.update_self]
    rfl
  · have wasFound := node?_of_node?_expose found atAccessor
    rw [carries.inputValues_eq plain.single found wasFound rfl fun _ => rfl, channelValues,
      Function.update_of_ne atAccessor]
    exact plain.solves_evaluate meaning id node wasFound place

theorem node?_expose_of_kind
    (splits : graph.Splits accessor splitters) {id : NodeId} {node : Node}
    (found : graph.node? id = some node) (notAccessor : node.kind ≠ .geometry .vertexColor)
    (notSplitter : node.kind ≠ .separateRgb) :
    (graph.expose accessor.id splitters).node? id = some node := by
  have different : id ≠ accessor.id := by
    rintro rfl
    cases found.symm.trans splits.found
    exact notAccessor splits.kind
  rw [node?_expose_of_ne different, if_neg (splits.not_mem_of_kind found notSplitter), found]

/-- Handing out channels keeps the value of every node that stays. -/
theorem refines_expose
    (meaning : Interpretation Value) (plain : graph.Plain)
    (splits : graph.Splits accessor splitters) :
    Refines meaning (graph.expose accessor.id splitters) graph := by
  apply (carries_expose meaning plain splits).refines
  · exact solves_expose meaning plain splits
  · exact plain.single
  · exact plain.expose splits
  · exact fun _ _ => rfl
  · intro id node found
    by_cases atAccessor : id = accessor.id
    · subst atAccessor
      cases found.symm.trans (node?_expose_accessor splits)
      exact ⟨accessor, splits.found, Or.inr ⟨splits.kind, _, rfl⟩⟩
    · exact ⟨node, node?_of_node?_expose found atAccessor, Or.inl rfl⟩
  · intro id node found sampler
    apply node?_expose_of_kind splits found
    · exact fun kind => nomatch kind ▸ sampler
    · exact fun kind => nomatch kind ▸ sampler
  · intro id node found unmerged
    apply node?_expose_of_kind splits found
    · exact fun kind => nomatch kind ▸ unmerged
    · exact fun kind => nomatch kind ▸ unmerged
  · intro id node isOutput found unmerged
    apply output_expose_of_not_mem isOutput
    apply splits.not_mem_of_kind found
    exact fun kind => nomatch kind ▸ unmerged

end Exposing

/-! ## The passes -/

/-- The channels pass keeps a graph plain and the values of its nodes. -/
theorem Plain.optimizeChannels (meaning : Interpretation Value) (plain : graph.Plain) :
    graph.optimizeChannels.1.Plain ∧ Refines meaning graph.optimizeChannels.1 graph := by
  apply optimizeChannels_induction fun current => current.Plain ∧ Refines meaning current graph
  · rintro current accessor splitters splits ⟨currentPlain, refines⟩
    exact ⟨currentPlain.expose splits,
      (refines_expose meaning currentPlain splits).trans refines⟩
  · exact ⟨plain, Refines.refl meaning graph⟩

/-! ## What is computed -/

/-- A node that reads the same values in two graphs gives the same values. -/
theorem evaluate_eq_of_inputValues_eq
    (plain : graph.Plain) (otherPlain : other.Plain) {id : NodeId} {node : Node}
    (found : other.node? id = some node) (wasFound : graph.node? id = some node)
    (reads : inputValues meaning other (evaluate meaning other) node =
      inputValues meaning graph (evaluate meaning graph) node) :
    evaluate meaning other id = evaluate meaning graph id := by
  funext place
  rw [otherPlain.solves_evaluate meaning id node found,
    plain.solves_evaluate meaning id node wasFound, reads]

/-- An accessor that hands out channels gives components of what it used to give. -/
theorem evaluate_withChannels
    (plain : graph.Plain) (otherPlain : other.Plain) {id : NodeId} {previous : Node}
    {channels : List Nat} (found : other.node? id = some (withChannels channels previous))
    (wasFound : graph.node? id = some previous)
    (kind : previous.kind = .geometry .vertexColor) (place : Nat) :
    evaluate meaning other id place =
      meaning.component (channelAt (withChannels channels previous) place)
        (evaluate meaning graph id 0) := by
  rw [otherPlain.solves_evaluate meaning id _ found,
    plain.solves_evaluate meaning id previous wasFound]
  simp only [outputOf, kind]
  rfl

/-- The outputs of a lane are those of one lookup. -/
theorem evaluate_lane
    (plain : graph.Plain) {id : NodeId} {node : Node} {sampler : Sampler} {lanes : Nat}
    (found : graph.node? id = some node) (kind : node.kind = .texture sampler lanes)
    (lane : Nat) {side : Nat} (inRange : side < 2) :
    evaluate meaning graph id (2 * lane + side) =
      meaning.sample sampler node.key?
        (inputAt meaning (inputValues meaning graph (evaluate meaning graph) node) lane)
        side := by
  have atLane : (2 * lane + side) / 2 = lane := by omega
  have atSide : (2 * lane + side) % 2 = side := by omega
  rw [plain.solves_evaluate meaning id node found]
  simp only [outputOf, kind, atLane, atSide]

/--
Merging and handing out channels keep what a graph computes, one by one and in sequence.
Nodes that are not merged stay.  A node that is left and is no sampler reads what it
read; it gives what it gave, or components of it if it now hands out channels.  Each
lookup of a sampler is made by a lane of a sampler of the same kind and key.
-/
theorem merging_keeps_values
    (meaning : Interpretation Value) (plain : graph.Plain) (merged : Graph)
    (result : merged ∈ [graph.mergeGeometry.1, graph.mergeTextures.1, graph.mergeNodes.1,
      graph.optimizeChannels.1, graph.mergeNodes.1.optimizeChannels.1]) :
    (∀ id node, graph.node? id = some node → node.kind.isMerged = false →
      merged.node? id = some node ∧
      inputValues meaning merged (evaluate meaning merged) node =
        inputValues meaning graph (evaluate meaning graph) node ∧
      evaluate meaning merged id = evaluate meaning graph id ∧
      (graph.output = some id → merged.output = some id)) ∧
    (∀ id node, merged.node? id = some node → node.kind.isTexture = false →
      ∃ previous, graph.node? id = some previous ∧
        inputValues meaning merged (evaluate meaning merged) node =
          inputValues meaning graph (evaluate meaning graph) previous ∧
        (node = previous ∧ evaluate meaning merged id = evaluate meaning graph id ∨
          previous.kind = .geometry .vertexColor ∧
            (∃ channels, node = withChannels channels previous) ∧
            ∀ place, evaluate meaning merged id place =
              meaning.component (channelAt node place) (evaluate meaning graph id 0))) ∧
    (∀ id previous sampler lanes, graph.node? id = some previous →
      previous.kind = .texture sampler lanes → ∀ lane < lanes,
      ∃ keeper node count place, merged.node? keeper = some node ∧
        node.kind = .texture sampler count ∧ node.key? = previous.key? ∧ place < count ∧
        inputAt meaning (inputValues meaning merged (evaluate meaning merged) node) place =
          inputAt meaning (inputValues meaning graph (evaluate meaning graph) previous) lane ∧
        ∀ side < 2, evaluate meaning merged keeper (2 * place + side) =
          evaluate meaning graph id (2 * lane + side)) := by
  have kept : merged.Plain ∧ Refines meaning merged graph := by
    rcases plain.mergeNodes meaning with ⟨sharedPlain, shared⟩
    rcases sharedPlain.optimizeChannels meaning with ⟨finalPlain, final⟩
    simp only [List.mem_cons, List.not_mem_nil, or_false] at result
    rcases result with rfl | rfl | rfl | rfl | rfl
    · exact plain.mergeGeometry meaning
    · exact plain.mergeTextures meaning
    · exact ⟨sharedPlain, shared⟩
    · exact plain.optimizeChannels meaning
    · exact ⟨finalPlain, final.trans shared⟩
  rcases kept with ⟨mergedPlain, refines⟩
  refine ⟨?_, ?_, ?_⟩
  · intro id node wasFound unmerged
    have found := refines.kept id node wasFound unmerged
    rcases refines.survivors id node found (isTexture_eq_false_of_unmerged unmerged) with
      ⟨_, sameFound, -, reads⟩
    cases wasFound.symm.trans sameFound
    exact ⟨found, reads,
      evaluate_eq_of_inputValues_eq plain mergedPlain found wasFound reads,
      fun isOutput => refines.output id node isOutput wasFound unmerged⟩
  · intro id node found notSampler
    rcases refines.survivors id node found notSampler with ⟨previous, wasFound, stands, reads⟩
    refine ⟨previous, wasFound, reads, ?_⟩
    rcases stands with rfl | ⟨kind, channels, rfl⟩
    · exact Or.inl ⟨rfl,
        evaluate_eq_of_inputValues_eq plain mergedPlain found wasFound reads⟩
    · exact Or.inr ⟨kind, ⟨channels, rfl⟩,
        evaluate_withChannels plain mergedPlain found wasFound kind⟩
  · intro id previous sampler lanes wasFound wasKind lane inRange
    rcases refines.lanes id previous sampler lanes wasFound wasKind lane inRange with
      ⟨keeper, node, count, place, found, kind, key, placed, reads⟩
    refine ⟨keeper, node, count, place, found, kind, key, placed, reads, ?_⟩
    intro side sideInRange
    rw [evaluate_lane mergedPlain found kind place sideInRange,
      evaluate_lane plain wasFound wasKind lane sideInRange, key, reads]

/-- Values that only say how they have been computed. -/
inductive Term where
  | default
  | facet (layer : Option String)
  | lookup (key : Option String) (place : Term) (side : Nat)
  | component (channel : Nat) (color : Term)
  | result (kind : Kind)
  deriving DecidableEq

def symbolic : Interpretation Term where
  constant _ := .default
  facet _ := .facet
  sample _ := .lookup
  component := .component
  operate kind _ _ _ _ := .result kind

/-- Of the seven nodes three are left, and the output reads what it read. -/
theorem merging_keeps_values_paintedBricks :
    paintedBricks.Plain ∧
    paintedBricks.mergeNodes.1.optimizeChannels.1.nodeIds = [0, 4, 6] ∧
    ∃ output, paintedBricks.node? 6 = some output ∧
      paintedBricks.mergeNodes.1.optimizeChannels.1.node? 6 = some output ∧
      inputValues symbolic paintedBricks.mergeNodes.1.optimizeChannels.1
          (evaluate symbolic paintedBricks.mergeNodes.1.optimizeChannels.1) output =
        [.lookup (some "bricks") (.component 2 (.facet (some "Paint"))) 0,
          .component 0 (.facet (some "Paint")),
          .lookup (some "bricks") (.component 1 (.facet (some "Paint"))) 1] := by
  have plain : paintedBricks.Plain :=
    ⟨⟨by decide +kernel, by decide +kernel, by decide +kernel, by decide +kernel,
      by decide +kernel, by decide +kernel⟩, by decide +kernel, by decide +kernel⟩
  refine ⟨plain, by decide +kernel, ?_⟩
  have output : ∃ output ∈ paintedBricks.node? 6, output.kind.isMerged = false ∧
      inputValues symbolic paintedBricks (evaluate symbolic paintedBricks) output =
        [.lookup (some "bricks") (.component 2 (.facet (some "Paint"))) 0,
          .component 0 (.facet (some "Paint")),
          .lookup (some "bricks") (.component 1 (.facet (some "Paint"))) 1] := by
    decide +kernel
  rcases output with ⟨output, found, unmerged, reads⟩
  have inSequence : paintedBricks.mergeNodes.1.optimizeChannels.1 ∈
      [paintedBricks.mergeGeometry.1, paintedBricks.mergeTextures.1,
        paintedBricks.mergeNodes.1, paintedBricks.optimizeChannels.1,
        paintedBricks.mergeNodes.1.optimizeChannels.1] := by
    simp
  rcases merging_keeps_values symbolic plain _ inSequence with ⟨kept, -, -⟩
  rcases kept 6 output found unmerged with ⟨stillFound, sameReads, -, -⟩
  exact ⟨output, found, stillFound, sameReads.trans reads⟩

end Graph

end NodeMaterial
