import NodeMaterial.Proofs.Lanes
import NodeMaterial.Proofs.LeadingAccessors
import NodeMaterial.Proofs.Liveness
import NodeMaterial.Proofs.WellFormed

/-!
# Link flags stay true while nodes are shared

The flag of a socket is to say whether an edge touches the socket.  All flags are set by
the edges once, before accessors and samplers are shared, and never again.  They stay
true because sharing moves flags in the way in which it moves edges.

An accessor that takes over the edges of another is already flagged: in a live graph
something reads it.  The sockets of a sampler that becomes a lane keep their flags, and
they come to stand where the edges of the sampler are moved to.
-/

namespace NodeMaterial

/-- Sockets stand on two sides of a node: edges enter it on one and leave it on the other. -/
inductive Side where
  | input
  | output
  deriving DecidableEq, Repr

namespace Side

/-- The sockets of a node on one side. -/
def sockets : Side → Node → List Socket
  | .input, node => node.inputs
  | .output, node => node.outputs

/-- The flags of the sockets on one side. -/
def flags (side : Side) (node : Node) : List Bool :=
  (side.sockets node).map (·.isLinked)

/-- Where an edge touches a side of a node. -/
def place : Side → Edge → NodeId × Nat
  | .input, edge => edge.finish
  | .output, edge => edge.start

/-- An edge touches a socket on one side. -/
def hasEdge : Side → Graph → NodeId → Nat → Bool
  | .input => Graph.hasEdgeInto
  | .output => Graph.hasEdgeFrom

theorem length_flags (side : Side) (node : Node) :
    (side.flags node).length = (side.sockets node).length :=
  List.length_map _

end Side

namespace Graph

variable {graph other : Graph} {side : Side} {place : NodeId × Nat}

/-- The flag of the socket at a place. -/
def flag? (graph : Graph) (side : Side) (place : NodeId × Nat) : Option Bool :=
  (graph.node? place.1).bind fun node => (side.flags node)[place.2]?

/-- An edge touches a place. -/
def Touched (graph : Graph) (side : Side) (place : NodeId × Nat) : Prop :=
  ∃ edge ∈ graph.edges, side.place edge = place

/-- The places that are flagged as linked are those that edges touch. -/
def Truthful (graph : Graph) : Prop :=
  ∀ side place, graph.flag? side place = some true ↔ graph.Touched side place

theorem flag?_eq_some_iff {flag : Bool} :
    graph.flag? side place = some flag ↔
      ∃ node, graph.node? place.1 = some node ∧ (side.flags node)[place.2]? = some flag :=
  Option.bind_eq_some_iff

/-! ## Setting flags -/

theorem getElem?_flagSockets (linked : Nat → Bool) (sockets : List Socket) (index : Nat) :
    ((flagSockets linked sockets).map (·.isLinked))[index]? =
      ((sockets.map (·.isLinked))[index]?).map fun _ => linked index := by
  simp only [flagSockets, List.getElem?_map, List.getElem?_mapIdx, Option.map_map]
  rfl

theorem hasEdge_iff : side.hasEdge graph place.1 place.2 = true ↔ graph.Touched side place := by
  cases side with
  | input =>
      simp [Side.hasEdge, hasEdgeInto, Touched, Side.place, Edge.finish, Prod.ext_iff, and_assoc]
  | output =>
      simp [Side.hasEdge, hasEdgeFrom, Touched, Side.place, Edge.start, Prod.ext_iff, and_assoc]

/-- Setting the flags makes each one say whether an edge is there, and adds no socket. -/
theorem flag?_fixLinks (graph : Graph) (side : Side) (place : NodeId × Nat) :
    graph.fixLinks.flag? side place =
      (graph.flag? side place).map fun _ => side.hasEdge graph place.1 place.2 := by
  rw [fixLinks, flag?, node?_mapNodes, flag?]
  cases found : graph.node? place.1 with
  | none => rfl
  | some node =>
      rw [← id_of_node? found]
      cases side with
      | input => exact getElem?_flagSockets _ node.inputs place.2
      | output => exact getElem?_flagSockets _ node.outputs place.2

/-- Where nothing is excused, edges touch sockets that are there. -/
theorem Sound.flag?_of_touched (sound : graph.Sound fun _ => False)
    (touched : graph.Touched side place) : (graph.flag? side place).isSome = true := by
  rcases touched with ⟨edge, member, rfl⟩
  cases side with
  | input =>
      rcases (sound.lands edge member).resolve_left fun ⟨_, _, impossible⟩ => impossible with
        ⟨node, found, inRange⟩
      simp [flag?, Side.place, Edge.finish, found, Side.flags, Side.sockets, inRange]
  | output =>
      rcases sound.starts edge member with ⟨node, found, inRange⟩
      simp [flag?, Side.place, Edge.start, found, Side.flags, Side.sockets, inRange]

/-- Once the flags have been set they tell the truth. -/
theorem Sound.truthful_fixLinks (sound : graph.Sound fun _ => False) :
    graph.fixLinks.Truthful := by
  intro side place
  have touched : graph.fixLinks.Touched side place ↔ graph.Touched side place := Iff.rfl
  rw [flag?_fixLinks, Option.map_eq_some_iff, hasEdge_iff, touched]
  constructor
  · rintro ⟨_, -, isTouched⟩
    exact isTouched
  · intro isTouched
    rcases Option.isSome_iff_exists.mp (sound.flag?_of_touched isTouched) with ⟨flag, isFlag⟩
    exact ⟨flag, isFlag, isTouched⟩

/-! ## Moving flags and edges -/

/-- Flags stay true if they move as the edges do. -/
theorem Truthful.of_moved (truthful : graph.Truthful) {move : Edge → Edge}
    (shift : Side → NodeId × Nat → NodeId × Nat)
    (edges : other.edges.Perm (graph.edges.map move))
    (places : ∀ side edge, side.place (move edge) = shift side (side.place edge))
    (flags : ∀ side place, other.flag? side place = some true ↔
      ∃ old, graph.flag? side old = some true ∧ shift side old = place) :
    other.Truthful := by
  intro side place
  rw [flags]
  constructor
  · rintro ⟨old, flagged, rfl⟩
    rcases (truthful side old).mp flagged with ⟨edge, member, rfl⟩
    exact ⟨move edge, edges.mem_iff.mpr (List.mem_map_of_mem member), places side edge⟩
  · rintro ⟨edge, member, rfl⟩
    rcases List.mem_map.mp (edges.mem_iff.mp member) with ⟨old, oldMember, rfl⟩
    exact ⟨side.place old, (truthful side _).mpr ⟨old, oldMember, rfl⟩, (places side old).symm⟩

/-! ## Accessors -/

section Accessors

variable {node keeper : Node}

theorem place_reattach (home : NodeId → NodeId) (side : Side) (edge : Edge) :
    side.place (edge.reattach home) = (home (side.place edge).1, (side.place edge).2) := by
  cases side <;> rfl

/-- An accessor that another one repeats is not the output, so something reads it. -/
theorem Live.touched_keeper (live : graph.Live) (sound : graph.Sound fun _ => False)
    (repeats : graph.Repeats node keeper) : graph.Touched .output (keeper.id, 0) := by
  rcases live with ⟨output, -, -, reaches⟩
  have geometry := (isGeometry_of_sameGeometry repeats.same).2
  rcases Relation.ReflTransGen.cases_head (reaches _ (contains_of_node? repeats.keeperFound)) with
    isOutput | ⟨next, ⟨-, -, edge, member, source, -⟩, -⟩
  · -- Nothing but the output itself could reach an accessor, yet the repetition would have to.
    have path := reaches _ (contains_of_node? repeats.found)
    rw [← isOutput] at path
    exact absurd (sound.unfed.eq_of_reaches repeats.keeperFound geometry path) repeats.different
  · have oneOutput := ((sound.shaped _ _ repeats.keeperFound).geometry geometry).2
    have inRange := (sound.starts edge member).outSocket_lt (source ▸ repeats.keeperFound)
    refine ⟨edge, member, Prod.ext source ?_⟩
    rw [oneOutput] at inRange
    exact Nat.lt_one_iff.mp inRange

theorem flag?_replaceBy_eq_some_iff {id keeper : NodeId} {flag : Bool} :
    (graph.replaceBy id keeper).flag? side place = some flag ↔
      place.1 ≠ id ∧ graph.flag? side place = some flag := by
  simp only [flag?_eq_some_iff, node?_replaceBy_eq_some_iff, and_assoc, exists_and_left]

/-- An accessor has a single socket, an output. -/
theorem Sound.place_of_geometry (sound : graph.Sound fun _ => False)
    (found : graph.node? place.1 = some node) (geometry : isGeometry node = true) {flag : Bool}
    (isFlag : graph.flag? side place = some flag) : side = .output ∧ place.2 = 0 := by
  rcases flag?_eq_some_iff.mp isFlag with ⟨holder, holderFound, atPlace⟩
  cases found.symm.trans holderFound
  have inRange := (List.getElem?_eq_some_iff.mp atPlace).1
  rcases (sound.shaped _ _ found).geometry geometry with ⟨noInputs, oneOutput⟩
  rw [Side.length_flags] at inRange
  cases side with
  | input => simp [Side.sockets, noInputs] at inRange
  | output =>
      rw [Side.sockets, oneOutput] at inRange
      exact ⟨rfl, Nat.lt_one_iff.mp inRange⟩

/-- The accessor that is kept is read too, so edges that move to it find its output flagged. -/
theorem Truthful.replaceBy (truthful : graph.Truthful) (sound : graph.Sound fun _ => False)
    (live : graph.Live) (repeats : graph.Repeats node keeper) :
    (graph.replaceBy node.id keeper.id).Truthful := by
  have geometry := (isGeometry_of_sameGeometry repeats.same).1
  have unfed : ∀ edge ∈ graph.edges, edge.target ≠ node.id := by
    intro edge member target
    exact sound.unfed.target_not_geometry member (target ▸ repeats.found) geometry
  apply truthful.of_moved fun _ place => (identify keeper.id node.id place.1, place.2)
  · exact edges_replaceBy (contains_of_node? repeats.found) repeats.different.symm unfed
  · exact place_reattach _
  · intro side place
    rw [flag?_replaceBy_eq_some_iff]
    constructor
    · rintro ⟨away, flagged⟩
      exact ⟨place, flagged, by rw [identify_of_ne away]⟩
    · rintro ⟨old, flagged, rfl⟩
      by_cases moved : old.1 = node.id
      · rcases sound.place_of_geometry (moved ▸ repeats.found) geometry flagged with ⟨rfl, first⟩
        rw [moved, identify_self, first]
        exact ⟨repeats.different.symm, (truthful _ _).mpr (live.touched_keeper sound repeats)⟩
      · rw [identify_of_ne moved]
        exact ⟨moved, flagged⟩

end Accessors

/-! ## Samplers -/

section Samplers

variable {keeper candidate : Node}

/-- A place of a sampler after it has become a lane of another. -/
def shiftToLane (keeper candidate : Node) (side : Side) (place : NodeId × Nat) : NodeId × Nat :=
  if place.1 = candidate.id then
    (keeper.id, place.2 + laneCount keeper * (side.sockets candidate).length)
  else place

theorem place_toLane (keeper candidate : Node) (side : Side) (edge : Edge) :
    side.place (toLane keeper candidate edge) =
      shiftToLane keeper candidate side (side.place edge) := by
  cases side with
  | input =>
      by_cases moved : edge.target = candidate.id <;>
        simp [toLane, Seating.move, Seating.join, Seating.apart, Side.place, Edge.finish,
          shiftToLane, Side.sockets, moved]
  | output =>
      by_cases moved : edge.source = candidate.id <;>
        simp [toLane, Seating.move, Seating.join, Seating.apart, Side.place, Edge.start,
          shiftToLane, Side.sockets, moved]

/-- A lane that is appended keeps the flags it had. -/
theorem flags_appendLane (lanes : Nat) (sockets added : List Socket) :
    (appendLane lanes sockets added).map (·.isLinked) =
      sockets.map (·.isLinked) ++ added.map (·.isLinked) := by
  have numbered : ∀ number, (fun socket : Socket => (numberSocket number socket).isLinked) =
      (·.isLinked) := fun _ => rfl
  rw [appendLane]
  split <;> simp [Function.comp_def, numbered]

theorem flags_widen (side : Side) (candidate keeper : Node) :
    side.flags (widen candidate keeper) = side.flags keeper ++ side.flags candidate := by
  cases side <;> exact flags_appendLane _ _ _

/-- Each lane has as many sockets on a side as a sampler of one lane. -/
theorem Sound.length_flags_keeper (sound : graph.Sound fun _ => False)
    (joins : graph.Joins keeper candidate) (side : Side) :
    (side.flags keeper).length = laneCount keeper * (side.sockets candidate).length := by
  have oneLane := (sound.shaped _ _ joins.found).texture joins.isTexture.2
  have lanes := (sound.shaped _ _ joins.keeperFound).texture joins.isTexture.1
  rw [joins.laneCount_candidate] at oneLane
  rw [Side.length_flags]
  cases side with
  | input => simp [Side.sockets, oneLane.1, lanes.1]
  | output => simp [Side.sockets, oneLane.2, lanes.2, Nat.mul_comm]

theorem flag?_absorb_keeper (joins : graph.Joins keeper candidate) (side : Side) (index : Nat) :
    (graph.absorb keeper candidate).flag? side (keeper.id, index) =
      (side.flags keeper ++ side.flags candidate)[index]? := by
  rw [flag?, node?_absorb_keeper joins, Option.bind_some, flags_widen]

theorem flag?_absorb_of_ne (notCandidate : place.1 ≠ candidate.id)
    (notKeeper : place.1 ≠ keeper.id) :
    (graph.absorb keeper candidate).flag? side place = graph.flag? side place := by
  rw [flag?, node?_absorb, node?_takeSockets_of_ne notCandidate notKeeper, flag?]

/-- The flags of a sampler move to the lane that it becomes, and all others stay. -/
theorem Sound.flag?_absorb (sound : graph.Sound fun _ => False)
    (joins : graph.Joins keeper candidate) (side : Side) (place : NodeId × Nat) :
    (graph.absorb keeper candidate).flag? side place = some true ↔
      ∃ old, graph.flag? side old = some true ∧ shiftToLane keeper candidate side old = place := by
  have size := sound.length_flags_keeper joins side
  have ofKeeper : ∀ index, graph.flag? side (keeper.id, index) = (side.flags keeper)[index]? := by
    intro index
    rw [flag?, joins.keeperFound, Option.bind_some]
  have ofCandidate : ∀ index,
      graph.flag? side (candidate.id, index) = (side.flags candidate)[index]? := by
    intro index
    rw [flag?, joins.found, Option.bind_some]
  constructor
  · intro flagged
    rcases flag?_eq_some_iff.mp flagged with ⟨_, found, -⟩
    have away := (contains_absorb.mp (contains_of_node? found)).1
    by_cases atKeeper : place.1 = keeper.id
    · rcases place with ⟨_, index⟩
      cases atKeeper
      rw [flag?_absorb_keeper joins] at flagged
      by_cases early : index < (side.flags keeper).length
      · refine ⟨(keeper.id, index), ?_, if_neg away⟩
        rwa [ofKeeper, ← List.getElem?_append_left early]
      · refine ⟨(candidate.id, index - (side.flags keeper).length), ?_, ?_⟩
        · rwa [ofCandidate, ← List.getElem?_append_right (Nat.le_of_not_lt early)]
        · rw [shiftToLane, if_pos rfl, ← size, Nat.sub_add_cancel (Nat.le_of_not_lt early)]
    · exact ⟨place, (flag?_absorb_of_ne away atKeeper).symm.trans flagged, if_neg away⟩
  · rintro ⟨⟨id, index⟩, flagged, rfl⟩
    by_cases atCandidate : id = candidate.id
    · cases atCandidate
      rw [ofCandidate] at flagged
      rw [shiftToLane, if_pos rfl, ← size, flag?_absorb_keeper joins,
        List.getElem?_append_right (Nat.le_add_left _ _), Nat.add_sub_cancel]
      exact flagged
    · rw [shiftToLane, if_neg atCandidate]
      by_cases atKeeper : id = keeper.id
      · cases atKeeper
        rw [ofKeeper] at flagged
        rw [flag?_absorb_keeper joins,
          List.getElem?_append_left (List.getElem?_eq_some_iff.mp flagged).1]
        exact flagged
      · rwa [flag?_absorb_of_ne atCandidate atKeeper]

/-- Joining two samplers moves flags and edges alike. -/
theorem Truthful.absorb (truthful : graph.Truthful) (sound : graph.Sound fun _ => False)
    (acyclic : graph.Acyclic) (joins : graph.Joins keeper candidate) :
    (graph.absorb keeper candidate).Truthful := by
  have endpoints := (sound.wellFormed acyclic).endpoints
  have closed : graph.Closed :=
    ⟨fun edge member => (endpoints edge member).1, fun edge member => (endpoints edge member).2⟩
  exact truthful.of_moved (shiftToLane keeper candidate) (edges_absorb acyclic closed joins)
    (place_toLane keeper candidate) (sound.flag?_absorb joins)

end Samplers

/-! ## Both passes -/

/-- A graph without nodes has nothing to share, so only one with nodes has to be live. -/
theorem Truthful.mergeGeometry (truthful : graph.Truthful) (sound : graph.Sound fun _ => False)
    (live : ∀ id, graph.contains id = true → graph.Live) : graph.mergeGeometry.1.Truthful := by
  have kept : graph.mergeGeometry.1.Sound (fun _ => False) ∧
      (∀ id, graph.mergeGeometry.1.contains id = true → graph.mergeGeometry.1.Live) ∧
      graph.mergeGeometry.1.Truthful := by
    apply mergeGeometry_induction fun current => current.Sound (fun _ => False) ∧
      (∀ id, current.contains id = true → current.Live) ∧ current.Truthful
    · rintro current node keeper repeats ⟨currentSound, currentLive, currentTruthful⟩
      have nowLive := currentLive node.id (contains_of_node? repeats.found)
      refine ⟨?_, fun _ _ => ?_, ?_⟩
      · exact currentSound.replaceBy repeats id
      · exact nowLive.replaceBy currentSound.unfed repeats
      · exact currentTruthful.replaceBy currentSound nowLive repeats
    · exact ⟨sound, live, truthful⟩
  exact kept.2.2

theorem Truthful.mergeTextures (truthful : graph.Truthful) (sound : graph.Sound fun _ => False)
    (acyclic : graph.Acyclic) : graph.mergeTextures.1.Truthful := by
  have kept : graph.mergeTextures.1.Sound (fun _ => False) ∧ graph.mergeTextures.1.Acyclic ∧
      graph.mergeTextures.1.Truthful := by
    apply mergeTextures_induction fun current =>
      current.Sound (fun _ => False) ∧ current.Acyclic ∧ current.Truthful
    · rintro current keeper candidate joins ⟨currentSound, currentAcyclic, currentTruthful⟩
      refine ⟨?_, ?_, ?_⟩
      · exact currentSound.absorb currentAcyclic joins fun _ _ => id
      · exact currentAcyclic.absorb joins
      · exact currentTruthful.absorb currentSound currentAcyclic joins
    · exact ⟨sound, acyclic, truthful⟩
  exact kept.2.2

/--
If every node leads to the output, then after flags have been set and nodes have been shared each
flag still says whether its socket is linked.
-/
theorem mergeNodes_truthful (wellFormed : graph.WellFormed) {output : NodeId}
    (isOutput : graph.output = some output)
    (reaches : ∀ id, graph.contains id = true → graph.Reaches id output) :
    graph.fixLinks.mergeNodes.1.Truthful := by
  have sound := wellFormed.sound.fixLinks
  have acyclic := wellFormed.acyclic.fixLinks
  have live : ∀ id, graph.fixLinks.contains id = true → graph.fixLinks.Live := by
    intro id stillPresent
    have present : graph.contains id = true := (contains_mapNodes ..).symm.trans stillPresent
    have outputPresent := (reaches id present).present_iff.mp present
    exact Live.fixLinks ⟨output, isOutput, outputPresent, reaches⟩
  have accessors := wellFormed.sound.truthful_fixLinks.mergeGeometry sound live
  rcases sound.mergeGeometry (fun _ _ => id) sound.unfed acyclic with ⟨stillSound, stillAcyclic⟩
  exact accessors.mergeTextures stillSound stillAcyclic

/-- One accessor and one sampler leave, and both had outgoing edges. -/
theorem mergeNodes_truthful_paintedBricks :
    (paintedBricks.WellFormed ∧ paintedBricks.output = some 6 ∧
      ∀ id, paintedBricks.contains id = true → paintedBricks.Reaches id 6) ∧
    paintedBricks.fixLinks.mergeNodes.1.nodeIds = [0, 2, 3, 4, 6] ∧
    paintedBricks.fixLinks.mergeNodes.1.Truthful := by
  have wellFormed : paintedBricks.WellFormed :=
    ⟨by decide +kernel, by decide +kernel, by decide +kernel, by decide +kernel,
      by decide +kernel, by decide +kernel⟩
  have isOutput : paintedBricks.output = some 6 := by decide +kernel
  have found : ∀ id ∈ paintedBricks.nodeIds, id ∈ paintedBricks.ancestors 6 := by decide +kernel
  have reaches : ∀ id, paintedBricks.contains id = true → paintedBricks.Reaches id 6 :=
    fun id present => (mem_ancestors.mp (found id (mem_nodeIds.mpr present))).2
  exact ⟨⟨wellFormed, isOutput, reaches⟩, by decide +kernel,
    mergeNodes_truthful wellFormed isOutput reaches⟩

end Graph

end NodeMaterial
