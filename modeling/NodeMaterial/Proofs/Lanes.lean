import NodeMaterial.Proofs.Order
import NodeMaterial.Proofs.SharedTextures

/-!
# Sharing samplers only moves them

A seating gives every node a home and a lane.  Sharing the samplers of a graph seats
each of them at the first sampler of its group, lane after lane in the order of their
numbers.  Every edge follows the nodes at its ends to their seats, and nothing else
happens to it; so does every socket, which gets the number of its lane if there are
several.  All other nodes stay where they are.

Samplers are seated one after the other, while the graph changes.  A sampler that has
not been seated yet has nobody beside it, so to move the edges that have been moved
already comes to the same as moving all edges at once.
-/

namespace NodeMaterial

/-- Where nodes are to be found: the node that each has become part of, and as which lane. -/
structure Seating where
  home : NodeId → NodeId
  lane : NodeId → Nat

namespace Seating

/-- Every node is by itself. -/
def apart : Seating :=
  ⟨id, fun _ => 0⟩

/-- The seating after a node has become a lane of another. -/
def join (seating : Seating) (node keeper : NodeId) (lane : Nat) : Seating where
  home := Function.update seating.home node keeper
  lane := Function.update seating.lane node lane

/-- The edge between the seats of its nodes, where each lane has so many inputs and outputs. -/
def move (seating : Seating) (inputs outputs : Nat) (edge : Edge) : Edge where
  source := seating.home edge.source
  target := seating.home edge.target
  outSocket := edge.outSocket + seating.lane edge.source * outputs
  inSocket := edge.inSocket + seating.lane edge.target * inputs

/-- The samplers that are seated at a node, in order. -/
def members (seating : Seating) (samplers : List Node) (keeper : NodeId) : List Node :=
  samplers.filter fun sampler => seating.home sampler.id == keeper

/-- Samplers share nodes with their like: at most three with one, in order, the first at home. -/
structure Arranges (seating : Seating) (samplers : List Node) : Prop where
  others : ∀ id ∉ samplers.map (·.id), seating.home id = id ∧ seating.lane id = 0
  keeper : ∀ sampler ∈ samplers, ∃ keeper ∈ samplers,
    seating.home sampler.id = keeper.id ∧ seating.home keeper.id = keeper.id ∧
      keeper.id ≤ sampler.id ∧ keeper.kind = sampler.kind ∧ keeper.key? = sampler.key?
  first : ∀ sampler ∈ samplers,
    seating.lane sampler.id = 0 ↔ seating.home sampler.id = sampler.id
  ordered : ∀ keeper, (seating.members samplers keeper).Pairwise
    fun first second => first.id < second.id
  lanes : ∀ keeper, (seating.members samplers keeper).map (fun sampler => seating.lane sampler.id) =
    List.range (seating.members samplers keeper).length
  few : ∀ keeper, (seating.members samplers keeper).length ≤ 3

variable {seating : Seating} {samplers : List Node}

theorem arranges_nil : apart.Arranges [] where
  others := fun _ _ => ⟨rfl, rfl⟩
  keeper := by simp
  first := by simp
  ordered := fun _ => .nil
  lanes := fun _ => rfl
  few := fun _ => Nat.zero_le _

/-- A sampler sits behind the members of its home. -/
theorem members_append (seating : Seating) (samplers : List Node) (candidate : Node)
    (keeper : NodeId) :
    seating.members (samplers ++ [candidate]) keeper =
      seating.members samplers keeper ++
        if seating.home candidate.id = keeper then [candidate] else [] := by
  rw [members, List.filter_append]
  by_cases seated : seating.home candidate.id = keeper
  · simp [members, seated]
  · simp [members, seated]

theorem join_of_ne {node other keeper : NodeId} {lane : Nat} (different : other ≠ node) :
    (seating.join node keeper lane).home other = seating.home other ∧
      (seating.join node keeper lane).lane other = seating.lane other :=
  ⟨Function.update_of_ne different _ _, Function.update_of_ne different _ _⟩

theorem join_self (seating : Seating) (node keeper : NodeId) (lane : Nat) :
    (seating.join node keeper lane).home node = keeper ∧
      (seating.join node keeper lane).lane node = lane :=
  ⟨Function.update_self _ _ _, Function.update_self _ _ _⟩

/-- A seat for a new node does not change who sits where. -/
theorem members_join {node keeper other : NodeId} {lane : Nat}
    (fresh : node ∉ samplers.map (·.id)) :
    (seating.join node keeper lane).members samplers other = seating.members samplers other := by
  refine List.filter_congr fun sampler member => ?_
  have different : sampler.id ≠ node := fun same => fresh (same ▸ List.mem_map_of_mem member)
  rw [(join_of_ne different).1]

section Arranging

variable {candidate keeper : Node}

/-- A node that is none of the samplers is the only one at its home. -/
theorem Arranges.home_eq_iff (arranges : seating.Arranges samplers) {id other : NodeId}
    (fresh : id ∉ samplers.map (·.id)) :
    seating.home other = id ↔ other = id := by
  constructor
  · intro seated
    by_cases member : other ∈ samplers.map (·.id)
    · rcases List.mem_map.mp member with ⟨sampler, samplerMember, rfl⟩
      rcases arranges.keeper sampler samplerMember with ⟨keeper, keeperMember, home, -⟩
      rw [home] at seated
      exact absurd (seated ▸ List.mem_map_of_mem keeperMember) fresh
    · rw [← (arranges.others other member).1, seated]
  · rintro rfl
    exact (arranges.others other fresh).1

/-- Nobody is seated at a node that is none of the samplers. -/
theorem Arranges.members_eq_nil (arranges : seating.Arranges samplers) {id : NodeId}
    (fresh : id ∉ samplers.map (·.id)) :
    seating.members samplers id = [] := by
  refine List.filter_eq_nil_iff.mpr fun sampler member seated => ?_
  have same := (arranges.home_eq_iff fresh).mp (beq_iff_eq.mp seated)
  exact fresh (same ▸ List.mem_map_of_mem member)

/-- Samplers that are arranged have distinct numbers. -/
theorem Arranges.eq_of_id_eq (arranges : seating.Arranges samplers) {first second : Node}
    (firstMember : first ∈ samplers) (secondMember : second ∈ samplers)
    (same : first.id = second.id) : first = second := by
  have distinct : ((seating.members samplers (seating.home first.id)).map (·.id)).Nodup :=
    List.pairwise_map.mpr ((arranges.ordered _).imp fun before => Nat.ne_of_lt before)
  refine List.inj_on_of_nodup_map distinct ?_ ?_ same
  · exact List.mem_filter.mpr ⟨firstMember, beq_self_eq_true _⟩
  · exact List.mem_filter.mpr ⟨secondMember, by rw [same]; exact beq_self_eq_true _⟩

/-- A sampler that is at home is one of those that are seated there. -/
theorem members_ne_nil (member : keeper ∈ samplers)
    (atHome : seating.home keeper.id = keeper.id) :
    seating.members samplers keeper.id ≠ [] :=
  List.ne_nil_of_mem (List.mem_filter.mpr ⟨member, beq_iff_eq.mpr atHome⟩)

theorem not_mem_of_later (later : ∀ earlier ∈ samplers, earlier.id < candidate.id) :
    candidate.id ∉ samplers.map (·.id) := by
  intro member
  rcases List.mem_map.mp member with ⟨earlier, earlierMember, same⟩
  exact Nat.lt_irrefl _ (same ▸ later earlier earlierMember)

/-- A sampler after all others has a place with its like, or is the first at its own home. -/
structure Takes (seating : Seating) (samplers : List Node) (keeper candidate : Node) : Prop where
  later : ∀ earlier ∈ samplers, earlier.id < candidate.id
  place : keeper = candidate ∨ keeper ∈ samplers ∧ seating.home keeper.id = keeper.id
  kind : keeper.kind = candidate.kind
  key : keeper.key? = candidate.key?
  room : (seating.members samplers keeper.id).length < 3

/-- The seating after a sampler has been seated behind those that are at its keeper. -/
def seat (seating : Seating) (samplers : List Node) (keeper candidate : Node) : Seating :=
  seating.join candidate.id keeper.id (seating.members samplers keeper.id).length

theorem Takes.fresh (takes : seating.Takes samplers keeper candidate) :
    candidate.id ∉ samplers.map (·.id) :=
  not_mem_of_later takes.later

theorem Takes.ne_candidate (takes : seating.Takes samplers keeper candidate) {sampler : Node}
    (member : sampler ∈ samplers) : sampler.id ≠ candidate.id :=
  Nat.ne_of_lt (takes.later sampler member)

theorem Takes.seat_of_mem (takes : seating.Takes samplers keeper candidate) {sampler : Node}
    (member : sampler ∈ samplers) :
    (seating.seat samplers keeper candidate).home sampler.id = seating.home sampler.id ∧
      (seating.seat samplers keeper candidate).lane sampler.id = seating.lane sampler.id :=
  join_of_ne (takes.ne_candidate member)

/-- A sampler comes last of those that are seated at its keeper. -/
theorem Takes.members_seat (takes : seating.Takes samplers keeper candidate) (id : NodeId) :
    (seating.seat samplers keeper candidate).members (samplers ++ [candidate]) id =
      seating.members samplers id ++ if keeper.id = id then [candidate] else [] := by
  rw [members_append, seat, members_join takes.fresh, (join_self ..).1]

/-- To be the first at one's home is to stay. -/
theorem Arranges.seat_self (arranges : seating.Arranges samplers)
    (takes : seating.Takes samplers candidate candidate) :
    seating.seat samplers candidate candidate = seating := by
  rcases arranges.others _ takes.fresh with ⟨home, lane⟩
  rw [seat, arranges.members_eq_nil takes.fresh, List.length_nil]
  simp only [join]
  congr 1
  · exact Function.update_eq_iff.mpr ⟨home.symm, fun _ _ => rfl⟩
  · exact Function.update_eq_iff.mpr ⟨lane.symm, fun _ _ => rfl⟩

/-- One more sampler is seated behind the others of its home. -/
theorem Arranges.seat (arranges : seating.Arranges samplers)
    (takes : seating.Takes samplers keeper candidate) :
    (seating.seat samplers keeper candidate).Arranges (samplers ++ [candidate]) := by
  have own : (seating.seat samplers keeper candidate).home candidate.id = keeper.id ∧
      (seating.seat samplers keeper candidate).lane candidate.id =
        (seating.members samplers keeper.id).length := join_self ..
  constructor
  case others =>
    intro id outside
    rw [List.map_append, List.mem_append, not_or] at outside
    have different : id ≠ candidate.id := by simpa using outside.2
    rw [Seating.seat, (join_of_ne different).1, (join_of_ne different).2]
    exact arranges.others id outside.1
  case keeper =>
    intro sampler member
    rcases List.mem_append.mp member with old | new
    · rcases arranges.keeper sampler old with ⟨other, otherMember, home, atHome, rest⟩
      refine ⟨other, List.mem_append_left _ otherMember, ?_, ?_, rest⟩
      · rw [(takes.seat_of_mem old).1, home]
      · rw [(takes.seat_of_mem otherMember).1, atHome]
    · rw [List.mem_singleton.mp new]
      rcases takes.place with rfl | ⟨keeperMember, atHome⟩
      · exact ⟨keeper, List.mem_append_right _ (List.mem_singleton_self _), own.1, own.1, le_rfl,
          rfl, rfl⟩
      · refine ⟨keeper, List.mem_append_left _ keeperMember, own.1, ?_,
          (takes.later keeper keeperMember).le, takes.kind, takes.key⟩
        rw [(takes.seat_of_mem keeperMember).1, atHome]
  case first =>
    intro sampler member
    rcases List.mem_append.mp member with old | new
    · rw [(takes.seat_of_mem old).1, (takes.seat_of_mem old).2]
      exact arranges.first sampler old
    · rw [List.mem_singleton.mp new, own.1, own.2]
      rcases takes.place with rfl | ⟨keeperMember, atHome⟩
      · simp [arranges.members_eq_nil takes.fresh]
      · simp [members_ne_nil keeperMember atHome, takes.ne_candidate keeperMember]
  case ordered =>
    intro id
    rw [takes.members_seat]
    split
    · refine List.pairwise_append.mpr ⟨arranges.ordered id, List.pairwise_singleton _ _, ?_⟩
      intro earlier member last isLast
      rw [List.mem_singleton.mp isLast]
      exact takes.later earlier (List.mem_filter.mp member).1
    · simpa using arranges.ordered id
  case lanes =>
    intro id
    have kept : (seating.members samplers id).map
        (fun sampler => (seating.seat samplers keeper candidate).lane sampler.id) =
          List.range (seating.members samplers id).length := by
      rw [← arranges.lanes id]
      exact List.map_congr_left fun sampler member =>
        (takes.seat_of_mem (List.mem_filter.mp member).1).2
    rw [takes.members_seat, List.map_append, kept]
    split
    · rename_i same
      simp [own.2, same, List.range_succ]
    · simp
  case few =>
    intro id
    rw [takes.members_seat]
    split
    · rename_i same
      have room := takes.room
      rw [List.length_append, List.length_singleton, ← same]
      omega
    · simpa using arranges.few id

end Arranging

/-! ## Edges -/

/-- To move edges to the seats of a seating, then one node, is to move them all at once. -/
theorem move_join {node keeper : NodeId} {lane : Nat}
    (alone : ∀ other, seating.home other = node ↔ other = node) (first : seating.lane node = 0)
    (inputs outputs : Nat) (edge : Edge) :
    (apart.join node keeper lane).move inputs outputs (seating.move inputs outputs edge) =
      (seating.join node keeper lane).move inputs outputs edge := by
  have home : ∀ other, (apart.join node keeper lane).home (seating.home other) =
      (seating.join node keeper lane).home other := by
    intro other
    simp [join, apart, Function.update_apply, alone]
  have offset : ∀ other, seating.lane other + (apart.join node keeper lane).lane
      (seating.home other) = (seating.join node keeper lane).lane other := by
    intro other
    by_cases same : other = node
    · simp [join, apart, Function.update_apply, alone, same, first]
    · simp [join, apart, alone, same]
  simp only [move, home, ← offset, Nat.add_mul, Nat.add_assoc]

end Seating

namespace Graph

variable {graph : Graph} {keeper candidate : Node}

/-- The edge after a sampler has become a lane of another. -/
def toLane (keeper candidate : Node) : Edge → Edge :=
  (Seating.apart.join candidate.id keeper.id (laneCount keeper)).move
    candidate.inputs.length candidate.outputs.length

theorem toLane_of_not_touches {edge : Edge} (source : edge.source ≠ candidate.id)
    (target : edge.target ≠ candidate.id) : toLane keeper candidate edge = edge := by
  simp [toLane, Seating.move, Seating.join, Seating.apart, source, target]

theorem toLane_of_target {edge : Edge} (source : edge.source ≠ candidate.id)
    (target : edge.target = candidate.id) :
    toLane keeper candidate edge = enterLane keeper candidate edge := by
  simp [toLane, Seating.move, Seating.join, Seating.apart, source, target, enterLane]

theorem toLane_of_source {edge : Edge} (source : edge.source = candidate.id)
    (target : edge.target ≠ candidate.id) :
    toLane keeper candidate edge = leaveLane keeper candidate edge := by
  simp [toLane, Seating.move, Seating.join, Seating.apart, source, target, leaveLane]

/-- Edges away from a sampler, to it, and from it are all edges, if none has it at both ends. -/
theorem map_toLane_perm (keeper candidate : Node) {edges : List Edge}
    (loopless : ∀ edge ∈ edges, edge.source ≠ edge.target) :
    (edges.map (toLane keeper candidate)).Perm
      (edges.filter (!·.touches candidate.id) ++
        (edges.filter (·.target == candidate.id)).map (enterLane keeper candidate) ++
        (edges.filter (·.source == candidate.id)).map (leaveLane keeper candidate)) := by
  induction edges with
  | nil => exact .nil
  | cons edge others induction =>
      rcases List.forall_mem_cons.mp loopless with ⟨noLoop, othersLoopless⟩
      have rest := induction othersLoopless
      by_cases source : edge.source = candidate.id
      · have target : edge.target ≠ candidate.id := fun target => noLoop (source.trans target.symm)
        have sorted := (rest.cons (leaveLane keeper candidate edge)).trans List.perm_middle.symm
        simpa [toLane_of_source, Edge.touches, source, target] using sorted
      · by_cases target : edge.target = candidate.id
        · rw [List.append_assoc] at rest ⊢
          have sorted := (rest.cons (enterLane keeper candidate edge)).trans List.perm_middle.symm
          simpa [toLane_of_target, Edge.touches, source, target] using sorted
        · simpa [toLane_of_not_touches, Edge.touches, source, target] using rest

/-- Absorbing a sampler moves each of its edges to its lane, and no other edge. -/
theorem edges_absorb (acyclic : graph.Acyclic) (closed : graph.Closed)
    (joins : graph.Joins keeper candidate) :
    (graph.absorb keeper candidate).edges.Perm (graph.edges.map (toLane keeper candidate)) := by
  have loopless : ∀ edge ∈ graph.edges, edge.source ≠ edge.target :=
    fun edge member => acyclic.source_ne_target member (closed.sources edge member)
  have bare : (graph.takeSockets keeper candidate).edges =
      graph.edges.filter (!·.touches candidate.id) :=
    edges_withoutNode (contains_of_node? joins.found)
  refine List.Perm.trans ?_ (map_toLane_perm keeper candidate loopless).symm
  rw [absorb, ← bare, ← inEdges_eq_filter, ← outEdges_eq_filter]
  exact (edges_addEdges _ _).trans ((edges_addEdges _ _).append_right _)

/-- Absorbing a sampler leaves no edge without an end. -/
theorem Closed.absorb (closed : graph.Closed) (acyclic : graph.Acyclic)
    (joins : graph.Joins keeper candidate) : (graph.absorb keeper candidate).Closed := by
  have seated : ∀ id, graph.contains id = true → (graph.absorb keeper candidate).contains
      ((Seating.apart.join candidate.id keeper.id (laneCount keeper)).home id) = true := by
    intro id present
    by_cases same : id = candidate.id
    · rw [same, (Seating.join_self ..).1]
      exact contains_absorb.mpr ⟨joins.different, contains_of_node? joins.keeperFound⟩
    · rw [(Seating.join_of_ne same).1]
      exact contains_absorb.mpr ⟨same, present⟩
  have moved : ∀ edge ∈ (graph.absorb keeper candidate).edges,
      ∃ old ∈ graph.edges, toLane keeper candidate old = edge :=
    fun edge member => List.mem_map.mp ((edges_absorb acyclic closed joins).mem_iff.mp member)
  constructor
  · intro edge member
    rcases moved edge member with ⟨old, oldMember, rfl⟩
    exact seated old.source (closed.sources old oldMember)
  · intro edge member
    rcases moved edge member with ⟨old, oldMember, rfl⟩
    exact seated old.target (closed.targets old oldMember)

/-! ## Sockets -/

/-- The sockets of lanes, one lane after the other, numbered from one if there are several. -/
def laneSockets (lanes : List (List Socket)) : List Socket :=
  if lanes.length = 1 then lanes.flatten
  else
    (lanes.mapIdx fun lane sockets => sockets.map fun socket =>
      { socket with identifier := socket.identifier ++ toString (lane + 1) }).flatten

theorem map_numberSocket (number : Nat) (sockets : List Socket) :
    sockets.map (numberSocket number) = sockets.map fun socket =>
      { socket with identifier := socket.identifier ++ toString number } :=
  rfl

/--
A lane more is what the pass appends to a sampler, numbering the first lane when the second comes.
-/
theorem laneSockets_append {lanes : List (List Socket)} (filled : lanes ≠ [])
    (added : List Socket) :
    laneSockets (lanes ++ [added]) = appendLane lanes.length (laneSockets lanes) added := by
  have several : (lanes ++ [added]).length ≠ 1 := by simp [filled]
  rw [laneSockets, if_neg several, List.mapIdx_concat, List.flatten_concat, appendLane, laneSockets]
  by_cases single : lanes.length = 1
  · rcases List.length_eq_one_iff.mp single with ⟨only, rfl⟩
    simp [map_numberSocket]
  · rw [if_neg single, if_neg single, map_numberSocket]

/-- The kind with so many lanes. -/
def withLanes (lanes : Nat) : Kind → Kind
  | .texture sampler _ => .texture sampler lanes
  | kind => kind

/-- A sampler with the sockets of others, and of itself, as its lanes. -/
def gathered (members : List Node) (sampler : Node) : Node :=
  { sampler with
    kind := withLanes members.length sampler.kind
    inputs := laneSockets (members.map (·.inputs))
    outputs := laneSockets (members.map (·.outputs)) }

theorem gathered_self {node : Node} {sampler : Sampler} (kind : node.kind = .texture sampler 1) :
    gathered [node] node = node := by
  have same : withLanes 1 node.kind = node.kind := by simp [kind, withLanes]
  simp [gathered, laneSockets, same]

theorem kind_gathered {node : Node} {sampler : Sampler} {lanes : Nat}
    (kind : node.kind = .texture sampler lanes) (members : List Node) :
    (gathered members node).kind = .texture sampler members.length := by
  simp [gathered, kind, withLanes]

/-- Widening a sampler gathers one member more. -/
theorem widen_gathered {node : Node} {sampler : Sampler} {lanes : Nat}
    (kind : node.kind = .texture sampler lanes) {members : List Node} (filled : members ≠ [])
    (added : Node) :
    widen added (gathered members node) = gathered (members ++ [added]) node := by
  have lanes : laneCount (gathered members node) = members.length := by
    simp [laneCount, kind_gathered kind]
  have appended : ∀ sockets : Node → List Socket,
      laneSockets ((members ++ [added]).map sockets) =
        appendLane members.length (laneSockets (members.map sockets)) (sockets added) := by
    intro sockets
    rw [List.map_append, List.map_singleton, laneSockets_append (by simpa using filled),
      List.length_map]
  simp only [widen, lanes, kind_gathered kind, addLane]
  simp only [gathered, kind, withLanes, appended, List.length_append, List.length_singleton]

/-! ## Graphs -/

/-- A graph becomes another by moving samplers to their seats; so many of them are gone. -/
structure Reseats (graph result : Graph) (samplers : List Node) (inputs outputs : Nat)
    (count : Nat) (seating : Seating) : Prop where
  arranges : seating.Arranges samplers
  present : ∀ id, result.contains id = true ↔ graph.contains id = true ∧ seating.lane id = 0
  count : samplers.countP (fun sampler => decide (0 < seating.lane sampler.id)) = count
  edges : result.edges.Perm (graph.edges.map (seating.move inputs outputs))
  keepers : ∀ sampler ∈ samplers, seating.lane sampler.id = 0 →
    result.node? sampler.id = some (gathered (seating.members samplers sampler.id) sampler)
  rest : ∀ node ∈ graph.nodes, node.id ∉ samplers.map (·.id) → result.node? node.id = some node

/-- Before the first sampler nothing has moved. -/
theorem reseats_self (graph : Graph) (inputs outputs : Nat) :
    Reseats graph graph [] inputs outputs 0 .apart where
  arranges := Seating.arranges_nil
  present := by simp [Seating.apart]
  count := rfl
  edges := by
    have same : Seating.apart.move inputs outputs = id := by
      funext edge
      simp [Seating.move, Seating.apart]
    rw [same, List.map_id]
  keepers := by simp
  rest := fun node member _ => node?_of_mem member

section Steps

variable {current : Graph} {seen : List Node} {inputs outputs count : Nat} {seating : Seating}
  {original : Node}

/-- A sampler that is the first at its home stays where it is. -/
theorem Reseats.opens (reseats : Reseats graph current seen inputs outputs count seating)
    (takes : seating.Takes seen candidate candidate) {sampler : Sampler}
    (kind : candidate.kind = .texture sampler 1)
    (found : current.node? candidate.id = some candidate) :
    Reseats graph current (seen ++ [candidate]) inputs outputs count seating := by
  have same := reseats.arranges.seat_self takes
  have members := takes.members_seat
  have arranges := reseats.arranges.seat takes
  rw [same] at members arranges
  have lane := (reseats.arranges.others _ takes.fresh).2
  constructor
  case arranges => exact arranges
  case present => exact reseats.present
  case count => simp [List.countP_append, reseats.count, lane]
  case edges => exact reseats.edges
  case keepers =>
    intro other member first
    rw [members]
    rcases List.mem_append.mp member with old | new
    · rw [if_neg (takes.ne_candidate old).symm, List.append_nil]
      exact reseats.keepers other old first
    · rw [List.mem_singleton.mp new, if_pos rfl, reseats.arranges.members_eq_nil takes.fresh,
        List.nil_append, gathered_self kind]
      exact found
  case rest =>
    intro node member outside
    rw [List.map_append, List.mem_append, not_or] at outside
    exact reseats.rest node member outside.1

/-- A sampler that joins another one becomes its last lane. -/
theorem Reseats.absorb (reseats : Reseats graph current seen inputs outputs count seating)
    (takes : seating.Takes seen original candidate)
    (member : original ∈ seen) (atHome : seating.home original.id = original.id)
    {sampler : Sampler} {lanes : Nat} (kind : original.kind = .texture sampler lanes)
    (size : candidate.inputs.length = inputs ∧ candidate.outputs.length = outputs)
    (acyclic : current.Acyclic) (closed : current.Closed)
    (joins : current.Joins keeper candidate)
    (isKeeper : keeper = gathered (seating.members seen original.id) original) :
    Reseats graph (current.absorb keeper candidate) (seen ++ [candidate]) inputs outputs
      (count + 1) (seating.seat seen original candidate) := by
  have filled := Seating.members_ne_nil member atHome
  have sameId : keeper.id = original.id := by rw [isKeeper]; rfl
  have laneCount : laneCount keeper = (seating.members seen original.id).length := by
    simp [isKeeper, Graph.laneCount, kind_gathered kind]
  have unmoved : ∀ {id}, id ≠ candidate.id → id ≠ original.id →
      (current.absorb keeper candidate).node? id = current.node? id :=
    fun notCandidate notKeeper =>
      (node?_absorb _).trans (node?_takeSockets_of_ne notCandidate (sameId ▸ notKeeper))
  constructor
  case arranges => exact reseats.arranges.seat takes
  case present =>
    intro id
    rw [contains_absorb, reseats.present]
    by_cases same : id = candidate.id
    · simp [same, Seating.seat, Seating.join, filled]
    · rw [Seating.seat, (Seating.join_of_ne same).2]
      simp [same]
  case count =>
    have kept : seen.countP (fun other =>
        decide (0 < (seating.seat seen original candidate).lane other.id)) = count := by
      rw [← reseats.count]
      refine List.countP_congr fun other otherMember => ?_
      rw [(takes.seat_of_mem otherMember).2]
    rw [List.countP_append, kept]
    simp [Seating.seat, Seating.join, List.length_pos_iff, filled]
  case edges =>
    have alone : ∀ other, seating.home other = candidate.id ↔ other = candidate.id :=
      fun other => reseats.arranges.home_eq_iff takes.fresh
    have first := (reseats.arranges.others _ takes.fresh).2
    refine (edges_absorb acyclic closed joins).trans ((reseats.edges.map _).trans (.of_eq ?_))
    rw [List.map_map, toLane, size.1, size.2, laneCount, sameId]
    exact List.map_congr_left fun edge _ => Seating.move_join alone first inputs outputs edge
  case keepers =>
    intro other otherMember first
    rw [takes.members_seat]
    rcases List.mem_append.mp otherMember with old | new
    · by_cases same : original.id = other.id
      · cases reseats.arranges.eq_of_id_eq member old same
        rw [if_pos rfl, ← widen_gathered kind filled, ← isKeeper, ← sameId]
        exact node?_absorb_keeper joins
      · rw [if_neg same, List.append_nil, unmoved (takes.ne_candidate old) (Ne.symm same)]
        rw [(takes.seat_of_mem old).2] at first
        exact reseats.keepers other old first
    · rw [List.mem_singleton.mp new, Seating.seat, (Seating.join_self ..).2] at first
      exact absurd (List.length_eq_zero_iff.mp first) filled
  case rest =>
    intro node nodeMember outside
    rw [List.map_append, List.mem_append, not_or] at outside
    have notCandidate : node.id ≠ candidate.id := by simpa using outside.2
    have notKeeper : node.id ≠ original.id :=
      fun same => outside.1 (same ▸ List.mem_map_of_mem member)
    rw [unmoved notCandidate notKeeper]
    exact reseats.rest node nodeMember outside.1

end Steps

/-! ## The whole pass -/

/-- The samplers of a graph have one lane each, and as many inputs and outputs as one another. -/
structure Uniform (graph : Graph) (inputs outputs : Nat) : Prop where
  lanes : ∀ sampler ∈ graph.samplers, laneCount sampler = 1
  inputs : ∀ sampler ∈ graph.samplers, sampler.inputs.length = inputs
  outputs : ∀ sampler ∈ graph.samplers, sampler.outputs.length = outputs

/-- The samplers seen so far have been seated, and the groups know who is at their keepers. -/
structure Shares (graph : Graph) (inputs outputs : Nat) (seen : List Node)
    (groups : List SamplerGroup) (current : Graph) (count : Nat) (seating : Seating) : Prop where
  reseats : Reseats graph current seen inputs outputs count seating
  acyclic : current.Acyclic
  closed : current.Closed
  groups : ∀ group ∈ groups, ∃ original ∈ seen, original.id = group.keeper ∧
    seating.home original.id = original.id ∧
      (seating.members seen original.id).length = group.absorbed + 1

section Run

variable {current : Graph} {seen : List Node} {inputs outputs count : Nat} {seating : Seating}
  {groups : List SamplerGroup}

theorem Uniform.kind (uniform : graph.Uniform inputs outputs) {sampler : Node}
    (member : sampler ∈ graph.samplers) : ∃ use, sampler.kind = .texture use 1 := by
  have shareable := (List.mem_filter.mp member).2
  have lanes := uniform.lanes sampler member
  simp only [isShareableTexture] at shareable
  split at shareable
  · rename_i use count kind
    simp only [laneCount, kind] at lanes
    exact ⟨use, lanes ▸ kind⟩
  · cases shareable

theorem lt_of_next (next : seen ++ [candidate] <+: graph.samplers) {earlier : Node}
    (member : earlier ∈ seen) : earlier.id < candidate.id := by
  have ordered := (graph.ascending.filter isShareableTexture).sublist next.sublist
  exact (List.pairwise_append.mp ordered).2.2 earlier member candidate (List.mem_singleton_self _)

theorem mem_of_next (next : seen ++ [candidate] <+: graph.samplers) : candidate ∈ graph.samplers :=
  next.subset (List.mem_append_right _ (List.mem_singleton_self _))

/-- A sampler that fits no group keeps its seat, and opens a group. -/
theorem Shares.opens (shares : Shares graph inputs outputs seen groups current count seating)
    (uniform : graph.Uniform inputs outputs) (next : seen ++ [candidate] <+: graph.samplers)
    (found : current.node? candidate.id = some candidate) :
    Shares graph inputs outputs (seen ++ [candidate]) (groups ++ [⟨candidate.id, 0⟩]) current count
      seating := by
  have arranges := shares.reseats.arranges
  have later : ∀ earlier ∈ seen, earlier.id < candidate.id :=
    fun earlier member => lt_of_next next member
  have fresh := Seating.not_mem_of_later later
  have takes : seating.Takes seen candidate candidate :=
    { later
      place := Or.inl rfl
      kind := rfl
      key := rfl
      room := by simp [arranges.members_eq_nil fresh] }
  have members := takes.members_seat
  rw [arranges.seat_self takes] at members
  rcases uniform.kind (mem_of_next next) with ⟨use, kind⟩
  refine ⟨shares.reseats.opens takes kind found, shares.acyclic, shares.closed, ?_⟩
  intro group member
  rcases List.mem_append.mp member with old | new
  · rcases shares.groups group old with ⟨original, originalMember, sameId, atHome, size⟩
    refine ⟨original, List.mem_append_left _ originalMember, sameId, atHome, ?_⟩
    rw [members, if_neg (takes.ne_candidate originalMember).symm, List.append_nil, size]
  · rw [List.mem_singleton.mp new]
    refine ⟨candidate, List.mem_append_right _ (List.mem_singleton_self _), rfl,
      (arranges.others _ fresh).1, ?_⟩
    rw [members, if_pos rfl, arranges.members_eq_nil fresh]
    rfl

/-- A sampler is like the one that its keeper was before others joined it. -/
theorem Joins.alike_of_gathered (joins : current.Joins keeper candidate) {members : List Node}
    {original : Node} (isKeeper : keeper = gathered members original) {use : Sampler}
    (kind : original.kind = .texture use 1) :
    original.kind = candidate.kind ∧ original.key? = candidate.key? := by
  rcases kinds_of_sameTexture joins.same with ⟨_, _, candidateKind, keeperKind, sameKey⟩
  rw [isKeeper, kind_gathered kind] at keeperKind
  cases keeperKind
  exact ⟨kind.trans candidateKind.symm, (sameKey.trans (congrArg Node.key? isKeeper)).symm⟩

/-- Groups at different places have different keepers. -/
theorem keeper_ne (distinct : (groups.map (·.keeper)).Nodup) {first second : Nat}
    (different : first ≠ second) {one other : SamplerGroup} (atFirst : groups[first]? = some one)
    (atSecond : groups[second]? = some other) : one.keeper ≠ other.keeper := by
  intro same
  have inRange : first < (groups.map (·.keeper)).length := by
    rw [List.length_map]
    exact (List.getElem?_eq_some_iff.mp atFirst).1
  refine different ((List.getElem?_inj inRange distinct).mp ?_)
  rw [List.getElem?_map, List.getElem?_map, atFirst, atSecond]
  exact congrArg some same

/-- A sampler that fits a group takes the next lane of its keeper. -/
theorem Shares.absorb (shares : Shares graph inputs outputs seen groups current count seating)
    (uniform : graph.Uniform inputs outputs) (next : seen ++ [candidate] <+: graph.samplers)
    (distinct : (groups.map (·.keeper)).Nodup) {place : Nat} {group : SamplerGroup}
    (atPlace : groups[place]? = some group) (room : group.absorbed < SamplerGroup.capacity)
    (keeperId : keeper.id = group.keeper) (joins : current.Joins keeper candidate) :
    ∃ seated, Shares graph inputs outputs (seen ++ [candidate]) (joined groups place)
      (current.absorb keeper candidate) (count + 1) seated := by
  have arranges := shares.reseats.arranges
  rcases shares.groups group (List.mem_of_getElem? atPlace) with
    ⟨original, member, sameId, atHome, size⟩
  have isKeeper : keeper = gathered (seating.members seen original.id) original := by
    have first := (arranges.first original member).mpr atHome
    have found := shares.reseats.keepers original member first
    rw [sameId, ← keeperId, joins.keeperFound] at found
    rw [sameId, ← keeperId]
    exact Option.some.inj found
  have inGraph : original ∈ graph.samplers := next.subset (List.mem_append_left _ member)
  rcases uniform.kind inGraph with ⟨use, kind⟩
  have alike := joins.alike_of_gathered isKeeper kind
  have takes : seating.Takes seen original candidate :=
    { later := fun earlier earlierMember => lt_of_next next earlierMember
      place := Or.inr ⟨member, atHome⟩
      kind := alike.1
      key := alike.2
      room := by
        rw [size]
        exact Nat.succ_lt_succ room }
  have reseats := shares.reseats.absorb takes member atHome kind
    ⟨uniform.inputs _ (mem_of_next next), uniform.outputs _ (mem_of_next next)⟩
    shares.acyclic shares.closed joins isKeeper
  refine ⟨_, reseats, shares.acyclic.absorb joins, shares.closed.absorb shares.acyclic joins, ?_⟩
  intro other otherMember
  rcases (mem_joined atPlace).mp otherMember with rfl | ⟨index, elsewhere, found⟩
  · refine ⟨original, List.mem_append_left _ member, sameId, ?_, ?_⟩
    · rw [(takes.seat_of_mem member).1, atHome]
    · rw [takes.members_seat, if_pos rfl, List.length_append, size]
      rfl
  · rcases shares.groups other (List.mem_of_getElem? found) with
      ⟨another, anotherMember, anotherId, anotherHome, anotherSize⟩
    have different : original.id ≠ another.id := by
      rw [sameId, anotherId]
      exact (keeper_ne distinct elsewhere found atPlace).symm
    refine ⟨another, List.mem_append_left _ anotherMember, anotherId, ?_, ?_⟩
    · rw [(takes.seat_of_mem anotherMember).1, anotherHome]
    · rw [takes.members_seat, if_neg different, List.append_nil, anotherSize]

end Run

/-- Sharing the samplers of a graph seats each of them, and moves every edge with its ends. -/
theorem mergeTextures_reseats {inputs outputs : Nat} (acyclic : graph.Acyclic)
    (closed : graph.Closed) (uniform : graph.Uniform inputs outputs) :
    ∃ seating, Reseats graph graph.mergeTextures.1 graph.samplers inputs outputs
      graph.mergeTextures.2 seating ∧ graph.mergeTextures.1.edgeCount = graph.edgeCount := by
  have run : ∃ groups, ∃ seating, Shares graph inputs outputs graph.samplers groups
      graph.mergeTextures.1 graph.mergeTextures.2 seating := by
    apply mergeTextures_run fun seen groups current count =>
      ∃ seating, Shares graph inputs outputs seen groups current count seating
    · exact ⟨.apart, reseats_self graph inputs outputs, acyclic, closed, by simp⟩
    · rintro seen groups current count candidate next found - ⟨seating, shares⟩
      exact ⟨seating, shares.opens uniform next found⟩
    · rintro seen groups current count place group keeper candidate next distinct atPlace room
        keeperId joins ⟨seating, shares⟩
      exact shares.absorb uniform next distinct atPlace room keeperId joins
  rcases run with ⟨groups, seating, shares⟩
  refine ⟨seating, shares.reseats, ?_⟩
  have length := shares.reseats.edges.length_eq
  rw [List.length_map] at length
  rw [edgeCount, edgeCount, EdgeBag.size_eq_length, EdgeBag.size_eq_length]
  exact length

/-- A sampler for colours of one texture. -/
def brick (name : String) : Node where
  kind := .texture .color 1
  name := name
  inputs := [.titled "Vector" true .zero]
  outputs := [.titled "Color" true .zero, .titled "Value" true .zero]
  data := some (.texture "bricks" { name := "bricks" })

/-- Five samplers of one texture; what the second looks up says where two later ones look. -/
def brickwork : Graph :=
  let samplers : Graph := ((((Graph.empty.withNode (brick "A")).withNode (brick "B")).withNode
    (brick "C")).withNode (brick "D")).withNode (brick "E")
  (samplers.withNode { kind := .output, name := "Output" }).addEdges
    [⟨0, 5, 0, 0⟩, ⟨1, 2, 1, 0⟩, ⟨1, 4, 0, 0⟩, ⟨2, 5, 0, 1⟩, ⟨3, 5, 1, 0⟩, ⟨4, 5, 1, 2⟩]

/-- Five samplers of one texture share two nodes, the first of which is full. -/
theorem mergeTextures_reseats_brickwork :
    (brickwork.Acyclic ∧ brickwork.Closed ∧ brickwork.Uniform 1 2) ∧
      brickwork.mergeTextures.1.nodeIds = [0, 2, 5] ∧
      brickwork.mergeTextures.1.edges =
        [⟨0, 2, 2, 1⟩, ⟨0, 2, 3, 0⟩, ⟨0, 5, 0, 0⟩, ⟨0, 5, 5, 0⟩, ⟨2, 5, 0, 1⟩, ⟨2, 5, 3, 2⟩] ∧
      (brickwork.mergeTextures.1.nodes.map fun node =>
          (node.inputs.map (·.identifier), node.outputs.map (·.identifier))) =
        [(["Vector1", "Vector2", "Vector3"],
            ["Color1", "Value1", "Color2", "Value2", "Color3", "Value3"]),
          (["Vector1", "Vector2"], ["Color1", "Value1", "Color2", "Value2"]), ([], [])] ∧
      ∃ seating, Reseats brickwork brickwork.mergeTextures.1 brickwork.samplers 1 2
        brickwork.mergeTextures.2 seating ∧
          brickwork.mergeTextures.1.edgeCount = brickwork.edgeCount := by
  have acyclic : brickwork.Acyclic := by decide +kernel
  have closed : brickwork.Closed := by decide +kernel
  have uniform : brickwork.Uniform 1 2 :=
    ⟨by decide +kernel, by decide +kernel, by decide +kernel⟩
  refine ⟨⟨acyclic, closed, uniform⟩, ?_, ?_, ?_, mergeTextures_reseats acyclic closed uniform⟩
  · decide +kernel
  · decide +kernel
  · decide +kernel

end Graph

end NodeMaterial
