import NodeMaterial.Proofs.Lanes

/-!
# Samplers are shared as far as possible

Each sampler joins the first group that has room for it.  What is left in the end
cannot be shared any further: of two samplers that look up the same, the first one's
node is full, or a path connects the two.

A sampler starts a group only because every group of its like is full or connected
with it.  A full group stays full.  A path may lose nodes on its way when these become
lanes of others, but it is still a path between the same two keepers.
-/

namespace NodeMaterial

/-- What a sampler that may share a node looks up: in which way, and in which texture. -/
def Node.lookup? (node : Node) : Option (Sampler × String) :=
  match node.kind with
  | .texture use _ => if use.isShareable then node.key?.map (use, ·) else none
  | _ => none

theorem Node.lookup?_of_kind
    {node : Node} {use : Sampler} {lanes : Nat} {key : String}
    (kind : node.kind = .texture use lanes) (shareable : use.isShareable = true)
    (bound : node.key? = some key) :
    node.lookup? = some (use, key) := by
  simp [lookup?, kind, shareable, bound]

namespace Graph

variable {graph current : Graph} {keeper candidate : Node} {groups : List SamplerGroup}
  {seen : List Node}

/-- What the sampler with a number looks up. -/
def lookupAt? (graph : Graph) (id : NodeId) : Option (Sampler × String) :=
  (graph.node? id).bind Node.lookup?

/-- A path leads from one node to another or back. -/
def Connected (graph : Graph) (first second : NodeId) : Prop :=
  graph.Reaches first second ∨ graph.Reaches second first

/-- A sampler of one lane that looks up what another one does has its kind and its texture. -/
theorem sameTexture_of_lookup?
    {what : Sampler × String} (single : laneCount candidate = 1)
    (looksUp : candidate.lookup? = some what) (keeperLooksUp : keeper.lookup? = some what) :
    sameTexture candidate keeper = true := by
  cases kind : candidate.kind <;> cases keeperKind : keeper.kind <;>
    simp only [Node.lookup?, kind, keeperKind, reduceCtorEq] at looksUp keeperLooksUp
  rename_i use lanes other otherLanes
  simp only [laneCount, kind] at single
  subst single
  split at looksUp
  · split at keeperLooksUp
    · rename_i shareable _
      rcases Option.map_eq_some_iff.mp looksUp with ⟨key, bound, rfl⟩
      rcases Option.map_eq_some_iff.mp keeperLooksUp with ⟨otherKey, otherBound, same⟩
      cases same
      simp [sameTexture, kind, keeperKind, shareable, bound, otherBound]
    · cases keeperLooksUp
  · cases looksUp

theorem lookup?_widen (added node : Node) : (widen added node).lookup? = node.lookup? := by
  cases kind : node.kind <;> simp [Node.lookup?, Node.key?, widen, addLane, kind]

/-! ## Absorbing a sampler -/

/-- Absorbing a sampler changes what no other sampler looks up. -/
theorem lookupAt?_absorb
    (joins : current.Joins keeper candidate) {id : NodeId} (away : id ≠ candidate.id) :
    (current.absorb keeper candidate).lookupAt? id = current.lookupAt? id := by
  by_cases atKeeper : id = keeper.id
  · subst atKeeper
    simp only [lookupAt?, node?_absorb_keeper joins, joins.keeperFound, Option.bind_some,
      lookup?_widen]
  · simp only [lookupAt?, node?_absorb, node?_takeSockets_of_ne away atKeeper]

/-- Paths between other samplers survive an absorption. -/
theorem Connected.absorb
    (joins : current.Joins keeper candidate) {first second : NodeId}
    (firstAway : first ≠ candidate.id) (secondAway : second ≠ candidate.id)
    (connected : current.Connected first second) :
    (current.absorb keeper candidate).Connected first second := by
  refine connected.imp (fun path => ?_) (fun path => ?_)
  · simpa only [identify_of_ne firstAway, identify_of_ne secondAway] using path.absorb joins
  · simpa only [identify_of_ne firstAway, identify_of_ne secondAway] using path.absorb joins

/-! ## Groups -/

/-- Of two groups that look up the same, the first is full, or a path connects their keepers. -/
def Parted (graph : Graph) (first second : SamplerGroup) : Prop :=
  ∀ what, graph.lookupAt? first.keeper = some what → graph.lookupAt? second.keeper = some what →
    SamplerGroup.capacity ≤ first.absorbed ∨ graph.Connected first.keeper second.keeper

/-- The samplers seen so far are in groups, and nothing more can be shared among these. -/
structure SharesOut (graph : Graph) (seen : List Node) (groups : List SamplerGroup)
    (current : Graph) : Prop where
  room : ∀ group ∈ groups, group.absorbed ≤ SamplerGroup.capacity
  keepers : ∀ group ∈ groups, group.keeper ∈ seen.map (·.id)
  lanes : ∀ group ∈ groups, ∀ node, current.node? group.keeper = some node →
    laneCount node = group.absorbed + 1
  remaining : ∀ node ∈ current.nodes, isShareableTexture node = true →
    node.id ∈ groups.map (·.keeper) ∨
      node.id ∈ graph.samplers.map (·.id) ∧ node.id ∉ seen.map (·.id)
  parted : ∀ first ∈ groups, ∀ second ∈ groups, first.keeper < second.keeper →
    current.Parted first second

/-- Before the first sampler there are no groups. -/
theorem sharesOut_start (graph : Graph) : SharesOut graph [] [] graph where
  room := by simp
  keepers := by simp
  lanes := by simp
  remaining := by
    intro node member shareable
    have isSampler : node ∈ graph.samplers := List.mem_filter.mpr ⟨member, shareable⟩
    exact Or.inr ⟨List.mem_map_of_mem isSampler, by simp⟩
  parted := by simp

/-- A sampler that finds no group is parted from every group before it. -/
theorem parted_of_groupFor?
    (single : laneCount candidate = 1) (found : current.node? candidate.id = some candidate)
    (noGroup : current.groupFor? groups candidate = none) {group : SamplerGroup}
    (member : group ∈ groups) :
    current.Parted group ⟨candidate.id, 0⟩ := by
  intro what keeperLooksUp looksUp
  rcases Option.bind_eq_some_iff.mp keeperLooksUp with ⟨keeper, keeperFound, keeperLooksUp⟩
  simp only [lookupAt?, found, Option.bind_some] at looksUp
  have same := sameTexture_of_lookup? single looksUp keeperLooksUp
  have present := contains_of_node? found
  have closedTo := List.findIdx?_eq_none_iff.mp noGroup group member
  simp only [isOpenTo, keeperFound, Option.any_some, same, Bool.and_true, isApart,
    Bool.and_eq_false_iff, decide_eq_false_iff_not, Nat.not_lt, Bool.not_eq_eq_eq_not,
    Bool.not_false, List.contains_iff_mem] at closedTo
  rcases closedTo with full | above | below
  · exact Or.inl full
  · exact Or.inr (Or.inl (mem_ancestors.mp above).2)
  · exact Or.inr (Or.inr (mem_descendants.mp below).2)

/-- A sampler that fits no group opens one of its own. -/
theorem SharesOut.opens
    (shares : SharesOut graph seen groups current)
    (single : laneCount candidate = 1)
    (next : seen ++ [candidate] <+: graph.samplers)
    (found : current.node? candidate.id = some candidate)
    (noGroup : current.groupFor? groups candidate = none) :
    SharesOut graph (seen ++ [candidate]) (groups ++ [⟨candidate.id, 0⟩]) current := by
  have earlier : ∀ group ∈ groups, group.keeper < candidate.id := by
    intro group member
    rcases List.mem_map.mp (shares.keepers group member) with ⟨sampler, samplerSeen, same⟩
    exact same ▸ lt_of_next next samplerSeen
  constructor
  case room =>
    intro group member
    rcases List.mem_append.mp member with old | new
    · exact shares.room group old
    · cases List.mem_singleton.mp new
      exact Nat.zero_le _
  case keepers =>
    intro group member
    rw [List.map_append, List.mem_append]
    rcases List.mem_append.mp member with old | new
    · exact Or.inl (shares.keepers group old)
    · cases List.mem_singleton.mp new
      exact Or.inr (List.mem_singleton_self _)
  case lanes =>
    intro group member node nodeFound
    rcases List.mem_append.mp member with old | new
    · exact shares.lanes group old node nodeFound
    · cases List.mem_singleton.mp new
      cases found.symm.trans nodeFound
      exact single
  case remaining =>
    intro node member shareable
    rcases shares.remaining node member shareable with kept | ⟨isSampler, unseen⟩
    · exact Or.inl (by simpa using Or.inl (List.mem_map.mp kept))
    · by_cases same : node.id = candidate.id
      · exact Or.inl (by simp [same])
      · exact Or.inr ⟨isSampler, by simpa [same] using unseen⟩
  case parted =>
    intro first firstMember second secondMember before
    rcases List.mem_append.mp secondMember with secondOld | secondNew
    · rcases List.mem_append.mp firstMember with firstOld | firstNew
      · exact shares.parted first firstOld second secondOld before
      · cases List.mem_singleton.mp firstNew
        exact absurd before (Nat.lt_asymm (earlier second secondOld))
    · cases List.mem_singleton.mp secondNew
      rcases List.mem_append.mp firstMember with firstOld | firstNew
      · exact parted_of_groupFor? single found noGroup firstOld
      · cases List.mem_singleton.mp firstNew
        exact absurd before (Nat.lt_irrefl _)

/-- The groups after a sampler has joined one are the groups before, perhaps fuller. -/
theorem exists_of_mem_joined
    {place : Nat} {group other : SamplerGroup} (atPlace : groups[place]? = some group)
    (member : other ∈ joined groups place) :
    ∃ old ∈ groups, old.keeper = other.keeper ∧ old.absorbed ≤ other.absorbed := by
  rcases (mem_joined atPlace).mp member with rfl | ⟨index, -, found⟩
  · exact ⟨group, List.mem_of_getElem? atPlace, rfl, Nat.le_succ _⟩
  · exact ⟨other, List.mem_of_getElem? found, rfl, le_rfl⟩

/-- A sampler that fits a group joins it, and groups that had to be apart stay apart. -/
theorem SharesOut.absorb
    (shares : SharesOut graph seen groups current)
    (next : seen ++ [candidate] <+: graph.samplers)
    (distinct : (groups.map (·.keeper)).Nodup) {place : Nat} {group : SamplerGroup}
    (atPlace : groups[place]? = some group) (room : group.absorbed < SamplerGroup.capacity)
    (keeperId : keeper.id = group.keeper) (joins : current.Joins keeper candidate) :
    SharesOut graph (seen ++ [candidate]) (joined groups place)
      (current.absorb keeper candidate) := by
  have isGroup := List.mem_of_getElem? atPlace
  have away : ∀ other ∈ groups, other.keeper ≠ candidate.id := by
    intro other member same
    rcases List.mem_map.mp (shares.keepers other member) with ⟨sampler, samplerSeen, samplerId⟩
    exact absurd (lt_of_next next samplerSeen) (by rw [samplerId, same]; exact Nat.lt_irrefl _)
  constructor
  case room =>
    intro other member
    rcases (mem_joined atPlace).mp member with rfl | ⟨index, -, found⟩
    · exact room
    · exact shares.room other (List.mem_of_getElem? found)
  case keepers =>
    intro other member
    rcases exists_of_mem_joined atPlace member with ⟨old, oldMember, sameKeeper, -⟩
    rw [List.map_append, List.mem_append, ← sameKeeper]
    exact Or.inl (shares.keepers old oldMember)
  case lanes =>
    intro other member node nodeFound
    rcases (mem_joined atPlace).mp member with rfl | ⟨index, elsewhere, found⟩
    · have widened : node = widen candidate keeper := by
        have keeperFound := node?_absorb_keeper joins
        rw [keeperId] at keeperFound
        exact Option.some.inj (nodeFound.symm.trans keeperFound)
      have before := shares.lanes group isGroup keeper (keeperId ▸ joins.keeperFound)
      rw [widened, joins.laneCount_widen, before]
    · have otherMember := List.mem_of_getElem? found
      have notKeeper : other.keeper ≠ keeper.id := by
        rw [keeperId]
        exact keeper_ne distinct elsewhere found atPlace
      rw [node?_absorb, node?_takeSockets_of_ne (away other otherMember) notKeeper] at nodeFound
      exact shares.lanes other otherMember node nodeFound
  case remaining =>
    intro node member shareable
    rw [keepers_joined]
    have found := node?_of_mem member
    have notCandidate := (contains_absorb.mp (contains_of_node? found)).1
    by_cases atKeeper : node.id = keeper.id
    · rw [atKeeper, keeperId]
      exact Or.inl (List.mem_map_of_mem isGroup)
    · rw [node?_absorb, node?_takeSockets_of_ne notCandidate atKeeper] at found
      rcases shares.remaining node (mem_nodes_of_node? found) shareable with
        kept | ⟨isSampler, unseen⟩
      · exact Or.inl kept
      · exact Or.inr ⟨isSampler, by simpa [notCandidate] using unseen⟩
  case parted =>
    intro first firstMember second secondMember before what firstLooksUp secondLooksUp
    rcases exists_of_mem_joined atPlace firstMember with
      ⟨oldFirst, oldFirstMember, sameFirst, fuller⟩
    rcases exists_of_mem_joined atPlace secondMember with
      ⟨oldSecond, oldSecondMember, sameSecond, -⟩
    rw [← sameFirst, ← sameSecond] at before ⊢
    rw [← sameFirst, lookupAt?_absorb joins (away oldFirst oldFirstMember)] at firstLooksUp
    rw [← sameSecond, lookupAt?_absorb joins (away oldSecond oldSecondMember)] at secondLooksUp
    have parted := shares.parted oldFirst oldFirstMember oldSecond oldSecondMember before what
      firstLooksUp secondLooksUp
    refine parted.imp (fun full => full.trans fuller) fun connected => ?_
    exact connected.absorb joins (away oldFirst oldFirstMember) (away oldSecond oldSecondMember)

/-! ## The whole pass -/

/--
Of two samplers of one kind that may share nodes and are bound to one texture, the first has
three lanes, or a path connects the two.
-/
def SharedOut (graph : Graph) : Prop :=
  ∀ first ∈ graph.nodes, ∀ second ∈ graph.nodes, first.id < second.id →
    ∀ use firstLanes secondLanes key,
      first.kind = .texture use firstLanes → second.kind = .texture use secondLanes →
      use.isShareable = true → first.key? = some key → second.key? = some key →
      firstLanes = 3 ∨ graph.Reaches first.id second.id ∨ graph.Reaches second.id first.id

/-- In the end every shareable sampler keeps a group. -/
theorem SharesOut.exists_group
    (shares : SharesOut graph graph.samplers groups current) {node : Node} {use : Sampler}
    {lanes : Nat} (member : node ∈ current.nodes) (kind : node.kind = .texture use lanes)
    (shareable : use.isShareable = true) :
    ∃ group ∈ groups, group.keeper = node.id ∧ lanes = group.absorbed + 1 := by
  have isSampler : isShareableTexture node = true := by simp [isShareableTexture, kind, shareable]
  rcases shares.remaining node member isSampler with kept | ⟨isSampler, unseen⟩
  · rcases List.mem_map.mp kept with ⟨group, groupMember, keeperId⟩
    have found : current.node? group.keeper = some node := keeperId ▸ node?_of_mem member
    have counted := shares.lanes group groupMember node found
    refine ⟨group, groupMember, keeperId, ?_⟩
    simpa only [laneCount, kind] using counted
  · exact absurd isSampler unseen

/-- After samplers of one lane have been shared, no two are left that could be shared. -/
theorem mergeTextures_sharedOut (single : ∀ sampler ∈ graph.samplers, laneCount sampler = 1) :
    graph.mergeTextures.1.SharedOut := by
  have run : ∃ groups, SharesOut graph graph.samplers groups graph.mergeTextures.1 := by
    apply mergeTextures_run fun seen groups current _ => SharesOut graph seen groups current
    · exact sharesOut_start graph
    · intro seen groups current count candidate next found noGroup shares
      exact shares.opens (single candidate (mem_of_next next)) next found noGroup
    · intro seen groups current count place group keeper candidate next distinct atPlace room
        keeperId joins shares
      exact shares.absorb next distinct atPlace room keeperId joins
  rcases run with ⟨groups, shares⟩
  intro first firstMember second secondMember before use firstLanes secondLanes key firstKind
    secondKind shareable firstKey secondKey
  rcases shares.exists_group firstMember firstKind shareable with
    ⟨firstGroup, firstIn, firstKeeper, firstCount⟩
  rcases shares.exists_group secondMember secondKind shareable with
    ⟨secondGroup, secondIn, secondKeeper, -⟩
  have firstLooksUp : graph.mergeTextures.1.lookupAt? firstGroup.keeper = some (use, key) := by
    rw [lookupAt?, firstKeeper, node?_of_mem firstMember]
    exact Node.lookup?_of_kind firstKind shareable firstKey
  have secondLooksUp : graph.mergeTextures.1.lookupAt? secondGroup.keeper = some (use, key) := by
    rw [lookupAt?, secondKeeper, node?_of_mem secondMember]
    exact Node.lookup?_of_kind secondKind shareable secondKey
  have inOrder : firstGroup.keeper < secondGroup.keeper := by
    rwa [firstKeeper, secondKeeper]
  have full := shares.room firstGroup firstIn
  rcases shares.parted firstGroup firstIn secondGroup secondIn inOrder (use, key) firstLooksUp
    secondLooksUp with isFull | connected
  · left
    simp only [SamplerGroup.capacity] at full isFull
    omega
  · right
    rwa [Connected, firstKeeper, secondKeeper] at connected

/-- Four samplers of one texture, and a fifth that looks where the fourth says. -/
def brickCourse : Graph :=
  let samplers : Graph := ((((Graph.empty.withNode (brick "A")).withNode (brick "B")).withNode
    (brick "C")).withNode (brick "D")).withNode (brick "E")
  (samplers.withNode { kind := .output, name := "Output" }).addEdges
    [⟨0, 5, 0, 0⟩, ⟨1, 5, 0, 0⟩, ⟨2, 5, 0, 0⟩, ⟨3, 4, 0, 0⟩, ⟨4, 5, 0, 0⟩]

/-- The first three share a node that is full; a path connects the other two. -/
theorem mergeTextures_sharedOut_brickCourse :
    (∀ sampler ∈ brickCourse.samplers, laneCount sampler = 1) ∧
      brickCourse.mergeTextures.1.nodes.map (fun node => (node.id, laneCount node)) =
        [(0, 3), (3, 1), (4, 1), (5, 0)] ∧
      brickCourse.mergeTextures.1.SharedOut := by
  have single : ∀ sampler ∈ brickCourse.samplers, laneCount sampler = 1 := by decide +kernel
  refine ⟨single, ?_, mergeTextures_sharedOut single⟩
  decide +kernel

end Graph

end NodeMaterial
