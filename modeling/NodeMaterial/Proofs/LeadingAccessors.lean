import NodeMaterial.Proofs.SharedGeometry

/-!
# Sharing accessors keeps the first of each class

Accessors that read the same geometry form a class, and the one with the least number
leads it.  Sharing the accessors of a graph keeps the leaders and nothing else of each
class.  Every edge starts at the leader of the accessor where it started, as often as
before, so no edge is lost and none is added.

Accessors are looked at in the order of their numbers.  The leader of an accessor is the
first of its class among those seen, and it is also the first among those that are kept.
-/

namespace NodeMaterial

/-- The edge between the places of its nodes. -/
def Edge.reattach (place : NodeId → NodeId) (edge : Edge) : Edge :=
  { edge with source := place edge.source, target := place edge.target }

theorem Facet.isLayered_iff {facet : Facet} :
    facet.isLayered = true ↔ facet = .uv ∨ facet = .vertexColor := by
  cases facet <;> simp [isLayered]

namespace Graph

variable {graph current : Graph} {seen keepers : List Node} {node keeper : Node} {count : Nat}

/-! ## Classes of accessors -/

/-- Two accessors read the same facet and, if this has layers, the same layer. -/
def ReadAlike (first second : Node) : Prop :=
  ∃ facet, first.kind = .geometry facet ∧ second.kind = .geometry facet ∧
    (facet = .uv ∨ facet = .vertexColor → first.key? = second.key?)

/-- The test of the pass is whether two nodes read alike. -/
theorem sameGeometry_iff_readAlike {first second : Node} :
    sameGeometry first second = true ↔ ReadAlike first second := by
  constructor
  · intro same
    simp only [sameGeometry] at same
    split at same
    · rename_i facet other firstKind secondKind
      simp only [Bool.and_eq_true, beq_iff_eq, Bool.or_eq_true, Bool.not_eq_true'] at same
      rcases same with ⟨rfl, layer⟩
      refine ⟨facet, firstKind, secondKind, fun layered => ?_⟩
      rcases layer with unlayered | sameKey
      · exact absurd (Facet.isLayered_iff.mpr layered) (by simp [unlayered])
      · exact sameKey
    · cases same
  · rintro ⟨facet, firstKind, secondKind, layer⟩
    cases layered : facet.isLayered with
    | true => simp [sameGeometry, firstKind, secondKind, layer (Facet.isLayered_iff.mp layered)]
    | false => simp [sameGeometry, firstKind, secondKind, layered]

theorem isGeometry_iff : isGeometry node = true ↔ ∃ facet, node.kind = .geometry facet := by
  cases kind : node.kind <;> simp [isGeometry, kind]

theorem ReadAlike.of_isGeometry (geometry : isGeometry node = true) : ReadAlike node node := by
  rcases isGeometry_iff.mp geometry with ⟨facet, kind⟩
  exact ⟨facet, kind, kind, fun _ => rfl⟩

theorem ReadAlike.symm {first second : Node} (alike : ReadAlike first second) :
    ReadAlike second first := by
  rcases alike with ⟨facet, firstKind, secondKind, layer⟩
  exact ⟨facet, secondKind, firstKind, fun layered => (layer layered).symm⟩

/-- Reading alike is transitive. -/
theorem ReadAlike.trans {first second third : Node} (left : ReadAlike first second)
    (right : ReadAlike second third) : ReadAlike first third := by
  rcases left with ⟨facet, firstKind, secondKind, layer⟩
  rcases right with ⟨other, sameKind, thirdKind, otherLayer⟩
  cases secondKind.symm.trans sameKind
  exact ⟨facet, firstKind, thirdKind, fun layered => (layer layered).trans (otherLayer layered)⟩

/-! ## Leaders -/

/-- The number of the first of some nodes that reads what the node with a number reads. -/
def leaderIn (nodes : List Node) (id : NodeId) : NodeId :=
  (((nodes.find? (·.id == id)).bind fun node => nodes.find? (sameGeometry node)).map (·.id)).getD id

/-- The number of the first accessor of a graph that reads what the one with a number reads. -/
def leader (graph : Graph) : NodeId → NodeId :=
  leaderIn graph.accessors

theorem find?_id_eq_none {nodes : List Node} {id : NodeId} (absent : id ∉ nodes.map (·.id)) :
    nodes.find? (·.id == id) = none := by
  refine List.find?_eq_none.mpr fun node member same => absent ?_
  exact beq_iff_eq.mp same ▸ List.mem_map_of_mem member

theorem leaderIn_of_not_mem {nodes : List Node} {id : NodeId} (absent : id ∉ nodes.map (·.id)) :
    leaderIn nodes id = id := by
  simp [leaderIn, find?_id_eq_none absent]

/-- A leader is the node itself or one of the nodes. -/
theorem leaderIn_eq_iff {nodes : List Node} {id other : NodeId} (absent : id ∉ nodes.map (·.id)) :
    leaderIn nodes other = id ↔ other = id := by
  constructor
  · intro leads
    simp only [leaderIn] at leads
    cases found :
        (nodes.find? (·.id == other)).bind fun node => nodes.find? (sameGeometry node) with
    | none => simpa [found] using leads
    | some first =>
        rcases Option.bind_eq_some_iff.mp found with ⟨node, -, isFirst⟩
        have isLeader : first.id = id := by simpa [found] using leads
        exact absurd (isLeader ▸ List.mem_map_of_mem (List.mem_of_find?_eq_some isFirst)) absent
  · rintro rfl
    exact leaderIn_of_not_mem absent

/-- The leaders of the nodes before stay, and a node after all others gets its own. -/
theorem leaderIn_append (geometry : ∀ earlier ∈ seen, isGeometry earlier = true)
    (fresh : node.id ∉ seen.map (·.id)) :
    leaderIn (seen ++ [node]) =
      Function.update (leaderIn seen) node.id
        (((seen.find? (sameGeometry node)).map (·.id)).getD node.id) := by
  funext id
  by_cases same : id = node.id
  · subst same
    rw [Function.update_self, leaderIn, List.find?_append, find?_id_eq_none fresh]
    cases first : seen.find? (sameGeometry node) with
    | some leader => simp [first]
    | none => cases own : sameGeometry node node <;> simp [first, own]
  · rw [Function.update_of_ne same, leaderIn, leaderIn, List.find?_append]
    have notNode : (node.id == id) = false := by simpa using Ne.symm same
    cases found : seen.find? (·.id == id) with
    | none => simp [notNode]
    | some earlier =>
        -- The first of its class is among the nodes before, since it is one of them itself.
        have member := List.mem_of_find?_eq_some found
        have alike : sameGeometry earlier earlier = true :=
          sameGeometry_iff_readAlike.mpr (.of_isGeometry (geometry earlier member))
        have among : (seen.find? (sameGeometry earlier)).isSome = true :=
          List.find?_isSome.mpr ⟨earlier, member, alike⟩
        rcases Option.isSome_iff_exists.mp among with ⟨first, isFirst⟩
        simp [isFirst]

theorem leaderIn_append_of_unrepeated (geometry : ∀ earlier ∈ seen, isGeometry earlier = true)
    (fresh : node.id ∉ seen.map (·.id)) (unrepeated : seen.find? (sameGeometry node) = none) :
    leaderIn (seen ++ [node]) = leaderIn seen := by
  rw [leaderIn_append geometry fresh, unrepeated]
  exact Function.update_eq_iff.mpr ⟨(leaderIn_of_not_mem fresh).symm, fun _ _ => rfl⟩

theorem leaderIn_append_of_repeated (geometry : ∀ earlier ∈ seen, isGeometry earlier = true)
    (fresh : node.id ∉ seen.map (·.id)) (repeated : seen.find? (sameGeometry node) = some keeper) :
    leaderIn (seen ++ [node]) = Function.update (leaderIn seen) node.id keeper.id := by
  rw [leaderIn_append geometry fresh, repeated]
  rfl

/-- The leader of an accessor is in its class and has the least number there. -/
theorem exists_leader (member : node ∈ graph.nodes) (geometry : isGeometry node = true) :
    ∃ first ∈ graph.nodes, first.id = graph.leader node.id ∧ ReadAlike first node ∧
      ∀ other ∈ graph.nodes, ReadAlike other node → first.id ≤ other.id := by
  have accessor : node ∈ graph.accessors := List.mem_filter.mpr ⟨member, geometry⟩
  have ascending : graph.accessors.Pairwise fun first second => first.id < second.id :=
    graph.ascending.filter _
  have own : graph.accessors.find? (·.id == node.id) = some node := by
    have found : (graph.accessors.find? (·.id == node.id)).isSome = true :=
      List.find?_isSome.mpr ⟨node, accessor, by simp⟩
    rcases Option.isSome_iff_exists.mp found with ⟨other, otherFound⟩
    have otherMember := (List.mem_filter.mp (List.mem_of_find?_eq_some otherFound)).1
    have sameId : other.id = node.id := by simpa using List.find?_some otherFound
    rw [otherFound, eq_of_id_eq otherMember member sameId]
  have among : (graph.accessors.find? (sameGeometry node)).isSome = true :=
    List.find?_isSome.mpr
      ⟨node, accessor, sameGeometry_iff_readAlike.mpr (.of_isGeometry geometry)⟩
  rcases Option.isSome_iff_exists.mp among with ⟨first, isFirst⟩
  rcases List.find?_eq_some_iff_append.mp isFirst with ⟨same, before, after, split, unlike⟩
  refine ⟨first, (List.mem_filter.mp (List.mem_of_find?_eq_some isFirst)).1, ?_, ?_, ?_⟩
  · simp [leader, leaderIn, own, isFirst]
  · exact (sameGeometry_iff_readAlike.mp same).symm
  · intro other otherMember alike
    rcases alike with ⟨facet, otherKind, nodeKind, layer⟩
    have otherAccessor : other ∈ before ++ first :: after := by
      rw [← split]
      exact List.mem_filter.mpr ⟨otherMember, isGeometry_iff.mpr ⟨facet, otherKind⟩⟩
    have otherSame : sameGeometry node other = true :=
      sameGeometry_iff_readAlike.mpr (ReadAlike.symm ⟨facet, otherKind, nodeKind, layer⟩)
    rw [split] at ascending
    rcases List.mem_append.mp otherAccessor with early | late
    · exact absurd otherSame (by simpa using unlike other early)
    · rcases List.mem_cons.mp late with rfl | later
      · exact le_rfl
      · have behind := (List.pairwise_append.mp ascending).2.1
        exact ((List.pairwise_cons.mp behind).1 other later).le

/-- Nodes that are no accessors lead themselves. -/
theorem leader_of_not_geometry {id : NodeId}
    (other : ∀ node, graph.node? id = some node → isGeometry node = false) :
    graph.leader id = id := by
  apply leaderIn_of_not_mem
  intro member
  rcases List.mem_map.mp member with ⟨node, accessor, rfl⟩
  rcases List.mem_filter.mp accessor with ⟨nodeMember, geometry⟩
  rw [other node (node?_of_mem nodeMember)] at geometry
  cases geometry

/-! ## Replacing one accessor -/

theorem nodes_replaceBy (graph : Graph) (id keeper : NodeId) :
    (graph.replaceBy id keeper).nodes = graph.nodes.filter (·.id != id) := by
  rw [replaceBy, nodes_withoutNode, nodes_addEdges]

/-- The output is lost if it is replaced. -/
theorem output_replaceBy_eq_some_iff {id keeper other : NodeId}
    (present : graph.contains id = true) :
    (graph.replaceBy id keeper).output = some other ↔ graph.output = some other ∧ other ≠ id := by
  rw [replaceBy, output_withoutNode, contains_addEdges, output_addEdges]
  split
  · rename_i removed
    rw [removed.2]
    grind
  · grind

/-- The edges of an accessor into which none leads start at the one that replaces it. -/
theorem edges_replaceBy {id keeper : NodeId} (present : graph.contains id = true)
    (different : keeper ≠ id) (unfed : ∀ edge ∈ graph.edges, edge.target ≠ id) :
    (graph.replaceBy id keeper).edges.Perm
      (graph.edges.map (Edge.reattach (identify keeper id))) := by
  have stillPresent :
      (graph.addEdges ((graph.outEdges id).map (startAt keeper))).contains id = true := by
    rw [contains_addEdges]
    exact present
  have leaving : ((graph.outEdges id).map (startAt keeper)).filter (!·.touches id) =
      (graph.edges.filter (·.source == id)).map (Edge.reattach (identify keeper id)) := by
    rw [outEdges_eq_filter, List.filter_map, List.filter_eq_self.mpr]
    · refine List.map_congr_left fun edge member => ?_
      rcases List.mem_filter.mp member with ⟨old, source⟩
      rw [Edge.reattach, beq_iff_eq.mp source, identify_self, identify_of_ne (unfed edge old)]
      rfl
    · intro edge member
      have away := unfed edge (List.mem_filter.mp member).1
      simp [Edge.touches, startAt, different, away]
  have staying : graph.edges.filter (!·.touches id) =
      (graph.edges.filter (!·.source == id)).map (Edge.reattach (identify keeper id)) := by
    have kept : ∀ edge ∈ graph.edges.filter (!·.source == id),
        Edge.reattach (identify keeper id) edge = edge := by
      intro edge member
      rcases List.mem_filter.mp member with ⟨old, away⟩
      have source : edge.source ≠ id := by simpa using away
      rw [Edge.reattach, identify_of_ne source, identify_of_ne (unfed edge old)]
    rw [List.map_congr_left kept, List.map_id']
    refine List.filter_congr fun edge member => ?_
    simp [Edge.touches, unfed edge member]
  calc
    (graph.replaceBy id keeper).edges.Perm
        ((graph.edges ++ (graph.outEdges id).map (startAt keeper)).filter (!·.touches id)) := by
      rw [replaceBy, edges_withoutNode stillPresent]
      exact (edges_addEdges graph _).filter _
    _ |>.Perm ((graph.edges.filter (!·.source == id) ++ graph.edges.filter (·.source == id)).map
        (Edge.reattach (identify keeper id))) := by
      rw [List.filter_append, leaving, staying, List.map_append]
    _ |>.Perm (graph.edges.map (Edge.reattach (identify keeper id))) :=
      (List.perm_append_comm.trans (List.filter_append_perm _ _)).map _

/-! ## The whole pass -/

/-- The accessors seen so far have been replaced by their leaders; so many of them are gone. -/
structure Leads (graph : Graph) (seen keepers : List Node) (current : Graph) (count : Nat) :
    Prop where
  keepers : ∀ node, keepers.find? (sameGeometry node) = seen.find? (sameGeometry node)
  unfed : current.Unfed
  nodes : current.nodes = graph.nodes.filter fun node => leaderIn seen node.id == node.id
  edges : current.edges.Perm (graph.edges.map (Edge.reattach (leaderIn seen)))
  output : ∀ id, current.output = some id ↔ graph.output = some id ∧ leaderIn seen id = id
  count : seen.countP (fun node => leaderIn seen node.id != node.id) = count

/-- Before the first accessor everything leads itself. -/
theorem leads_start (unfed : graph.Unfed) : Leads graph [] [] graph 0 where
  keepers := fun _ => rfl
  unfed := unfed
  nodes := by simp [leaderIn]
  edges := by
    have same : Edge.reattach (leaderIn []) = id := rfl
    rw [same, List.map_id]
  output := by simp [leaderIn]
  count := rfl

theorem geometry_of_next (next : seen ++ [node] <+: graph.accessors) :
    ∀ earlier ∈ seen, isGeometry earlier = true := by
  intro earlier member
  exact (List.mem_filter.mp (next.subset (List.mem_append_left _ member))).2

theorem fresh_of_next (next : seen ++ [node] <+: graph.accessors) :
    node.id ∉ seen.map (·.id) := by
  have ordered := (graph.ascending.filter isGeometry).sublist next.sublist
  intro member
  rcases List.mem_map.mp member with ⟨earlier, earlierMember, same⟩
  have before := (List.pairwise_append.mp ordered).2.2 earlier earlierMember node
    (List.mem_singleton_self _)
  exact Nat.lt_irrefl _ (same ▸ before)

/-- An accessor that reads something new becomes a keeper. -/
theorem Leads.stays (leads : Leads graph seen keepers current count)
    (next : seen ++ [node] <+: graph.accessors)
    (unrepeated : keepers.find? (sameGeometry node) = none) :
    Leads graph (seen ++ [node]) (keepers ++ [node]) current count := by
  have fresh := fresh_of_next next
  have same := leaderIn_append_of_unrepeated (geometry_of_next next) fresh
    (leads.keepers node ▸ unrepeated)
  constructor
  case keepers =>
    intro other
    rw [List.find?_append, List.find?_append, leads.keepers]
  case unfed => exact leads.unfed
  case nodes => exact same ▸ leads.nodes
  case edges => exact same ▸ leads.edges
  case output => exact same ▸ leads.output
  case count =>
    rw [same, List.countP_append, leads.count]
    simp [leaderIn_of_not_mem fresh]

/-- An accessor that repeats a keeper is replaced by it. -/
theorem Leads.replaced (leads : Leads graph seen keepers current count)
    (next : seen ++ [node] <+: graph.accessors)
    (keeperFound : keepers.find? (sameGeometry node) = some keeper)
    (repeats : current.Repeats node keeper) :
    Leads graph (seen ++ [node]) keepers (current.replaceBy node.id keeper.id) (count + 1) := by
  have fresh := fresh_of_next next
  have geometry := isGeometry_of_sameGeometry repeats.same
  have present := contains_of_node? repeats.found
  have leaders := leaderIn_append_of_repeated (geometry_of_next next) fresh
    (leads.keepers node ▸ keeperFound)
  have leadsItself : ∀ id, leaderIn (seen ++ [node]) id = id ↔
      leaderIn seen id = id ∧ id ≠ node.id := by
    intro id
    by_cases same : id = node.id
    · simp [leaders, same, repeats.different.symm]
    · simp [leaders, same]
  constructor
  case keepers =>
    intro other
    rw [leads.keepers, List.find?_append]
    cases first : seen.find? (sameGeometry other) with
    | some _ => rfl
    | none =>
        -- What matches the accessor also matches the keeper, which has been seen.
        have unlike : sameGeometry other node = false := by
          refine Bool.eq_false_iff.mpr fun same => ?_
          have alike := (sameGeometry_iff_readAlike.mp same).trans
            (sameGeometry_iff_readAlike.mp repeats.same)
          have keeperSeen := List.mem_of_find?_eq_some (leads.keepers node ▸ keeperFound)
          exact List.find?_eq_none.mp first keeper keeperSeen (sameGeometry_iff_readAlike.mpr alike)
        simp [unlike]
  case unfed => exact leads.unfed.replaceBy node.id keeper.id
  case nodes =>
    rw [nodes_replaceBy, leads.nodes, List.filter_filter]
    refine List.filter_congr fun other _ => ?_
    rw [Bool.eq_iff_iff]
    simp [leadsItself, and_comm]
  case edges =>
    have unfed : ∀ edge ∈ current.edges, edge.target ≠ node.id := by
      intro edge member target
      exact leads.unfed.target_not_geometry member (target ▸ repeats.found) geometry.1
    refine (edges_replaceBy present repeats.different.symm unfed).trans ?_
    refine (leads.edges.map _).trans (.of_eq ?_)
    have composed : ∀ id, identify keeper.id node.id (leaderIn seen id) =
        leaderIn (seen ++ [node]) id := by
      intro id
      simp [leaders, identify, Function.update_apply, leaderIn_eq_iff fresh]
    rw [List.map_map]
    refine List.map_congr_left fun edge _ => ?_
    simp only [Function.comp_apply, Edge.reattach, composed]
  case output =>
    intro id
    rw [output_replaceBy_eq_some_iff present, leads.output, leadsItself, and_assoc]
  case count =>
    have kept : seen.countP (fun earlier => leaderIn (seen ++ [node]) earlier.id != earlier.id) =
        count := by
      rw [← leads.count]
      refine List.countP_congr fun earlier member => ?_
      have different : earlier.id ≠ node.id := fun same => fresh (same ▸ List.mem_map_of_mem member)
      rw [leaders, Function.update_of_ne different]
    rw [List.countP_append, kept]
    simp [leaders, repeats.different.symm]

/--
A graph becomes another by replacing every node by a leader: an accessor by the first of its class,
any other node by itself.  So many nodes are gone.
-/
structure Deduplicates (graph result : Graph) (leader : NodeId → NodeId) (count : Nat) :
    Prop where
  least : ∀ node ∈ graph.nodes, isGeometry node = true → ∃ first ∈ graph.nodes,
    first.id = leader node.id ∧ ReadAlike first node ∧
      ∀ other ∈ graph.nodes, ReadAlike other node → first.id ≤ other.id
  others : ∀ id, (∀ node, graph.node? id = some node → isGeometry node = false) → leader id = id
  apart : ∀ first ∈ result.nodes, ∀ second ∈ result.nodes, ReadAlike first second → first = second
  nodes : result.nodes = graph.nodes.filter fun node => leader node.id == node.id
  edges : result.edges.Perm (graph.edges.map (Edge.reattach leader))
  output : ∀ id, result.output = some id ↔ graph.output = some id ∧ leader id = id
  count : result.nodeCount + count = graph.nodeCount

/-- Two accessors that read alike have the same leader. -/
theorem leader_eq_of_readAlike {first second : Node} (firstMember : first ∈ graph.nodes)
    (secondMember : second ∈ graph.nodes) (alike : ReadAlike first second) :
    graph.leader first.id = graph.leader second.id := by
  have geometry := isGeometry_of_sameGeometry (sameGeometry_iff_readAlike.mpr alike)
  rcases exists_leader firstMember geometry.1 with ⟨one, oneMember, oneLeads, oneAlike, oneLeast⟩
  rcases exists_leader secondMember geometry.2 with ⟨two, twoMember, twoLeads, twoAlike, twoLeast⟩
  have forth := oneLeast two twoMember (twoAlike.trans alike.symm)
  have back := twoLeast one oneMember (oneAlike.trans alike)
  rw [← oneLeads, ← twoLeads]
  exact Nat.le_antisymm forth back

/-- Sharing the accessors of a graph replaces each of them by the first of its class. -/
theorem mergeGeometry_deduplicates (unfed : graph.Unfed) :
    Deduplicates graph graph.mergeGeometry.1 graph.leader graph.mergeGeometry.2 := by
  have run : ∃ keepers, Leads graph graph.accessors keepers graph.mergeGeometry.1
      graph.mergeGeometry.2 := by
    apply mergeGeometry_run (Leads graph)
    · exact leads_start unfed
    · intro seen keepers current count node next unrepeated leads
      exact leads.stays next unrepeated
    · intro seen keepers current count node keeper next keeperFound repeats leads
      exact leads.replaced next keeperFound repeats
  rcases run with ⟨keepers, leads⟩
  have survives : ∀ node ∈ graph.mergeGeometry.1.nodes,
      node ∈ graph.nodes ∧ graph.leader node.id = node.id := by
    intro node member
    rw [leads.nodes] at member
    exact ⟨(List.mem_filter.mp member).1, beq_iff_eq.mp (List.mem_filter.mp member).2⟩
  constructor
  case least => exact fun node => exists_leader
  case others => exact fun id => leader_of_not_geometry
  case apart =>
    intro first firstMember second secondMember alike
    rcases survives first firstMember with ⟨firstOld, firstLeads⟩
    rcases survives second secondMember with ⟨secondOld, secondLeads⟩
    have sameLeader := leader_eq_of_readAlike firstOld secondOld alike
    rw [firstLeads, secondLeads] at sameLeader
    exact eq_of_id_eq firstOld secondOld sameLeader
  case nodes => exact leads.nodes
  case edges => exact leads.edges
  case output => exact leads.output
  case count =>
    have moved : ∀ node ∈ graph.nodes, graph.leader node.id ≠ node.id → isGeometry node = true := by
      intro node member moved
      refine (Bool.not_eq_false _).mp fun notGeometry => moved (leader_of_not_geometry ?_)
      intro other found
      rwa [← Option.some.inj ((node?_of_mem member).symm.trans found)]
    have gone : graph.nodes.countP (fun node => decide ¬(graph.leader node.id == node.id) = true) =
        graph.mergeGeometry.2 := by
      rw [← leads.count, accessors, List.countP_filter]
      refine List.countP_congr fun node member => ?_
      have isAccessor := moved node member
      simp only [leader, accessors] at isAccessor ⊢
      grind
    rw [nodeCount, nodeCount, leads.nodes, ← gone, ← List.countP_eq_length_filter]
    exact (List.length_eq_countP_add_countP _).symm

/-- An accessor for a layer of texture coordinates. -/
def coordinates (bound layer : String) : Node where
  kind := .geometry .uv
  name := "Geometry"
  outputs := [.titled "UV" true .zero]
  data := some (.uvLayer bound layer)

/-- An accessor for normals, which have no layers. -/
def normals (data : Option Binding) : Node where
  kind := .geometry .normal
  name := "Geometry"
  outputs := [.titled "Normal" true .zero]
  data

/-- Accessors for three layers and twice for normals; two of the layers are the same. -/
def readTwice : Graph :=
  let accessors : Graph := ((((Graph.empty.withNode (normals none)).withNode
    (coordinates "a" "Map")).withNode (coordinates "b" "Other")).withNode
    (coordinates "c" "Map")).withNode (normals (some (.uvLayer "d" "Map")))
  (accessors.withNode { kind := .output, name := "Output" }).addEdges
    [⟨0, 5, 0, 1⟩, ⟨1, 5, 0, 0⟩, ⟨2, 5, 0, 0⟩, ⟨3, 5, 0, 0⟩, ⟨3, 5, 0, 0⟩, ⟨4, 5, 0, 1⟩]

/-- Two accessors of one layer read alike, and so do those of normals, which have no layers. -/
theorem mergeGeometry_deduplicates_readTwice :
    readTwice.Unfed ∧
      readTwice.mergeGeometry.1.nodeIds = [0, 1, 2, 5] ∧
      readTwice.mergeGeometry.1.edges =
        [⟨0, 5, 0, 1⟩, ⟨0, 5, 0, 1⟩, ⟨1, 5, 0, 0⟩, ⟨1, 5, 0, 0⟩, ⟨1, 5, 0, 0⟩, ⟨2, 5, 0, 0⟩] ∧
      readTwice.mergeGeometry.2 = 2 ∧
      Deduplicates readTwice readTwice.mergeGeometry.1 readTwice.leader
        readTwice.mergeGeometry.2 := by
  have unfed : readTwice.Unfed := by decide +kernel
  refine ⟨unfed, ?_, ?_, ?_, mergeGeometry_deduplicates unfed⟩
  · decide +kernel
  · decide +kernel
  · decide +kernel

end Graph

end NodeMaterial
