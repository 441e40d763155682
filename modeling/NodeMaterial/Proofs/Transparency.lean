import NodeMaterial.Proofs.Threading

/-!
# Reroutes are transparent

A link can be drawn through a new reroute.  The graph that is built then has one more
node, and the edges of the link run through it.  Compiling gives what it gives for the
tree as it was, except in two cases.

The edges of a link from the strength output of a translucency group get companions.  If
the link runs through a reroute, the companion ends at the reroute and is lost, so the
group's parameters do not arrive.

A reroute hands on the first edge into it, in the order of the nodes.  If the link leads
to a reroute that something else feeds as well, another edge may come first.
-/

namespace NodeMaterial

/-! ## A link that is drawn through a reroute -/

namespace Authored

/-- A link of a tree and a new reroute to draw it through. -/
structure Detour (tree : Tree) where
  before : List Link
  link : Link
  after : List Link
  reroute : Node
  input : Socket
  output : Socket
  links : tree.links = before ++ link :: after
  type : reroute.type = "REROUTE"
  inputs : reroute.inputs = [input]
  outputs : reroute.outputs = [output]
  fresh : ∀ node ∈ tree.nodes, node.name ≠ reroute.name

namespace Detour

open Assembly NodeMaterial.Graph

variable {tree : Tree}

/-- The link into the reroute. -/
def into (detour : Detour tree) : Link :=
  { detour.link with toNode := detour.reroute.name, toSocket := detour.input.identifier }

/-- The link out of the reroute. -/
def onward (detour : Detour tree) : Link :=
  { detour.link with fromNode := detour.reroute.name, fromSocket := detour.output.identifier }

/-- The tree with the link drawn through the reroute. -/
def result (detour : Detour tree) : Tree where
  nodes := tree.nodes ++ [detour.reroute]
  links := detour.before ++ detour.into :: detour.onward :: detour.after

/-- The node that the reroute becomes, up to its number. -/
def node (detour : Detour tree) : NodeMaterial.Node :=
  (keepSockets detour.reroute .reroute).realize []

theorem addNodes_reroute (detour : Detour tree) (graph : Graph) (supply : NameSupply) :
    addNodes [detour.reroute] graph supply = (.ok (graph.withNode detour.node), supply) := by
  have planned : plan detour.reroute = .ok [keepSockets detour.reroute .reroute] := by
    simp [plan, planSingle, detour.type]
  rw [addNodes, planned]
  rfl

/-- The nodes of the tree with the detour. -/
def scaffold (detour : Detour tree) (nodes : Graph) : Graph :=
  nodes.withNode detour.node

theorem nodes_scaffold (detour : Detour tree) (nodes : Graph) :
    (detour.scaffold nodes).nodes = nodes.nodes ++ [{ detour.node with id := nodes.nextId }] :=
  rfl

/-- The tree with the detour builds the same nodes and the reroute. -/
theorem addNodes_result (detour : Detour tree) {nodes : Graph} {supply : NameSupply}
    (added : (addNodes tree.nodes .empty supply).1 = .ok nodes) :
    (addNodes detour.result.nodes .empty supply).1 = .ok (detour.scaffold nodes) := by
  rw [result, addNodes_append]
  cases outcome : addNodes tree.nodes .empty supply with
  | mk result drawn =>
      rw [outcome] at added
      cases added
      exact congrArg Prod.fst (detour.addNodes_reroute nodes drawn)

section Names

variable {nodes : Graph} (distinguished : Distinguished (tree.nodes.map (·.name)) nodes)

include distinguished

theorem name_ne (detour : Detour tree) {node : NodeMaterial.Node} (member : node ∈ nodes.nodes) :
    node.name ≠ detour.reroute.name := by
  rcases List.mem_map.mp (distinguished.named node member) with ⟨authored, authoredMember, name⟩
  exact name ▸ detour.fresh authored authoredMember

/-- The name of the reroute is new, so it finds the reroute alone. -/
theorem nodesNamed_reroute (detour : Detour tree) :
    nodesNamed (detour.scaffold nodes) detour.reroute.name =
      [{ detour.node with id := nodes.nextId }] := by
  have none : nodes.nodes.filter (·.name == detour.reroute.name) = [] := by
    rw [List.filter_eq_nil_iff]
    intro node member same
    exact detour.name_ne distinguished member (beq_iff_eq.mp same)
  rw [nodesNamed, nodes_scaffold, List.filter_append, none]
  simp [node, Plan.realize, keepSockets]

omit distinguished in
theorem nodesNamed_of_ne (detour : Detour tree) {name : String}
    (other : name ≠ detour.reroute.name) :
    nodesNamed (detour.scaffold nodes) name = nodesNamed nodes name := by
  rw [nodesNamed, nodes_scaffold, List.filter_append]
  have none : [{ detour.node with id := nodes.nextId }].filter (·.name == name) = [] := by
    simp [node, Plan.realize, keepSockets, other.symm]
  rw [none, List.append_nil]
  rfl

theorem name_ne_of_nodesNamed (detour : Detour tree) {name : String}
    (known : nodesNamed nodes name ≠ []) : name ≠ detour.reroute.name := by
  rcases List.exists_mem_of_ne_nil _ known with ⟨node, member⟩
  rcases List.mem_filter.mp member with ⟨nodeMember, named⟩
  exact beq_iff_eq.mp named ▸ detour.name_ne distinguished nodeMember

theorem linkEdges_of_known (detour : Detour tree) {link : Link} (known : Known nodes link) :
    linkEdges (detour.scaffold nodes) link = linkEdges nodes link := by
  rw [linkEdges, detour.nodesNamed_of_ne (detour.name_ne_of_nodesNamed distinguished known.1),
    detour.nodesNamed_of_ne (detour.name_ne_of_nodesNamed distinguished known.2)]
  rfl

theorem known_of_known (detour : Detour tree) {link : Link} (known : Known nodes link) :
    Known (detour.scaffold nodes) link := by
  rw [Known, detour.nodesNamed_of_ne (detour.name_ne_of_nodesNamed distinguished known.1),
    detour.nodesNamed_of_ne (detour.name_ne_of_nodesNamed distinguished known.2)]
  exact known

theorem endsOf_into (detour : Detour tree) :
    endsOf (detour.scaffold nodes) detour.into = [(nodes.nextId, 0)] := by
  have found : detour.node.inputIndex? detour.input.identifier = some 0 := by
    simp [node, Plan.realize, keepSockets, allInputs, detour.inputs, Node.inputIndex?, inputSocket,
      Socket.truncated]
  have named := detour.nodesNamed_reroute distinguished
  rw [endsOf, into, named, List.filterMap_cons_some (b := (nodes.nextId, 0)), List.filterMap_nil]
  exact congrArg (Option.map fun socket => (nodes.nextId, socket)) found

theorem startsOf_onward (detour : Detour tree) :
    startsOf (detour.scaffold nodes) detour.onward = [(nodes.nextId, 0)] := by
  have found : detour.node.outputIndex? detour.output.identifier = some 0 := by
    simp [node, Plan.realize, keepSockets, detour.outputs, Node.outputIndex?]
  have named := detour.nodesNamed_reroute distinguished
  rw [startsOf, onward, named, List.filterMap_cons_some (b := (nodes.nextId, 0)),
    List.filterMap_nil]
  exact congrArg (Option.map fun socket => (nodes.nextId, socket)) found

/-- The link into the reroute becomes edges from where the link starts to the reroute. -/
theorem linkEdges_into (detour : Detour tree) (known : Known nodes detour.link) :
    linkEdges (detour.scaffold nodes) detour.into =
      (startsOf nodes detour.link).map fun place => connect place (nodes.nextId, 0) := by
  have sameStarts : startsOf (detour.scaffold nodes) detour.into = startsOf nodes detour.link := by
    have other := detour.name_ne_of_nodesNamed distinguished known.1
    rw [startsOf, into, detour.nodesNamed_of_ne other]
    rfl
  rw [linkEdges_eq, sameStarts, detour.endsOf_into distinguished]
  exact List.map_eq_flatMap.symm

/-- The link out of the reroute becomes edges from the reroute to where the link ends. -/
theorem linkEdges_onward (detour : Detour tree) (known : Known nodes detour.link) :
    linkEdges (detour.scaffold nodes) detour.onward =
      (endsOf nodes detour.link).map (connect (nodes.nextId, 0)) := by
  have sameEnds : endsOf (detour.scaffold nodes) detour.onward = endsOf nodes detour.link := by
    have other := detour.name_ne_of_nodesNamed distinguished known.2
    rw [endsOf, onward, detour.nodesNamed_of_ne other]
    rfl
  rw [linkEdges_eq, sameEnds, detour.startsOf_onward distinguished]
  simp

theorem known_result (detour : Detour tree) (known : ∀ link ∈ tree.links, Known nodes link) :
    ∀ link ∈ detour.result.links, Known (detour.scaffold nodes) link := by
  rw [detour.links, List.forall_mem_append, List.forall_mem_cons] at known
  rcases known with ⟨before, here, after⟩
  have carried : nodesNamed (detour.scaffold nodes) detour.reroute.name ≠ [] := by
    rw [detour.nodesNamed_reroute distinguished]
    exact List.cons_ne_nil _ _
  rw [result, List.forall_mem_append, List.forall_mem_cons, List.forall_mem_cons]
  refine ⟨?_, ?_, ?_, ?_⟩
  · exact fun link member => detour.known_of_known distinguished (before link member)
  · exact ⟨(detour.known_of_known distinguished here).1, carried⟩
  · exact ⟨carried, (detour.known_of_known distinguished here).2⟩
  · exact fun link member => detour.known_of_known distinguished (after link member)

/-- The edges of the links that stay as they are. -/
def sideEdges (detour : Detour tree) (nodes : Graph) : List Edge :=
  detour.before.flatMap (linkEdges nodes) ++ detour.after.flatMap (linkEdges nodes)

omit distinguished in
theorem linkEdges_perm (detour : Detour tree) :
    (tree.links.flatMap (linkEdges nodes)).Perm
      (detour.sideEdges nodes ++ linkEdges nodes detour.link) := by
  rw [detour.links, List.flatMap_append, List.flatMap_cons, sideEdges, List.append_assoc]
  exact List.perm_append_comm.append_left _

/-- The detour draws the edges beside it, those into the reroute and those out of it. -/
theorem linkEdges_result_perm (detour : Detour tree)
    (known : ∀ link ∈ tree.links, Known nodes link) :
    (detour.result.links.flatMap (linkEdges (detour.scaffold nodes))).Perm
      (detour.sideEdges nodes ++
        (((startsOf nodes detour.link).map fun place => connect place (nodes.nextId, 0)) ++
          (endsOf nodes detour.link).map (connect (nodes.nextId, 0)))) := by
  rw [detour.links, List.forall_mem_append, List.forall_mem_cons] at known
  rcases known with ⟨before, here, after⟩
  have same : ∀ {links : List Link}, (∀ link ∈ links, Known nodes link) →
      links.flatMap (linkEdges (detour.scaffold nodes)) = links.flatMap (linkEdges nodes) :=
    fun all => List.flatMap_congr fun link member =>
      detour.linkEdges_of_known distinguished (all link member)
  rw [result, List.flatMap_append, List.flatMap_cons, List.flatMap_cons, same before, same after,
    detour.linkEdges_into distinguished here, detour.linkEdges_onward distinguished here,
    sideEdges, List.append_assoc, ← List.append_assoc (List.map _ _)]
  exact List.perm_append_comm.append_left _

omit distinguished in
theorem drives_scaffold_of_ne (detour : Detour tree) {edge : Edge}
    (other : edge.source ≠ nodes.nextId) :
    (detour.scaffold nodes).drives edge = nodes.drives edge := by
  rw [Bool.eq_iff_iff, drives_eq_true_iff, drives_eq_true_iff, nodes_scaffold]
  constructor
  · rintro ⟨node, member, source, drives⟩
    rcases List.mem_append.mp member with old | new
    · exact ⟨node, old, source, drives⟩
    · rw [List.mem_singleton.mp new] at source
      exact absurd source.symm other
  · rintro ⟨node, member, source, drives⟩
    exact ⟨node, List.mem_append_left _ member, source, drives⟩

omit distinguished in
/-- Edges out of a reroute ask for no companions. -/
theorem drives_scaffold_reroute (detour : Detour tree) {edge : Edge}
    (source : edge.source = nodes.nextId) : (detour.scaffold nodes).drives edge = false := by
  rw [← Bool.not_eq_true, drives_eq_true_iff, nodes_scaffold]
  rintro ⟨node, member, id, drives⟩
  rcases List.mem_append.mp member with old | new
  · exact Nat.ne_of_lt (nodes.issued node old) (id.trans source)
  · rw [List.mem_singleton.mp new] at drives
    cases drives

end Names

/-- The graph with all links drawn directly. -/
def directGraph (tree : Tree) (nodes : Graph) : Graph :=
  nodes.addEdges (tree.links.flatMap (linkEdges nodes))

/-- The graph with the link drawn through the reroute. -/
def graph (detour : Detour tree) (nodes : Graph) : Graph :=
  (detour.scaffold nodes).addEdges
    (detour.result.links.flatMap (linkEdges (detour.scaffold nodes)))

/-- The edges from where the link starts to the reroute. -/
def intoEdges (detour : Detour tree) (nodes : Graph) : List Edge :=
  (startsOf nodes detour.link).map fun place => connect place (nodes.nextId, 0)

/-- The edges from the reroute to where the link ends. -/
def onwardEdges (detour : Detour tree) (nodes : Graph) : List Edge :=
  (endsOf nodes detour.link).map (connect (nodes.nextId, 0))

/-- Edges with the companions of those that drive translucency. -/
def completed (nodes : Graph) (edges : List Edge) : List Edge :=
  edges ++ (edges.filter nodes.drives).map companion

/-- What holds of the nodes of a tree that is built. -/
structure Ready (tree : Tree) (nodes : Graph) : Prop where
  distinguished : Distinguished (tree.nodes.map (·.name)) nodes
  bare : nodes.edges = []
  known : ∀ link ∈ tree.links, Known nodes link

section Graphs

variable {nodes : Graph} (ready : Ready tree nodes)

include ready

theorem edges_directGraph (detour : Detour tree) :
    (directGraph tree nodes).edges.Perm
      (detour.sideEdges nodes ++ linkEdges (directGraph tree nodes) detour.link) := by
  refine (edges_addEdges nodes _).trans ?_
  rw [ready.bare, List.nil_append, directGraph, linkEdges_addEdges]
  exact detour.linkEdges_perm

theorem edges_graph (detour : Detour tree) :
    (detour.graph nodes).edges.Perm
      (detour.sideEdges nodes ++ (detour.intoEdges nodes ++ detour.onwardEdges nodes)) := by
  have bare : (detour.scaffold nodes).edges = [] := ready.bare
  refine (edges_addEdges (detour.scaffold nodes) _).trans ?_
  rw [bare, List.nil_append]
  exact detour.linkEdges_result_perm ready.distinguished ready.known

omit ready in
theorem contains_of_mem_sideEdges (detour : Detour tree) {edge : Edge}
    (member : edge ∈ detour.sideEdges nodes) :
    nodes.contains edge.source = true ∧ nodes.contains edge.target = true := by
  rw [sideEdges, List.mem_append, List.mem_flatMap, List.mem_flatMap] at member
  rcases member with ⟨link, -, member⟩ | ⟨link, -, member⟩
  · exact contains_of_mem_linkEdges member
  · exact contains_of_mem_linkEdges member

/-- With a detour, an edge out of the reroute drives nothing, and other edges drive as before. -/
theorem edges_completeEdges_graph (detour : Detour tree) :
    (detour.graph nodes).completeEdges.1.edges.Perm
      (completed nodes (detour.sideEdges nodes) ++
        (completed nodes (detour.intoEdges nodes) ++ detour.onwardEdges nodes)) := by
  have driven : ∀ edge : Edge, nodes.contains edge.source = true →
      (detour.graph nodes).drives edge = nodes.drives edge := by
    intro edge present
    rw [graph, drives_addEdges]
    exact detour.drives_scaffold_of_ne (Nat.ne_of_lt (lt_of_contains present))
  have sideDriven : (detour.sideEdges nodes).filter (detour.graph nodes).drives =
      (detour.sideEdges nodes).filter nodes.drives :=
    List.filter_congr fun edge member => driven edge (detour.contains_of_mem_sideEdges member).1
  have intoDriven : (detour.intoEdges nodes).filter (detour.graph nodes).drives =
      (detour.intoEdges nodes).filter nodes.drives := by
    refine List.filter_congr fun edge member => driven edge ?_
    rcases List.mem_map.mp member with ⟨place, isStart, rfl⟩
    exact contains_of_mem_startsOf isStart
  have onwardIdle : (detour.onwardEdges nodes).filter (detour.graph nodes).drives = [] := by
    rw [List.filter_eq_nil_iff]
    intro edge member
    rcases List.mem_map.mp member with ⟨place, -, rfl⟩
    rw [graph, drives_addEdges, detour.drives_scaffold_reroute rfl]
    exact Bool.false_ne_true
  have edges := detour.edges_graph ready
  have companions := (edges.filter (detour.graph nodes).drives).map companion
  rw [List.filter_append, List.filter_append, sideDriven, intoDriven, onwardIdle,
    List.append_nil, List.map_append] at companions
  refine (edges_completeEdges _).trans ((edges.append companions).trans ?_)
  rw [completed, completed, List.perm_iff_count]
  intro edge
  simp only [List.count_append]
  lia

omit ready in
theorem nextId_direct (nodes : Graph) (link : Link) :
    ((directGraph tree nodes).completeApart link).nextId = nodes.nextId := by
  rw [completeApart, nextId_addEdges, directGraph, nextId_addEdges]

omit ready in
theorem contains_direct (nodes : Graph) (link : Link) (id : NodeId) :
    ((directGraph tree nodes).completeApart link).contains id = nodes.contains id := by
  rw [completeApart, contains_addEdges, directGraph, contains_addEdges]

omit ready in
/-- A completed edge is an edge or a companion. -/
theorem mem_completed {edges : List Edge} {edge : Edge} (member : edge ∈ completed nodes edges) :
    ∃ old ∈ edges, old = edge ∨ companion old = edge := by
  rw [completed, List.mem_append, List.mem_map] at member
  rcases member with old | ⟨old, driven, isCompanion⟩
  · exact ⟨edge, old, Or.inl rfl⟩
  · exact ⟨old, (List.mem_filter.mp driven).1, Or.inr isCompanion⟩

theorem toList_head?_startsOf (link : Link) :
    (startsOf nodes link).head?.toList = startsOf nodes link := by
  rcases ready.distinguished.startsOf link with none | ⟨place, one⟩
  · rw [none]
    rfl
  · rw [one]
    rfl

theorem closed_directGraph : (directGraph tree nodes).Closed := by
  have linked : ∀ edge ∈ tree.links.flatMap (linkEdges nodes),
      nodes.contains edge.source = true ∧ nodes.contains edge.target = true := by
    intro edge member
    rcases List.mem_flatMap.mp member with ⟨link, -, made⟩
    exact contains_of_mem_linkEdges made
  have bare : nodes.Closed := ⟨by simp [ready.bare], by simp [ready.bare]⟩
  exact bare.addEdges (fun edge member => (linked edge member).1) fun edge member =>
    (linked edge member).2

/-- A link starts at one output at most, where names and identifiers are unique. -/
theorem linkEdges_direct (link : Link) :
    linkEdges (directGraph tree nodes) link =
      (startsOf nodes link).head?.toList.flatMap fun place =>
        (endsOf nodes link).map (connect place) := by
  rw [directGraph, linkEdges_addEdges, linkEdges_eq, toList_head?_startsOf ready]

/-- Edges into the reroute come from where the link starts. -/
theorem mem_completed_intoEdges (detour : Detour tree) {edge : Edge}
    (member : edge ∈ completed nodes (detour.intoEdges nodes)) :
    ∃ place ∈ (startsOf nodes detour.link).head?,
      connect place (nodes.nextId, 0) = edge ∨
        companion (connect place (nodes.nextId, 0)) = edge := by
  rcases mem_completed member with ⟨old, oldMember, same⟩
  rcases List.mem_map.mp oldMember with ⟨place, isStart, rfl⟩
  rw [← toList_head?_startsOf ready, Option.mem_toList] at isStart
  exact ⟨place, isStart, same⟩

/-- Edges that are drawn through the reroute are edges that run through a reroute. -/
theorem threaded (detour : Detour tree) :
    Threaded ((directGraph tree nodes).completeApart detour.link)
      (detour.graph nodes).completeEdges.1
      { detour.node with id := nodes.nextId } (startsOf nodes detour.link).head?
      (endsOf nodes detour.link) (completed nodes (detour.sideEdges nodes))
      (completed nodes (detour.intoEdges nodes)) where
  nodes := by
    rw [completeApart, nodes_addEdges, directGraph, nodes_addEdges, completeEdges, nodes_addEdges,
      graph, nodes_addEdges, nodes_scaffold]
  id := (nextId_direct nodes detour.link).symm
  kind := rfl
  nextId := by
    rw [nextId_direct, completeEdges, nextId_addEdges, graph, nextId_addEdges]
    rfl
  output := by
    rw [completeEdges, output_addEdges, graph, output_addEdges]
    exact ready.distinguished.output
  directOutput := by
    rw [completeApart, output_addEdges, directGraph, output_addEdges]
    exact ready.distinguished.output
  edges := by
    rw [nextId_direct]
    exact detour.edges_completeEdges_graph ready
  directEdges := by
    have edges := edges_completeApart (detour.edges_directGraph ready)
    rw [linkEdges_direct ready, directGraph, drives_addEdges] at edges
    exact edges
  closed := (closed_directGraph ready).completeApart detour.link
  starts place isStart := by
    rw [contains_direct]
    exact contains_of_mem_startsOf (List.mem_of_mem_head? isStart)
  finishes place isEnd := by
    rw [contains_direct]
    exact contains_of_mem_endsOf isEnd
  inward edge member := by
    rw [nextId_direct]
    rcases detour.mem_completed_intoEdges ready member with ⟨place, isStart, rfl | rfl⟩
    · exact ⟨rfl, place, isStart, rfl⟩
    · exact ⟨rfl, place, isStart, rfl⟩
  first place isStart := by
    rw [nextId_direct]
    constructor
    · exact List.mem_append_left _ (List.mem_map_of_mem (List.mem_of_mem_head? isStart))
    · intro edge member
      rcases detour.mem_completed_intoEdges ready member with ⟨other, isOther, same⟩
      rw [Option.mem_unique isOther isStart] at same
      rcases same with same | rfl
      · exact Or.inl same
      · right
        simp [Edge.before, companion, connect]

omit ready in
theorem outputName?_result (detour : Detour tree) :
    detour.result.outputName? = tree.outputName? := by
  rw [result, Tree.outputName?, List.reverse_append]
  simp [Tree.outputName?, detour.type]

omit ready in
theorem outputName_ne (detour : Detour tree) {name : String}
    (isName : tree.outputName? = some name) : name ≠ detour.reroute.name := by
  rcases Option.map_eq_some_iff.mp isName with ⟨node, found, rfl⟩
  exact detour.fresh node (List.mem_reverse.mp (List.mem_of_find?_eq_some found))

/-- The detour does not change which node is the output. -/
theorem findOutput_eq (detour : Detour tree) :
    (detour.graph nodes).completeEdges.1.findOutput detour.result =
      ((directGraph tree nodes).completeApart detour.link).findOutput tree := by
  rw [findOutput, findOutput, detour.outputName?_result]
  cases isName : tree.outputName? with
  | none => rfl
  | some name =>
      have other : detour.node.name ≠ name := (detour.outputName_ne isName).symm
      have same : (detour.graph nodes).completeEdges.1.idsNamed name =
          ((directGraph tree nodes).completeApart detour.link).idsNamed name := by
        rw [idsNamed, (detour.threaded ready).nodes, List.filter_append, idsNamed]
        simp [other]
      simp only [same]

end Graphs

/-- The nodes of a tree that is built are ready for its links. -/
theorem ready_of_build {supply : NameSupply} {built : Graph}
    (named : (tree.nodes.map (·.name)).Nodup)
    (distinct : ∀ node ∈ tree.nodes, (Socket.identifiers node.outputs).Nodup)
    (builds : (build tree supply).1 = .ok built) :
    ∃ nodes, (addNodes tree.nodes .empty supply).1 = .ok nodes ∧ Ready tree nodes ∧
      directGraph tree nodes = built := by
  rcases build_eq_ok_iff.mp builds with ⟨nodes, added, known, isBuilt⟩
  have empty : Scaffold .empty := ⟨by simp [Graph.empty], rfl⟩
  exact ⟨nodes, added,
    ⟨distinguished_addNodes named distinct added, (empty.addNodes added).edges, known⟩, isBuilt⟩

/-- The tree with the detour is built with the reroute in between. -/
theorem build_result (detour : Detour tree) {nodes : Graph} {supply : NameSupply}
    (ready : Ready tree nodes) (added : (addNodes tree.nodes .empty supply).1 = .ok nodes) :
    (build detour.result supply).1 = .ok (detour.graph nodes) :=
  build_eq_ok_iff.mpr ⟨detour.scaffold nodes, detour.addNodes_result added,
    detour.known_result ready.distinguished ready.known, rfl⟩

/--
A reroute that a link is drawn through does not show in what compiling gives, except that
the edges of the link get no companions.  Each reroute that the link leads to must be fed
from one place.
-/
theorem compile_transparent
    (detour : Detour tree) {context : Context} {built : Graph}
    (named : (tree.nodes.map (·.name)).Nodup)
    (distinct : ∀ node ∈ tree.nodes, (Socket.identifiers node.outputs).Nodup)
    (builds : (build tree context.names).1 = .ok built)
    (acyclic : built.Acyclic)
    (fedFromOne : ∀ id, (built.completeApart detour.link).Relayed (linkEdges built detour.link) id →
      (built.completeApart detour.link).FedFromOne id) :
    (detour.result.compile context).1 =
        ((built.completeApart detour.link).settle tree).map skip ∧
      ((∀ edge ∈ linkEdges built detour.link, built.drives edge = false) →
        (detour.result.compile context).1 = (tree.compile context).1.map skip) := by
  rcases ready_of_build named distinct builds with ⟨nodes, added, ready, rfl⟩
  have settled : (detour.result.compile context).1 =
      (((directGraph tree nodes).completeApart detour.link).settle tree).map skip := by
    rw [compile_eq_settle (detour.build_result ready added)]
    apply (detour.threaded ready).settle (acyclic.completeApart detour.link)
    · rw [← linkEdges_direct ready]
      exact fedFromOne
    · exact detour.findOutput_eq ready
  refine ⟨settled, fun idle => ?_⟩
  rw [settled, compile_eq_settle builds, completeApart_eq (detour.edges_directGraph ready) idle]

end Detour

/-! ## A detour that does not show, and two that do -/

/-- The graph of a tree before any stage. -/
def Tree.graph (tree : Tree) : Graph :=
  (Assembly.build tree {}).1.toOption.getD .empty

/-- A reroute with its sockets in use. -/
def rerouteNamed (name : String) : Node :=
  { name, type := "REROUTE",
    inputs := [.titled "Input" true .zero], outputs := [.titled "Output" true .zero] }

/-- A translucency group drives a material that is shown through a reroute. -/
def shownMaterial : Tree where
  nodes :=
    [{ name := "T", type := "GROUP", groupName := some "TRANSLUCENCY",
       outputs := [.titled "Translucency" true .zero] },
     { name := "M", type := "MATERIAL_EXT", material := some {},
       inputs :=
         [.titled "Color" false .zero, .titled "Spec" false .zero, .titled "Normal" false .zero,
          .titled "Translucency" true .zero],
       outputs :=
         [.titled "Color" true .zero, .titled "Alpha" false .zero, .titled "Normal" false .zero,
          .titled "Diffuse" false .zero, .titled "Spec" false .zero] },
     rerouteNamed "R",
     { name := "Out", type := "OUTPUT", inputs := [.titled "Color" true .zero] }]
  links :=
    [⟨"T", "Translucency", "M", "Translucency"⟩, ⟨"M", "Color", "R", "Input"⟩,
     ⟨"R", "Output", "Out", "Color"⟩]

/-- The colour of the material takes another reroute on its way. -/
def colorDetour : Detour shownMaterial where
  before := [⟨"T", "Translucency", "M", "Translucency"⟩]
  link := ⟨"M", "Color", "R", "Input"⟩
  after := [⟨"R", "Output", "Out", "Color"⟩]
  reroute := rerouteNamed "V"
  input := .titled "Input" true .zero
  output := .titled "Output" true .zero
  links := rfl
  type := rfl
  inputs := rfl
  outputs := rfl
  fresh := by decide

/-- A further reroute behind the material leaves its number as the only trace. -/
theorem compile_transparent_colorDetour :
    (Assembly.build shownMaterial {}).1 = .ok shownMaterial.graph ∧
      shownMaterial.graph.Acyclic ∧
      (colorDetour.result.compile {}).1 = (shownMaterial.compile {}).1.map Graph.skip := by
  have builds : (Assembly.build shownMaterial {}).1 = .ok shownMaterial.graph := by
    decide +kernel
  have acyclic : shownMaterial.graph.Acyclic := by decide +kernel
  have fed : ∀ id ∈ (shownMaterial.graph.completeApart colorDetour.link).idsOfKind .reroute,
      (shownMaterial.graph.completeApart colorDetour.link).FedFromOne id := by
    decide +kernel
  have idle : ∀ edge ∈ Assembly.linkEdges shownMaterial.graph colorDetour.link,
      shownMaterial.graph.drives edge = false := by
    decide +kernel
  have named : (shownMaterial.nodes.map (·.name)).Nodup := by decide
  have distinct : ∀ node ∈ shownMaterial.nodes, (Socket.identifiers node.outputs).Nodup := by
    decide
  have transparent := @Detour.compile_transparent _ colorDetour {} _ named distinct builds acyclic
    fun id relayed => fed id relayed.mem_idsOfKind
  exact ⟨builds, acyclic, transparent.2 idle⟩

/-- A translucency group is shown with its strength and its parameters. -/
def shownStrength : Tree where
  nodes :=
    [{ name := "T", type := "GROUP", groupName := some "TRANSLUCENCY",
       outputs := [.titled "Translucency" true .zero] },
     { name := "Out", type := "OUTPUT",
       inputs := [.titled "Color" true .zero, .titled "Params" false .zero] }]
  links := [⟨"T", "Translucency", "Out", "Color"⟩]

/-- The strength takes a reroute on its way. -/
def strengthDetour : Detour shownStrength where
  before := []
  link := ⟨"T", "Translucency", "Out", "Color"⟩
  after := []
  reroute := rerouteNamed "V"
  input := .titled "Input" true .zero
  output := .titled "Output" true .zero
  links := rfl
  type := rfl
  inputs := rfl
  outputs := rfl
  fresh := by decide

/-- Two colours lead to a reroute, which hands on the first. -/
def sharedRelay : Tree where
  nodes :=
    [{ name := "A", type := "RGB", outputs := [.titled "Color" true .zero] },
     { name := "B", type := "RGB", outputs := [.titled "Color" true .zero] },
     rerouteNamed "R",
     { name := "Out", type := "OUTPUT", inputs := [.titled "Color" true .zero] }]
  links :=
    [⟨"A", "Color", "R", "Input"⟩, ⟨"B", "Color", "R", "Input"⟩, ⟨"R", "Output", "Out", "Color"⟩]

/-- The first colour takes another reroute on its way. -/
def firstDetour : Detour sharedRelay where
  before := []
  link := ⟨"A", "Color", "R", "Input"⟩
  after := [⟨"B", "Color", "R", "Input"⟩, ⟨"R", "Output", "Out", "Color"⟩]
  reroute := rerouteNamed "V"
  input := .titled "Input" true .zero
  output := .titled "Output" true .zero
  links := rfl
  type := rfl
  inputs := rfl
  outputs := rfl
  fresh := by decide

/-- A detour in an orderly tree changes the edges of the compiled graph. -/
structure Shows {tree : Tree} (detour : Detour tree) (direct drawn : List Edge) : Prop where
  named : (tree.nodes.map (·.name)).Nodup
  inputs : ∀ node ∈ tree.nodes, (Socket.identifiers node.inputs).Nodup
  outputs : ∀ node ∈ tree.nodes, (Socket.identifiers node.outputs).Nodup
  builds : (Assembly.build tree {}).1 = .ok tree.graph
  acyclic : tree.graph.Acyclic
  directEdges : (tree.compile {}).1.map Graph.edges = .ok direct
  drawnEdges : (detour.result.compile {}).1.map Graph.edges = .ok drawn
  changed : direct ≠ drawn

/-- The companion of the strength is lost; the reroute hands on the other colour. -/
theorem detours_show :
    Shows strengthDetour [⟨0, 1, 0, 0⟩, ⟨0, 1, 1, 1⟩] [⟨0, 1, 0, 0⟩] ∧
      Shows firstDetour [⟨0, 3, 0, 0⟩] [⟨1, 3, 0, 0⟩] := by
  constructor
  · exact ⟨by decide, by decide, by decide, by decide +kernel, by decide +kernel,
      by decide +kernel, by decide +kernel, by decide⟩
  · exact ⟨by decide, by decide, by decide, by decide +kernel, by decide +kernel,
      by decide +kernel, by decide +kernel, by decide⟩

end Authored

end NodeMaterial
