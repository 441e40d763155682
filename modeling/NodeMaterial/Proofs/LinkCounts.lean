import NodeMaterial.Proofs.Linking

/-!
# Building draws every link, and nothing else

A tree that builds becomes a graph whose nodes are numbered from zero, block after block
in authored order: a geometry node becomes a node for each of its linked outputs, every
other node becomes one node.  An edge between two of these nodes occurs as often as the
tree has links that lead from the one socket to the other.  A link finds a socket by the
first place that carries its identifier, and it may find sockets at several nodes, since
names are shared.
-/

namespace NodeMaterial

/-- The first of the sockets with an identifier stands at a place. -/
def Socket.FirstAt (identifier : String) (sockets : List Socket) (place : Nat) : Prop :=
  (Socket.identifiers sockets)[place]? = some identifier ∧
    identifier ∉ (Socket.identifiers sockets).take place

instance (identifier : String) (sockets : List Socket) (place : Nat) :
    Decidable (Socket.FirstAt identifier sockets place) :=
  inferInstanceAs (Decidable (_ ∧ _))

namespace Authored

/-- A link leads from an output of one node to an input of another. -/
def Link.Leads (link : Link) (producer : NodeMaterial.Node) (outSocket : Nat)
    (consumer : NodeMaterial.Node) (inSocket : Nat) : Prop :=
  (link.fromNode = producer.name ∧ Socket.FirstAt link.fromSocket producer.outputs outSocket) ∧
    link.toNode = consumer.name ∧ Socket.FirstAt link.toSocket consumer.inputs inSocket

instance (link : Link) (producer : NodeMaterial.Node) (outSocket : Nat)
    (consumer : NodeMaterial.Node) (inSocket : Nat) :
    Decidable (link.Leads producer outSocket consumer inSocket) :=
  inferInstanceAs (Decidable ((_ ∧ _) ∧ _ ∧ _))

/-- The outputs of a node that are linked, in order. -/
def Node.linkedOutputs (node : Node) : List Socket :=
  node.outputs.filter (·.isLinked)

/-- A node of a graph gives the facet that a linked output of a geometry node asks for. -/
def Node.GivesFacet (node : Node) (socket : Socket) (made : NodeMaterial.Node) : Prop :=
  made.name = node.name ∧ Socket.identifiers made.outputs = [socket.identifier] ∧
    ∃ facet : Facet, facet.identifier = socket.identifier ∧ made.kind = .geometry facet

/-- What an authored node becomes: a geometry node one node for each linked output, in order. -/
def Node.StandsAs (node : Node) (made : List NodeMaterial.Node) : Prop :=
  if node.type = "GEOMETRY" then
    List.Forall₂ node.GivesFacet node.linkedOutputs made
  else
    ∃ single : NodeMaterial.Node, made = [single] ∧ single.name = node.name

end Authored

namespace Assembly

open NodeMaterial.Graph

/-! ## Sockets -/

/-- A socket is found at the first place where its identifier stands. -/
theorem findIdx?_eq_some_iff_firstAt {identifier : String} {sockets : List Socket} {place : Nat} :
    sockets.findIdx? (·.identifier == identifier) = some place ↔
      Socket.FirstAt identifier sockets place := by
  rw [List.findIdx?_eq_some_iff_getElem, Socket.FirstAt, List.mem_take_iff_getElem]
  constructor
  · rintro ⟨inside, matched, earlier⟩
    refine ⟨?_, ?_⟩
    · simpa [Socket.identifiers, inside] using matched
    · rintro ⟨before, isBefore, same⟩
      have lower : before < place := by omega
      have differs := earlier before lower
      simp only [Socket.identifiers, List.getElem_map] at same
      simp [same] at differs
  · rintro ⟨matched, notEarlier⟩
    rcases List.getElem?_eq_some_iff.mp matched with ⟨inside, same⟩
    rw [Socket.identifiers, List.length_map] at inside
    simp only [Socket.identifiers, List.getElem_map] at same
    refine ⟨inside, by simpa using same, fun before lower => ?_⟩
    intro isSame
    refine notEarlier ⟨before, by simp [Socket.identifiers]; omega, ?_⟩
    simpa [Socket.identifiers] using isSame

theorem outputIndex?_eq_some_iff {node : Node} {identifier : String} {place : Nat} :
    node.outputIndex? identifier = some place ↔
      Socket.FirstAt identifier node.outputs place :=
  findIdx?_eq_some_iff_firstAt

theorem inputIndex?_eq_some_iff {node : Node} {identifier : String} {place : Nat} :
    node.inputIndex? identifier = some place ↔
      Socket.FirstAt identifier node.inputs place :=
  findIdx?_eq_some_iff_firstAt

/-! ## Links -/

variable {graph : Graph}

/-- The edge between a pair of places. -/
def connectPair (places : (NodeId × Nat) × (NodeId × Nat)) : Edge :=
  connect places.1 places.2

theorem connectPair_injective : Function.Injective connectPair := by
  rintro ⟨⟨source, outSocket⟩, target, inSocket⟩ ⟨⟨source', outSocket'⟩, target', inSocket'⟩ same
  cases same
  rfl

/-- A link connects each start with each end. -/
theorem linkEdges_eq_product (graph : Graph) (link : Authored.Link) :
    linkEdges graph link =
      ((startsOf graph link).product (endsOf graph link)).map connectPair := by
  simp only [linkEdges_eq, List.product, List.map_flatMap, List.map_map]
  rfl

/-- The places of a list of nodes, at most one for each node, are distinct. -/
theorem nodup_places {nodes : List Node} (distinct : (nodes.map (·.id)).Nodup)
    (find : Node → Option Nat) :
    (nodes.filterMap fun node => (find node).map fun socket => (node.id, socket)).Nodup := by
  refine List.Pairwise.filterMap _ ?_ (List.pairwise_map.mp distinct)
  intro first second different start isStart next isNext
  rcases Option.map_eq_some_iff.mp isStart with ⟨_, -, rfl⟩
  rcases Option.map_eq_some_iff.mp isNext with ⟨_, -, rfl⟩
  exact fun same => different (congrArg Prod.fst same)

/-- A link becomes each of its edges once. -/
theorem nodup_linkEdges (graph : Graph) (link : Authored.Link) : (linkEdges graph link).Nodup := by
  have distinct : ∀ name, ((nodesNamed graph name).map (·.id)).Nodup := fun name =>
    graph.nodup_nodeIds.sublist (List.filter_sublist.map _)
  have starts : (startsOf graph link).Nodup := nodup_places (distinct link.fromNode) _
  have ends : (endsOf graph link).Nodup := nodup_places (distinct link.toNode) _
  rw [linkEdges_eq_product]
  exact (starts.product ends).map connectPair_injective

/-- The place of a node is among those of the nodes with a name if the node has the name. -/
theorem mem_places_iff {node : Node} (member : node ∈ graph.nodes) {name : String}
    {find : Node → Option Nat} {socket : Nat} :
    (node.id, socket) ∈
        ((nodesNamed graph name).filterMap fun other =>
          (find other).map fun found => (other.id, found)) ↔
      name = node.name ∧ find node = some socket := by
  simp only [List.mem_filterMap, Option.map_eq_some_iff, Prod.mk.injEq]
  constructor
  · rintro ⟨other, otherMember, found, isFound, sameId, rfl⟩
    rcases List.mem_filter.mp otherMember with ⟨inGraph, named⟩
    have same : other = node := eq_of_id_eq inGraph member sameId
    subst same
    exact ⟨(beq_iff_eq.mp named).symm, isFound⟩
  · rintro ⟨rfl, isFound⟩
    exact ⟨node, List.mem_filter.mpr ⟨member, beq_self_eq_true _⟩, socket, isFound, rfl, rfl⟩

/-- A link becomes an edge between two sockets if it leads from the one to the other. -/
theorem mem_linkEdges_iff
    {producer consumer : Node} (producerMember : producer ∈ graph.nodes)
    (consumerMember : consumer ∈ graph.nodes) {link : Authored.Link} {outSocket inSocket : Nat} :
    (⟨producer.id, consumer.id, outSocket, inSocket⟩ : Edge) ∈ linkEdges graph link ↔
      link.Leads producer outSocket consumer inSocket := by
  have isPair : (⟨producer.id, consumer.id, outSocket, inSocket⟩ : Edge) =
      connectPair ((producer.id, outSocket), (consumer.id, inSocket)) := rfl
  rw [isPair, linkEdges_eq_product, List.mem_map_of_injective connectPair_injective,
    List.pair_mem_product, startsOf, endsOf, mem_places_iff producerMember,
    mem_places_iff consumerMember, outputIndex?_eq_some_iff, inputIndex?_eq_some_iff]
  rfl

/-- An edge is drawn as often as there are links that lead along it. -/
theorem count_flatMap_linkEdges
    {producer consumer : Node} (producerMember : producer ∈ graph.nodes)
    (consumerMember : consumer ∈ graph.nodes) (links : List Authored.Link)
    (outSocket inSocket : Nat) :
    (links.flatMap (linkEdges graph)).count ⟨producer.id, consumer.id, outSocket, inSocket⟩ =
      links.countP fun link => link.Leads producer outSocket consumer inSocket := by
  induction links with
  | nil => rfl
  | cons link others induction =>
      rw [List.flatMap_cons, List.count_append, induction, List.countP_cons,
        (nodup_linkEdges graph link).count]
      simp only [mem_linkEdges_iff producerMember consumerMember, decide_eq_true_eq]
      exact Nat.add_comm _ _

/-! ## Nodes -/

theorem Plan.GivesFacet.of_becomes {node : Authored.Node} {socket : Socket} {plan : Plan}
    {made : Node} (gives : plan.GivesFacet node socket) (becomes : plan.Becomes made) :
    node.GivesFacet socket made := by
  rcases becomes with ⟨names, id, rfl⟩
  exact gives

/-- What plans that are made for sockets become is what the sockets ask for. -/
theorem givesFacet_of_become
    {node : Authored.Node} {sockets : List Socket} {plans : List Plan} {made : List Node}
    (given : List.Forall₂ (Plan.GivesFacet node) sockets plans)
    (become : List.Forall₂ Plan.Becomes plans made) :
    List.Forall₂ node.GivesFacet sockets made := by
  induction given generalizing made with
  | nil =>
      cases become
      exact .nil
  | cons first _ induction =>
      cases become with
      | cons becomes rest => exact .cons (first.of_becomes becomes) (induction rest)

/-- A node stands as its plans, in order. -/
theorem standsAs_of_plan {node : Authored.Node} {plans : List Plan} {made : List Node}
    (planned : plan node = .ok plans) (become : List.Forall₂ Plan.Becomes plans made) :
    node.StandsAs made := by
  rw [Authored.Node.StandsAs]
  rw [plan] at planned
  split at planned
  · rename_i isGeometry
    rw [if_pos isGeometry]
    exact givesFacet_of_become (planFacets_givesFacet node _ _ plans planned) become
  · rename_i notGeometry
    rw [if_neg (by simpa using notGeometry)]
    have alone : Gives (fun plans => ∃ single : Plan, plans = [single] ∧ single.name = node.name)
        (([·]) <$> planSingle node) :=
      gives_map (named_planSingle node) fun single sameName => ⟨single, rfl, sameName⟩
    rcases alone plans planned with ⟨single, rfl, name⟩
    cases become with
    | cons becomes rest =>
        cases rest
        rcases becomes with ⟨names, id, rfl⟩
        exact ⟨_, rfl, name⟩

theorem standsAs_of_plans
    {nodes : List Authored.Node} {plans : List (List Plan)} {made : List (List Node)}
    (all : List.Forall₂ (fun node made => plan node = .ok made) nodes plans)
    (become : List.Forall₂ (List.Forall₂ Plan.Becomes) plans made) :
    List.Forall₂ Authored.Node.StandsAs nodes made := by
  induction all generalizing made with
  | nil =>
      cases become
      exact .nil
  | cons planned _ induction =>
      cases become with
      | cons first rest => exact .cons (standsAs_of_plan planned first) (induction rest)

/-! ## Graphs that have been built -/

/-- A graph has the nodes of a tree, and its links as edges. -/
structure Draws (tree : Authored.Tree) (graph : Graph) : Prop where
  numbers : graph.nodeIds = List.range graph.nodeCount
  nodes : ∃ made, List.Forall₂ Authored.Node.StandsAs tree.nodes made ∧
    graph.nodes = made.flatten
  multiplicity : ∀ producer ∈ graph.nodes, ∀ consumer ∈ graph.nodes, ∀ outSocket inSocket,
    graph.multiplicity ⟨producer.id, consumer.id, outSocket, inSocket⟩ =
      tree.links.countP fun link => link.Leads producer outSocket consumer inSocket
  edges : ∀ edge ∈ graph.edges, ∃ producer ∈ graph.nodes, ∃ consumer ∈ graph.nodes,
    edge.source = producer.id ∧ edge.target = consumer.id ∧
      edge.outSocket < producer.outputs.length ∧ edge.inSocket < consumer.inputs.length

/-- A tree that builds becomes a graph with its nodes in order and its links as edges. -/
theorem build_draws
    {tree : Authored.Tree} {supply : NameSupply} {graph : Graph}
    (builds : (build tree supply).1 = .ok graph) :
    Draws tree graph := by
  rcases build_eq_ok_iff.mp builds with ⟨scaffold, added, -, rfl⟩
  rcases extends_addNodes added with ⟨plans, made, all, become, extended⟩
  have nodes : scaffold.nodes = made.flatten := extended.nodes
  have bare : scaffold.edges = [] := congrArg EdgeBag.occurrences extended.bag
  have built := built_of_build builds
  constructor
  case numbers =>
    rw [nodeIds, nodeCount, nodes_addEdges, nodes, extended.numbers, List.range_eq_range']
    rfl
  case nodes =>
    rw [nodes_addEdges]
    exact ⟨made, standsAs_of_plans all become, nodes⟩
  case multiplicity =>
    intro producer producerMember consumer consumerMember outSocket inSocket
    rw [nodes_addEdges] at producerMember consumerMember
    have perm := edges_addEdges scaffold (tree.links.flatMap (linkEdges scaffold))
    rw [bare, List.nil_append] at perm
    rw [Graph.multiplicity, EdgeBag.multiplicity_eq_count, ← edges, perm.count_eq,
      count_flatMap_linkEdges producerMember consumerMember]
  case edges =>
    intro edge member
    rcases built.edges edge member with ⟨⟨producer, source, outRange⟩, consumer, target, inRange⟩
    exact ⟨producer, mem_nodes_of_node? source, consumer, mem_nodes_of_node? target,
      (id_of_node? source).symm, (id_of_node? target).symm, outRange, inRange⟩

/-- One name for two numbers, one identifier for two inputs, and one link drawn twice. -/
def sharedNames : Authored.Tree where
  nodes :=
    [{ name := "G", type := "GEOMETRY",
       outputs := [.titled "UV" true .zero, .titled "View" false .zero,
         .titled "Normal" true .zero] },
     { name := "V", type := "VALUE", outputs := [.titled "Value" true .zero] },
     { name := "V", type := "VALUE", outputs := [.titled "Value" true .zero] },
     { name := "M", type := "MIX_RGB", blendType := some "MIX",
       inputs := [.titled "Color" true .zero, .titled "Color" false .zero,
         .titled "Fac" true .zero],
       outputs := [.titled "Color" false .zero] }]
  links :=
    [⟨"G", "UV", "M", "Color"⟩, ⟨"V", "Value", "M", "Fac"⟩, ⟨"G", "UV", "M", "Color"⟩,
     ⟨"G", "View", "M", "Fac"⟩]

/-- Two nodes share a name, and one link is given twice. -/
theorem build_draws_sharedNames :
    ∃ graph, (build sharedNames {}).1 = .ok graph ∧
      graph.edges = [⟨0, 4, 0, 0⟩, ⟨0, 4, 0, 0⟩, ⟨2, 4, 0, 2⟩, ⟨3, 4, 0, 2⟩] ∧
      Draws sharedNames graph := by
  have edges : (build sharedNames {}).1.map Graph.edges =
      .ok [⟨0, 4, 0, 0⟩, ⟨0, 4, 0, 0⟩, ⟨2, 4, 0, 2⟩, ⟨3, 4, 0, 2⟩] := by
    decide +kernel
  cases builds : (build sharedNames {}).1 with
  | error failure =>
      rw [builds] at edges
      cases edges
  | ok graph =>
      rw [builds] at edges
      exact ⟨graph, rfl, Except.ok.inj edges, build_draws builds⟩

end Assembly

end NodeMaterial
