import Mathlib.Data.List.Forall2
import NodeMaterial.Proofs.Building

/-!
# What a link becomes

The nodes of a graph that has been built are those of the plans of the authored nodes,
in order.  The nodes that one authored node becomes share its name but no output.  If
authored names are distinct, a link therefore starts at one output at most.

A link becomes an edge from each place that it starts at to each place where it ends.
Links are added to nodes that are all there already, so the edges of a graph are those
of its links, one link after the other.
-/

namespace NodeMaterial

/-- The identifiers of sockets. -/
def Socket.identifiers (sockets : List Socket) : List String :=
  sockets.map (·.identifier)

namespace Assembly

open NodeMaterial.Graph

/-! ## Plans -/

theorem named_planGroup (node : Authored.Node) :
    Gives (fun plan => plan.name = node.name) (planGroup node) := by
  refine gives_bind fun group => ?_
  cases group <;> exact gives_ok rfl

theorem named_planTexture (node : Authored.Node) :
    Gives (fun plan => plan.name = node.name) (planTexture node) := by
  rw [planTexture]
  split
  · refine gives_bind fun sampler => ?_
    split
    · exact gives_error _ _
    · exact gives_ok rfl
  · exact gives_error _ _

theorem named_planMaterial (node : Authored.Node) (extended : Bool) :
    Gives (fun plan => plan.name = node.name) (planMaterial node extended) := by
  rw [planMaterial]
  split
  · repeat refine gives_bind fun _ => ?_
    cases extended <;> exact gives_bind fun _ => gives_ok rfl
  · exact gives_error _ _

theorem named_planSingle (node : Authored.Node) :
    Gives (fun plan => plan.name = node.name) (planSingle node) := by
  rw [planSingle]
  split
  case h_4 => exact named_planGroup node
  case h_6 => exact gives_bind fun _ => gives_bind fun _ => gives_ok rfl
  case h_7 => exact named_planMaterial node false
  case h_8 => exact named_planMaterial node true
  case h_15 => exact named_planTexture node
  all_goals
    first
    | exact gives_ok rfl
    | exact gives_bind fun _ => gives_ok rfl

theorem planFacet_name (node : Authored.Node) (facet : Facet) (socket : Socket) :
    (planFacet node facet socket).name = node.name := by
  cases facet <;> rfl

theorem planFacet_outputs (node : Authored.Node) (facet : Facet) (socket : Socket) :
    (planFacet node facet socket).outputs = [(node.output? facet.identifier).getD socket] := by
  cases facet <;> rfl

/-- A facet keeps the identifier by which it was asked for. -/
theorem identifiers_planFacet (node : Authored.Node) {facet : Facet} {socket : Socket}
    (found : Facet.ofIdentifier? socket.identifier = some facet) :
    Socket.identifiers (planFacet node facet socket).outputs = [socket.identifier] := by
  have same : facet.identifier = socket.identifier := by
    have matched := List.find?_some found
    exact beq_iff_eq.mp matched
  rw [planFacet_outputs, same]
  cases given : node.output? socket.identifier with
  | none => rfl
  | some output =>
      have matched := List.find?_some given
      exact congrArg (fun text => [text]) (beq_iff_eq.mp matched)

theorem planFacet_kind (node : Authored.Node) (facet : Facet) (socket : Socket) :
    (planFacet node facet socket).kind = .geometry facet := by
  cases facet <;> rfl

/-- A plan gives the facet that a linked output of a geometry node asks for. -/
def Plan.GivesFacet (node : Authored.Node) (socket : Socket) (plan : Plan) : Prop :=
  plan.name = node.name ∧ Socket.identifiers plan.outputs = [socket.identifier] ∧
    ∃ facet : Facet, facet.identifier = socket.identifier ∧ plan.kind = .geometry facet

/-- A geometry node is planned as one accessor for each of its linked outputs. -/
theorem planFacets_givesFacet (node : Authored.Node) (drawn : List String)
    (sockets : List Socket) :
    Gives (List.Forall₂ (Plan.GivesFacet node) sockets) (planFacets node drawn sockets) := by
  induction sockets generalizing drawn with
  | nil => exact gives_ok .nil
  | cons socket others induction =>
      rw [planFacets]
      split
      · exact gives_error _ _
      · rename_i facet found
        have matched := List.find?_some found
        refine gives_map (induction _) fun rest given => .cons ⟨?_, ?_, facet, ?_, ?_⟩ given
        · exact planFacet_name node facet socket
        · exact identifiers_planFacet node found
        · exact beq_iff_eq.mp matched
        · exact planFacet_kind node facet socket

theorem planFacets_spec (node : Authored.Node) (drawn : List String) (sockets : List Socket) :
    Gives
      (fun plans => (∀ plan ∈ plans, plan.name = node.name) ∧
        plans.map (fun plan => Socket.identifiers plan.outputs) =
          sockets.map fun socket => [socket.identifier])
      (planFacets node drawn sockets) := by
  intro plans planned
  have given := planFacets_givesFacet node drawn sockets plans planned
  clear planned
  induction given with
  | nil => simp
  | cons first _ induction =>
      rcases first with ⟨name, outputs, -⟩
      simp only [List.forall_mem_cons, List.map_cons, outputs]
      exact ⟨⟨name, induction.1⟩, congrArg _ induction.2⟩

/-- All that an authored node is planned as bears its name. -/
theorem named_plan (node : Authored.Node) :
    Gives (fun plans => ∀ plan ∈ plans, plan.name = node.name) (plan node) := by
  rw [plan]
  split
  · exact fun plans planned => (planFacets_spec node _ _ plans planned).1
  · refine gives_map (named_planSingle node) fun single named plan member => ?_
    rw [List.mem_singleton.mp member]
    exact named

/-- What links look at: the name of a node and the identifiers of its outputs. -/
abbrev Signature := String × List String

namespace Signature

/-- Nodes of one name share no output. -/
def Apart (first second : Signature) : Prop :=
  first.1 = second.1 → first.2.Disjoint second.2

/-- What links can see of a plan. -/
def ofPlan (plan : Plan) : Signature :=
  (plan.name, Socket.identifiers plan.outputs)

/-- What links can see of a node. -/
def ofNode (node : Node) : Signature :=
  (node.name, Socket.identifiers node.outputs)

end Signature

/-- The plans of a node carry its name, and share no output. -/
theorem plan_spec (node : Authored.Node) (distinct : (Socket.identifiers node.outputs).Nodup) :
    Gives
      (fun plans => (∀ plan ∈ plans, plan.name = node.name) ∧
        (plans.map Signature.ofPlan).Pairwise Signature.Apart)
      (plan node) := by
  have apart : Gives (fun plans => (plans.map Signature.ofPlan).Pairwise Signature.Apart)
      (plan node) := by
    rw [plan]
    split
    · intro plans planned
      have outputs := (planFacets_spec node _ _ plans planned).2
      have linked : (node.outputs.filter (·.isLinked)).Pairwise
          fun first second => first.identifier ≠ second.identifier :=
        (List.pairwise_map.mp distinct).filter _
      have disjoint : (plans.map fun plan => Socket.identifiers plan.outputs).Pairwise
          List.Disjoint := by
        rw [outputs, List.pairwise_map]
        exact linked.imp fun different =>
          List.disjoint_singleton.mpr (by simpa using different.symm)
      rw [List.pairwise_map] at disjoint ⊢
      exact disjoint.imp fun apart => fun _ => apart
    · exact gives_map (named_planSingle node) fun single _ => List.pairwise_singleton _ _
  exact fun plans planned => ⟨named_plan node plans planned, apart plans planned⟩

/-! ## Nodes -/

theorem addNodes_append (first second : List Authored.Node) (graph : Graph) (supply : NameSupply) :
    addNodes (first ++ second) graph supply =
      match addNodes first graph supply with
      | (.error failure, drawn) => (.error failure, drawn)
      | (.ok added, drawn) => addNodes second added drawn := by
  induction first generalizing graph supply with
  | nil => rfl
  | cons node others induction =>
      rw [List.cons_append, addNodes, addNodes]
      cases plan node with
      | error refusal => rfl
      | ok plans => exact induction _ _

/-- A node is what a plan becomes, with some names and under some number. -/
def Plan.Becomes (plan : Plan) (node : Node) : Prop :=
  ∃ names id, node = { plan.realize names with id }

/-- A graph with further nodes under the next numbers, and nothing else changed. -/
structure Extends (graph result : Graph) (added : List Node) : Prop where
  nodes : result.nodes = graph.nodes ++ added
  numbers : added.map (·.id) = List.range' graph.nextId added.length
  nextId : result.nextId = graph.nextId + added.length
  bag : result.bag = graph.bag
  output : result.output = graph.output

theorem Extends.refl (graph : Graph) : Extends graph graph [] :=
  ⟨by simp, rfl, rfl, rfl, rfl⟩

theorem Extends.trans {first second third : Graph} {added more : List Node}
    (one : Extends first second added) (two : Extends second third more) :
    Extends first third (added ++ more) where
  nodes := by rw [two.nodes, one.nodes, List.append_assoc]
  numbers := by
    rw [List.map_append, one.numbers, two.numbers, one.nextId, List.length_append,
      List.range'_append_1]
  nextId := by rw [two.nextId, one.nextId, List.length_append, Nat.add_assoc]
  bag := two.bag.trans one.bag
  output := two.output.trans one.output

/-- Planned nodes are put behind those that are there, one for each plan. -/
theorem extends_addPlans (plans : List Plan) (state : Graph × NameSupply) :
    ∃ added, Extends state.1 (plans.foldl addPlan state).1 added ∧
      List.Forall₂ Plan.Becomes plans added := by
  induction plans generalizing state with
  | nil => exact ⟨[], .refl state.1, .nil⟩
  | cons plan others induction =>
      rcases induction (addPlan state plan) with ⟨more, rest, become⟩
      have first : Extends state.1 (addPlan state plan).1
          [{ plan.realize (state.2.issueAll (plan.slots.map (·.base))).1 with
             id := state.1.nextId }] :=
        ⟨rfl, rfl, rfl, rfl, rfl⟩
      exact ⟨_, first.trans rest, .cons ⟨_, _, rfl⟩ become⟩

/-- The nodes that are added are what the plans of the authored nodes become, in order. -/
theorem extends_addNodes
    {nodes : List Authored.Node} {graph result : Graph} {supply : NameSupply}
    (added : (addNodes nodes graph supply).1 = .ok result) :
    ∃ plans made, List.Forall₂ (fun node made => plan node = .ok made) nodes plans ∧
      List.Forall₂ (List.Forall₂ Plan.Becomes) plans made ∧
        Extends graph result made.flatten := by
  induction nodes generalizing graph supply with
  | nil =>
      rw [addNodes, Except.ok.injEq] at added
      exact ⟨[], [], .nil, .nil, added ▸ .refl graph⟩
  | cons node others induction =>
      rw [addNodes] at added
      split at added
      · cases added
      · rename_i here planned
        rcases extends_addPlans here (graph, supply) with ⟨block, first, become⟩
        rcases induction added with ⟨plans, made, all, becomeAll, rest⟩
        exact ⟨here :: plans, block :: made, .cons planned all, .cons become becomeAll,
          first.trans rest⟩

/-- Numbers and parameters do not show in what links can see of a node. -/
theorem signatures_of_become {plans : List Plan} {added : List Node}
    (become : List.Forall₂ Plan.Becomes plans added) :
    added.map Signature.ofNode = plans.map Signature.ofPlan := by
  induction become with
  | nil => rfl
  | cons first _ induction =>
      rcases first with ⟨names, id, rfl⟩
      rw [List.map_cons, List.map_cons, induction]
      rfl

/-- The nodes that are added are those of the plans of the authored nodes. -/
theorem signatures_addNodes
    {nodes : List Authored.Node} {graph result : Graph} {supply : NameSupply}
    (added : (addNodes nodes graph supply).1 = .ok result) :
    ∃ plans, List.Forall₂ (fun node made => plan node = .ok made) nodes plans ∧
      result.nodes.map Signature.ofNode =
        graph.nodes.map Signature.ofNode ++ plans.flatten.map Signature.ofPlan ∧
      result.output = graph.output := by
  rcases extends_addNodes added with ⟨plans, made, all, become, extended⟩
  refine ⟨plans, all, ?_, extended.output⟩
  rw [extended.nodes, List.map_append, signatures_of_become (List.rel_flatten become)]

/-- Every plan carries the name of an authored node. -/
theorem exists_authored
    {nodes : List Authored.Node} {plans : List (List Plan)}
    (all : List.Forall₂ (fun node made => plan node = .ok made) nodes plans)
    {made : Plan} (member : made ∈ plans.flatten) : ∃ node ∈ nodes, made.name = node.name := by
  induction all with
  | nil => cases member
  | @cons node here nodes plans planned _ induction =>
      rw [List.flatten_cons, List.mem_append] at member
      rcases member with own | later
      · exact ⟨node, List.mem_cons_self, named_plan node here planned made own⟩
      · rcases induction later with ⟨other, otherMember, named⟩
        exact ⟨other, List.mem_cons_of_mem _ otherMember, named⟩

/-- The plans of nodes with distinct names are apart. -/
theorem plans_apart
    {nodes : List Authored.Node} {plans : List (List Plan)}
    (all : List.Forall₂ (fun node made => plan node = .ok made) nodes plans)
    (named : (nodes.map (·.name)).Nodup)
    (distinct : ∀ node ∈ nodes, (Socket.identifiers node.outputs).Nodup) :
    (plans.flatten.map Signature.ofPlan).Pairwise Signature.Apart := by
  induction all with
  | nil => exact .nil
  | @cons node made nodes plans planned others induction =>
      rw [List.map_cons, List.nodup_cons] at named
      have restApart := induction named.2 fun other member =>
        distinct other (List.mem_cons_of_mem _ member)
      rcases plan_spec node (distinct node List.mem_cons_self) made planned with
        ⟨madeNamed, madeApart⟩
      rw [List.flatten_cons, List.map_append, List.pairwise_append]
      refine ⟨madeApart, restApart, ?_⟩
      -- Plans of different nodes have different names.
      intro first firstMember second secondMember sameName
      rcases List.mem_map.mp firstMember with ⟨plan, own, rfl⟩
      rcases List.mem_map.mp secondMember with ⟨other, later, rfl⟩
      rcases exists_authored others later with ⟨author, authorMember, authorName⟩
      have shared : author.name = node.name :=
        authorName.symm.trans (sameName.symm.trans (madeNamed plan own))
      exact absurd (shared ▸ List.mem_map_of_mem authorMember) named.1

/-- Nodes with names of a list, those of one name without a common output, and no output node. -/
structure Distinguished (names : List String) (graph : Graph) : Prop where
  named : ∀ node ∈ graph.nodes, node.name ∈ names
  apart : (graph.nodes.map Signature.ofNode).Pairwise Signature.Apart
  output : graph.output = none

/-- Where names are unique, a name and an output identifier point at one node at most. -/
theorem distinguished_addNodes
    {nodes : List Authored.Node} {graph : Graph} {supply : NameSupply}
    (named : (nodes.map (·.name)).Nodup)
    (distinct : ∀ node ∈ nodes, (Socket.identifiers node.outputs).Nodup)
    (added : (addNodes nodes .empty supply).1 = .ok graph) :
    Distinguished (nodes.map (·.name)) graph := by
  rcases signatures_addNodes added with ⟨plans, all, signatures, output⟩
  have same : graph.nodes.map Signature.ofNode = plans.flatten.map Signature.ofPlan := signatures
  refine ⟨fun node member => ?_, same ▸ plans_apart all named distinct, output⟩
  have signed : Signature.ofNode node ∈ plans.flatten.map Signature.ofPlan :=
    same ▸ List.mem_map_of_mem member
  rcases List.mem_map.mp signed with ⟨plan, planned, signature⟩
  have sameName : plan.name = node.name := congrArg Prod.fst signature
  rcases exists_authored all planned with ⟨author, authorMember, authorName⟩
  rw [← sameName, authorName]
  exact List.mem_map_of_mem authorMember

/-! ## Links -/

/-- The places where a link can start. -/
def startsOf (graph : Graph) (link : Authored.Link) : List (NodeId × Nat) :=
  (nodesNamed graph link.fromNode).filterMap fun node =>
    (node.outputIndex? link.fromSocket).map fun socket => (node.id, socket)

/-- The places where a link can end. -/
def endsOf (graph : Graph) (link : Authored.Link) : List (NodeId × Nat) :=
  (nodesNamed graph link.toNode).filterMap fun node =>
    (node.inputIndex? link.toSocket).map fun socket => (node.id, socket)

/-- The edge between two places. -/
def connect (start finish : NodeId × Nat) : Edge :=
  ⟨start.1, finish.1, start.2, finish.2⟩

theorem contains_of_mem_startsOf {graph : Graph} {link : Authored.Link} {place : NodeId × Nat}
    (member : place ∈ startsOf graph link) : graph.contains place.1 = true := by
  rcases List.mem_filterMap.mp member with ⟨node, nodeMember, isPlace⟩
  rcases Option.map_eq_some_iff.mp isPlace with ⟨socket, -, rfl⟩
  exact contains_of_node? (node?_of_mem (List.mem_filter.mp nodeMember).1)

theorem contains_of_mem_endsOf {graph : Graph} {link : Authored.Link} {place : NodeId × Nat}
    (member : place ∈ endsOf graph link) : graph.contains place.1 = true := by
  rcases List.mem_filterMap.mp member with ⟨node, nodeMember, isPlace⟩
  rcases Option.map_eq_some_iff.mp isPlace with ⟨socket, -, rfl⟩
  exact contains_of_node? (node?_of_mem (List.mem_filter.mp nodeMember).1)

theorem linkEdge?_eq (link : Authored.Link) (producer consumer : Node) :
    linkEdge? link producer consumer =
      (producer.outputIndex? link.fromSocket).bind fun outSocket =>
        ((consumer.inputIndex? link.toSocket).map fun inSocket => (consumer.id, inSocket)).map
          (connect (producer.id, outSocket)) := by
  rw [linkEdge?]
  cases producer.outputIndex? link.fromSocket with
  | none => rfl
  | some outSocket =>
      cases consumer.inputIndex? link.toSocket with
      | none => rfl
      | some inSocket => rfl

/-- A link draws an edge from each place where it starts to each place where it ends. -/
theorem linkEdges_eq (graph : Graph) (link : Authored.Link) :
    linkEdges graph link =
      (startsOf graph link).flatMap fun start => (endsOf graph link).map (connect start) := by
  rw [linkEdges, startsOf]
  induction nodesNamed graph link.fromNode with
  | nil => rfl
  | cons producer others induction =>
      rw [List.flatMap_cons, induction]
      cases found : producer.outputIndex? link.fromSocket with
      | none => simp [linkEdge?_eq, found]
      | some outSocket =>
          simp [linkEdge?_eq, found, endsOf, List.map_filterMap]

theorem mem_identifiers_of_outputIndex? {node : Node} {identifier : String} {socket : Nat}
    (found : node.outputIndex? identifier = some socket) :
    identifier ∈ Socket.identifiers node.outputs := by
  rcases List.findIdx?_eq_some_iff_getElem.mp found with ⟨inside, matched, -⟩
  exact List.mem_map.mpr ⟨_, List.getElem_mem inside, beq_iff_eq.mp matched⟩

/-- A link starts at one place at most. -/
theorem Distinguished.startsOf {names : List String} {graph : Graph}
    (distinguished : Distinguished names graph) (link : Authored.Link) :
    startsOf graph link = [] ∨ ∃ start, startsOf graph link = [start] := by
  have disjoint : (nodesNamed graph link.fromNode).Pairwise fun first second =>
      (Socket.identifiers first.outputs).Disjoint (Socket.identifiers second.outputs) := by
    refine ((List.pairwise_map.mp distinguished.apart).filter _).imp_of_mem ?_
    intro first second firstMember secondMember apart
    have firstName := beq_iff_eq.mp (List.mem_filter.mp firstMember).2
    have secondName := beq_iff_eq.mp (List.mem_filter.mp secondMember).2
    exact apart (firstName.trans secondName.symm)
  have alone : (Assembly.startsOf graph link).Pairwise fun _ _ => False := by
    refine List.Pairwise.filterMap _ ?_ disjoint
    intro first second apart start isStart next isNext
    rcases Option.map_eq_some_iff.mp isStart with ⟨_, found, -⟩
    rcases Option.map_eq_some_iff.mp isNext with ⟨_, alsoFound, -⟩
    exact apart (mem_identifiers_of_outputIndex? found) (mem_identifiers_of_outputIndex? alsoFound)
  rcases starts : Assembly.startsOf graph link with _ | ⟨start, _ | ⟨next, others⟩⟩
  · exact Or.inl rfl
  · exact Or.inr ⟨start, rfl⟩
  · rw [starts, List.pairwise_cons] at alone
    exact absurd (alone.1 next List.mem_cons_self) id

theorem contains_of_mem_linkEdges {graph : Graph} {link : Authored.Link} {edge : Edge}
    (member : edge ∈ linkEdges graph link) :
    graph.contains edge.source = true ∧ graph.contains edge.target = true := by
  rcases mem_linkEdges member with ⟨⟨_, source, -⟩, ⟨_, target, -⟩⟩
  exact ⟨contains_of_node? source, contains_of_node? target⟩

/-- Some node carries the name at each end of a link. -/
def Known (graph : Graph) (link : Authored.Link) : Prop :=
  nodesNamed graph link.fromNode ≠ [] ∧ nodesNamed graph link.toNode ≠ []

/-- The name at an end of a link that no node carries; the start comes first. -/
def missing? (graph : Graph) (link : Authored.Link) : Option String :=
  if nodesNamed graph link.fromNode = [] then some link.fromNode
  else if nodesNamed graph link.toNode = [] then some link.toNode
  else none

/-- No name is missing exactly if nodes of both names are there. -/
theorem missing?_eq_none_iff {graph : Graph} {link : Authored.Link} :
    missing? graph link = none ↔ Known graph link := by
  rw [missing?, Known]
  by_cases noStart : nodesNamed graph link.fromNode = []
  · simp [noStart]
  · simp [noStart]

theorem addLink_eq (graph : Graph) (link : Authored.Link) :
    addLink graph link =
      match missing? graph link with
      | some name => .error (.unknownNode name)
      | none => .ok (graph.addEdges (linkEdges graph link)) := by
  rw [addLink, missing?]
  by_cases noStart : nodesNamed graph link.fromNode = []
  · simp [noStart]
  · by_cases noEnd : nodesNamed graph link.toNode = []
    · simp [noStart, noEnd]
    · simp [noStart, noEnd]

theorem nodesNamed_addEdges (graph : Graph) (edges : List Edge) :
    nodesNamed (graph.addEdges edges) = nodesNamed graph := by
  funext name
  rw [nodesNamed, nodes_addEdges]
  rfl

theorem linkEdges_addEdges (graph : Graph) (edges : List Edge) :
    linkEdges (graph.addEdges edges) = linkEdges graph := by
  funext link
  rw [linkEdges, nodesNamed_addEdges]
  rfl

theorem missing?_addEdges (graph : Graph) (edges : List Edge) :
    missing? (graph.addEdges edges) = missing? graph := by
  funext link
  rw [missing?, nodesNamed_addEdges]
  rfl

/-- Links are added together, unless one of them misses a name. -/
theorem addLinks_eq (links : List Authored.Link) (graph : Graph) :
    addLinks links graph =
      match links.findSome? (missing? graph) with
      | some name => .error (.unknownNode name)
      | none => .ok (graph.addEdges (links.flatMap (linkEdges graph))) := by
  induction links generalizing graph with
  | nil => rfl
  | cons link others induction =>
      rw [addLinks, addLink_eq, List.findSome?_cons]
      cases missing? graph link with
      | some name => rfl
      | none =>
          have added : ∀ more, (graph.addEdges (linkEdges graph link)).addEdges more =
              graph.addEdges (linkEdges graph link ++ more) :=
            fun more => List.foldl_append.symm
          dsimp only
          rw [induction, missing?_addEdges, linkEdges_addEdges, added, List.flatMap_cons]

/-- The edges of a graph are those of its links, one link after the other. -/
theorem addLinks_eq_ok_iff {links : List Authored.Link} {graph result : Graph} :
    addLinks links graph = .ok result ↔
      (∀ link ∈ links, Known graph link) ∧
        graph.addEdges (links.flatMap (linkEdges graph)) = result := by
  have known : links.findSome? (missing? graph) = none ↔ ∀ link ∈ links, Known graph link := by
    simp only [List.findSome?_eq_none_iff, missing?_eq_none_iff]
  rw [addLinks_eq, ← known]
  cases links.findSome? (missing? graph) with
  | some name => simp
  | none => simp

/-- A tree is built exactly if its nodes are and each of its links names nodes at both ends. -/
theorem build_eq_ok_iff {tree : Authored.Tree} {supply : NameSupply} {built : Graph} :
    (build tree supply).1 = .ok built ↔
      ∃ scaffold, (addNodes tree.nodes .empty supply).1 = .ok scaffold ∧
        (∀ link ∈ tree.links, Known scaffold link) ∧
          scaffold.addEdges (tree.links.flatMap (linkEdges scaffold)) = built := by
  rw [build]
  rcases addNodes tree.nodes .empty supply with ⟨_ | scaffold, drawn⟩
  · simp
  · simp [addLinks_eq_ok_iff]

end Assembly

end NodeMaterial
