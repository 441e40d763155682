import NodeMaterial.Proofs.Elimination
import NodeMaterial.Proofs.Order

/-!
# Elimination resolves chains

Reroutes and replace groups hand on what one edge brings.  Where an output really
comes from is found by going back through such nodes until another node is met.
Elimination takes these nodes out one by one, in an order that has nothing to do with
the wiring.  Still every input ends up with exactly the origins of the edges that led
to it, as often as edges led to it.

One resolution serves all graphs that an elimination goes through: taking a node out
changes no origin, so the arrivals of each input stay what they were.
-/

namespace NodeMaterial

/-- Whether elimination takes out the nodes of a kind. -/
def Kind.isBypassed : Kind → Bool
  | .reroute => true
  | .group .replace => true
  | _ => false

namespace Graph

variable {graph other : Graph} {origin : NodeId × Nat → Option (NodeId × Nat)}

/-! ## Where outputs come from -/

/-- The target hands on what the edge brings. -/
def HandedOn (graph : Graph) (edge : Edge) : Prop :=
  ∃ node, graph.node? edge.target = some node ∧
    (node.kind = .reroute ∨ node.kind = .group .replace ∧ edge.inSocket = 1)

instance (graph : Graph) (edge : Edge) : Decidable (graph.HandedOn edge) :=
  inferInstanceAs (Decidable (∃ node ∈ graph.node? edge.target,
    node.kind = .reroute ∨ node.kind = .group .replace ∧ edge.inSocket = 1))

/-- All that a node hands on comes from one output. -/
def SingleFed (graph : Graph) : Prop :=
  ∀ first ∈ graph.edges, ∀ second ∈ graph.edges,
    graph.HandedOn first → graph.HandedOn second → first.target = second.target →
      first.start = second.start

instance (graph : Graph) : Decidable graph.SingleFed :=
  inferInstanceAs (Decidable (∀ first ∈ graph.edges, ∀ second ∈ graph.edges,
    graph.HandedOn first → graph.HandedOn second → first.target = second.target →
      first.start = second.start))

/-- The edge that a node hands on. -/
def handedEdge? (graph : Graph) (node : Node) : Option Edge :=
  match node.kind with
  | .reroute => (graph.inEdges node.id).head?
  | .group .replace => graph.feed? node.id 1
  | _ => none

/-- The origin of an output, if it is found in so many steps. -/
def resolveWithin (graph : Graph) : Nat → NodeId × Nat → Option (NodeId × Nat)
  | 0, _ => none
  | steps + 1, output =>
      match graph.node? output.1 with
      | none => some output
      | some node =>
          if node.kind.isBypassed then
            (graph.handedEdge? node).bind fun edge => graph.resolveWithin steps edge.start
          else
            some output

/-- The origin of an output: a chain passes each node of the graph at most once. -/
def resolve (graph : Graph) : NodeId × Nat → Option (NodeId × Nat) :=
  graph.resolveWithin graph.nodeCount

/-- What it means that a function gives the origins of the outputs of a graph. -/
structure Resolves (graph : Graph) (origin : NodeId × Nat → Option (NodeId × Nat)) : Prop where
  kept : ∀ id node, graph.node? id = some node → node.kind.isBypassed = false →
    ∀ socket, origin (id, socket) = some (id, socket)
  handed : ∀ edge ∈ graph.edges, graph.HandedOn edge →
    ∀ socket, origin (edge.target, socket) = origin edge.start
  unfed : ∀ id node, graph.node? id = some node → node.kind.isBypassed = true →
    (∀ edge ∈ graph.edges, edge.target = id → ¬ graph.HandedOn edge) →
    ∀ socket, origin (id, socket) = none

theorem isBypassed_of_handedOn
    {edge : Edge} {node : Node} (handedOn : graph.HandedOn edge)
    (found : graph.node? edge.target = some node) :
    node.kind.isBypassed = true := by
  rcases handedOn with ⟨other, otherFound, kind⟩
  cases found.symm.trans otherFound
  rcases kind with kind | ⟨kind, -⟩ <;> simp [kind, Kind.isBypassed]

/-- The edge that a node hands on ends at the node, at a socket that is handed on. -/
theorem handedOn_of_handedEdge?
    {id : NodeId} {node : Node} {edge : Edge} (found : graph.node? id = some node)
    (handed : graph.handedEdge? node = some edge) :
    edge ∈ graph.edges ∧ edge.target = id ∧ graph.HandedOn edge := by
  have sameId := id_of_node? found
  rw [handedEdge?, sameId] at handed
  split at handed
  · rename_i kind
    rcases head?_inEdges_fed edge handed with ⟨member, target⟩
    exact ⟨member, target, node, target ▸ found, Or.inl kind⟩
  · rename_i kind
    rcases feed?_fed edge handed with ⟨member, target⟩
    have second : edge.inSocket = 1 := by simpa using List.find?_some handed
    exact ⟨member, target, node, target ▸ found, Or.inr ⟨kind, second⟩⟩
  · cases handed

theorem not_handedOn_of_handedEdge?
    {id : NodeId} {node : Node} (found : graph.node? id = some node)
    (handed : graph.handedEdge? node = none) {edge : Edge} (member : edge ∈ graph.edges)
    (target : edge.target = id) :
    ¬ graph.HandedOn edge := by
  rintro ⟨other, otherFound, kind⟩
  rw [target] at otherFound
  cases found.symm.trans otherFound
  have entering : edge ∈ graph.inEdges id := mem_inEdges.mpr ⟨member, target⟩
  rw [handedEdge?, id_of_node? found] at handed
  rcases kind with kind | ⟨kind, second⟩
  · rw [kind] at handed
    rw [List.head?_eq_none_iff.mp handed] at entering
    simp at entering
  · rw [kind] at handed
    exact absurd (List.find?_eq_none.mp handed edge entering) (by simp [second])

/-- Enough steps are as good as more. -/
theorem resolveWithin_succ
    (closed : graph.Closed) {order : List NodeId} (ordered : graph.topologicalOrder = .ok order)
    {steps : Nat} {output : NodeId × Nat} (enough : order.idxOf output.1 < steps) :
    graph.resolveWithin (steps + 1) output = graph.resolveWithin steps output := by
  induction steps generalizing output with
  | zero => exact absurd enough (Nat.not_lt_zero _)
  | succ steps induction =>
      rw [resolveWithin, resolveWithin]
      cases found : graph.node? output.1 with
      | none => rfl
      | some node =>
          dsimp only
          split
          · cases handed : graph.handedEdge? node with
            | none => rfl
            | some edge =>
                rcases handedOn_of_handedEdge? found handed with ⟨member, target, -⟩
                have placed : edge.target ∈ order :=
                  (closed.topologicalOrder_perm ordered).mem_iff.mpr
                    (mem_nodeIds.mpr (target ▸ contains_of_node? found))
                have earlier := (forward_of_ordered ordered member placed).2
                rw [target] at earlier
                exact induction (show order.idxOf edge.source < steps by lia)
          · rfl

/-- The origin of an output is found in one step less from the edge that is handed on. -/
theorem Acyclic.resolve_eq
    (acyclic : graph.Acyclic) (closed : graph.Closed) {id : NodeId} {node : Node}
    (found : graph.node? id = some node) (socket : Nat) :
    graph.resolve (id, socket) =
      if node.kind.isBypassed then
        (graph.handedEdge? node).bind fun edge => graph.resolve edge.start
      else
        some (id, socket) := by
  rcases acyclic.exists_order closed.sources with ⟨order, ordered, placed⟩
  have length : order.length = graph.nodeCount := by
    rw [(closed.topologicalOrder_perm ordered).length_eq, nodeIds, List.length_map]
    rfl
  have enough : order.idxOf id < graph.nodeCount :=
    length ▸ List.idxOf_lt_length_of_mem (placed id (contains_of_node? found))
  rw [Graph.resolve, ← resolveWithin_succ closed ordered enough, resolveWithin]
  simp only [found]

/-- Following edges backwards through bypassed nodes ends, so every output has its origin. -/
theorem Acyclic.resolves
    (acyclic : graph.Acyclic) (closed : graph.Closed) (singleFed : graph.SingleFed) :
    graph.Resolves graph.resolve where
  kept id node found kind socket := by
    rw [acyclic.resolve_eq closed found, if_neg (by simp [kind])]
  handed edge member handedOn socket := by
    rcases contains_iff.mp (closed.targets edge member) with ⟨node, found⟩
    rw [acyclic.resolve_eq closed found, if_pos (isBypassed_of_handedOn handedOn found)]
    cases handed : graph.handedEdge? node with
    | none => exact absurd handedOn (not_handedOn_of_handedEdge? found handed member rfl)
    | some first =>
        rcases handedOn_of_handedEdge? found handed with ⟨firstMember, target, firstHandedOn⟩
        rw [Option.bind_some,
          singleFed first firstMember edge member firstHandedOn handedOn target]
  unfed id node found kind nothing socket := by
    rw [acyclic.resolve_eq closed found, if_pos kind]
    cases handed : graph.handedEdge? node with
    | none => rfl
    | some edge =>
        rcases handedOn_of_handedEdge? found handed with ⟨member, target, handedOn⟩
        exact absurd handedOn (nothing edge member target)

/-! ## Arrivals -/

/-- How many edges bring an input what an output gives. -/
def arrivals (graph : Graph) (origin : NodeId × Nat → Option (NodeId × Nat))
    (id : NodeId) (inSocket : Nat) (output : NodeId × Nat) : Nat :=
  (graph.inEdges id).countP fun edge =>
    edge.inSocket == inSocket && origin edge.start == some output

/-- Arrivals at an input, counted among all edges. -/
theorem arrivals_eq_countP (graph : Graph) (id : NodeId) (inSocket : Nat)
    (output : NodeId × Nat) :
    graph.arrivals origin id inSocket output =
      graph.edges.countP fun edge =>
        (edge.inSocket == inSocket && origin edge.start == some output) &&
          edge.target == id := by
  rw [arrivals, inEdges_eq_filter, List.countP_filter]

/-- Where nothing is bypassed any longer, arrivals are occurrences. -/
theorem Resolves.arrivals_eq_multiplicity
    (resolves : graph.Resolves origin) (closed : graph.Closed)
    (done : ∀ id node, graph.node? id = some node → node.kind.isBypassed = false)
    (edge : Edge) :
    graph.arrivals origin edge.target edge.inSocket edge.start = graph.multiplicity edge := by
  have counted : graph.multiplicity edge = graph.edges.count edge :=
    EdgeBag.multiplicity_eq_count graph.bag edge
  rw [counted, arrivals_eq_countP, List.count_eq_countP]
  apply List.countP_congr
  intro occurring member
  rcases contains_iff.mp (closed.sources occurring member) with ⟨node, found⟩
  have self : origin occurring.start = some occurring.start :=
    resolves.kept _ node found (done _ node found) occurring.outSocket
  rw [self]
  cases edge
  cases occurring
  simp only [Edge.start, Bool.and_eq_true, beq_iff_eq, Option.some.injEq, Prod.mk.injEq,
    Edge.mk.injEq]
  tauto

/-! ## Taking a node out -/

/-- The edge that a node hands on, if there is one, comes from another node. -/
structure Hands (graph : Graph) (id : NodeId) (feed : Option Edge) : Prop where
  kind : ∀ node, graph.node? id = some node → node.kind.isBypassed = true
  away : ∀ start ∈ feed, start.source ≠ id
  member : ∀ start ∈ feed, start ∈ graph.edges
  target : ∀ start ∈ feed, start.target = id
  handedOn : ∀ start ∈ feed, graph.HandedOn start
  unfed : feed = none → ∀ edge ∈ graph.edges, edge.target = id → ¬ graph.HandedOn edge

/-- An edge cannot feed the node that it leaves. -/
theorem Acyclic.source_ne
    (acyclic : graph.Acyclic) (closed : graph.Closed) {edge : Edge} (member : edge ∈ graph.edges) :
    edge.source ≠ edge.target :=
  acyclic.source_ne_target member (closed.sources edge member)

/-- In a graph without cycles a node hands on what comes from elsewhere. -/
theorem Acyclic.hands
    (acyclic : graph.Acyclic) (closed : graph.Closed) {id : NodeId} {node : Node}
    (found : graph.node? id = some node) (kind : node.kind.isBypassed = true) :
    graph.Hands id (graph.handedEdge? node) where
  kind := by
    intro other otherFound
    cases found.symm.trans otherFound
    exact kind
  away start starts := by
    rcases handedOn_of_handedEdge? found starts with ⟨member, target, -⟩
    exact target ▸ acyclic.source_ne closed member
  member start starts := (handedOn_of_handedEdge? found starts).1
  target start starts := (handedOn_of_handedEdge? found starts).2.1
  handedOn start starts := (handedOn_of_handedEdge? found starts).2.2
  unfed nothing _ member target := not_handedOn_of_handedEdge? found nothing member target

section Bypass

variable {id : NodeId} {feed : Option Edge}

/-- What leaves a node that hands on has the origin of what it hands on. -/
theorem Resolves.resolve_start
    (resolves : graph.Resolves origin) (closed : graph.Closed) (hands : graph.Hands id feed)
    {edge : Edge} (member : edge ∈ graph.edges) (source : edge.source = id) :
    origin edge.start = feed.bind fun start => origin start.start := by
  subst source
  cases feed with
  | none =>
      rcases contains_iff.mp (closed.sources edge member) with ⟨node, found⟩
      exact resolves.unfed _ node found (hands.kind node found) (hands.unfed rfl) edge.outSocket
  | some start =>
      have handed := resolves.handed start (hands.member start rfl) (hands.handedOn start rfl)
        edge.outSocket
      rwa [hands.target start rfl] at handed

theorem node?_bypass_of_ne {x : NodeId} (different : x ≠ id) :
    (graph.bypass id feed).node? x = graph.node? x := by
  rw [bypass, node?_withoutNode_of_ne _ different, node?_forward]

theorem Hands.mem_edges_bypass
    (hands : graph.Hands id feed) (closed : graph.Closed) {edge : Edge} :
    edge ∈ (graph.bypass id feed).edges ↔
      ∃ old ∈ graph.edges, redirect id feed old = some edge := by
  rw [(closed.edges_bypass hands.member hands.away).mem_iff, List.mem_filterMap]

/-- An edge that is left after a node is taken out was there or takes the place of one. -/
theorem eq_or_splice_of_redirect
    {old edge : Edge} (redirected : redirect id feed old = some edge) :
    old.target ≠ id ∧ edge.target = old.target ∧ edge.inSocket = old.inSocket ∧
      (old = edge ∨ old.source = id ∧ ∃ start ∈ feed, edge.start = start.start) := by
  by_cases target : old.target = id
  · rw [redirect_of_target feed target] at redirected
    cases redirected
  · by_cases source : old.source = id
    · rw [redirect_of_source feed target source, Option.map_eq_some_iff] at redirected
      rcases redirected with ⟨start, isFeed, rfl⟩
      exact ⟨target, rfl, rfl, Or.inr ⟨source, start, isFeed, rfl⟩⟩
    · rw [redirect_of_away feed target source, Option.some.injEq] at redirected
      subst redirected
      exact ⟨target, rfl, rfl, Or.inl rfl⟩

theorem handedOn_bypass_iff
    {edge old : Edge} (different : old.target ≠ id) (target : edge.target = old.target)
    (inSocket : edge.inSocket = old.inSocket) :
    (graph.bypass id feed).HandedOn edge ↔ graph.HandedOn old := by
  rw [HandedOn, HandedOn, target, inSocket, node?_bypass_of_ne different]

/-- Taking a node out changes no origin. -/
theorem Resolves.bypass
    (resolves : graph.Resolves origin) (closed : graph.Closed) (hands : graph.Hands id feed) :
    (graph.bypass id feed).Resolves origin where
  kept x node found kind socket :=
    resolves.kept x node (node?_bypass_eq_some_iff.mp found).2 kind socket
  handed edge member handedOn socket := by
    rcases (hands.mem_edges_bypass closed).mp member with ⟨old, oldMember, redirected⟩
    rcases eq_or_splice_of_redirect redirected with ⟨away, target, inSocket, came⟩
    have oldHandedOn := (handedOn_bypass_iff away target inSocket).mp handedOn
    rw [target, resolves.handed old oldMember oldHandedOn socket]
    rcases came with rfl | ⟨source, start, isFeed, sameStart⟩
    · rfl
    · rw [resolves.resolve_start closed hands oldMember source, sameStart, isFeed, Option.bind_some]
  unfed x node found kind nothing socket := by
    rcases node?_bypass_eq_some_iff.mp found with ⟨away, oldFound⟩
    by_cases fed : ∃ edge ∈ graph.edges, edge.target = x ∧ graph.HandedOn edge
    · rcases fed with ⟨edge, member, rfl, handedOn⟩
      rw [resolves.handed edge member handedOn socket]
      -- An edge that is left would be handed on, so this one came from the node and is gone.
      have gone : redirect id feed edge = none := by
        by_contra left
        rcases Option.ne_none_iff_exists'.mp left with ⟨new, redirected⟩
        rcases eq_or_splice_of_redirect redirected with ⟨-, target, inSocket, -⟩
        refine nothing new ((hands.mem_edges_bypass closed).mpr ⟨edge, member, redirected⟩)
          target ?_
        exact (handedOn_bypass_iff away target inSocket).mpr handedOn
      by_cases source : edge.source = id
      · rw [redirect_of_source feed away source, Option.map_eq_none_iff] at gone
        rw [resolves.resolve_start closed hands member source, gone]
        rfl
      · rw [redirect_of_away feed away source] at gone
        cases gone
    · refine resolves.unfed x node oldFound kind (fun edge member target handedOn => ?_) socket
      exact fed ⟨edge, member, target, handedOn⟩

/-- Taking a node out keeps what arrives at all others, and how often. -/
theorem Resolves.arrivals_bypass
    (resolves : graph.Resolves origin) (closed : graph.Closed) (hands : graph.Hands id feed)
    {x : NodeId} (different : x ≠ id) (inSocket : Nat) (output : NodeId × Nat) :
    (graph.bypass id feed).arrivals origin x inSocket output =
      graph.arrivals origin x inSocket output := by
  rw [arrivals_eq_countP, arrivals_eq_countP,
    (closed.edges_bypass hands.member hands.away).countP_eq, List.countP_filterMap]
  apply List.countP_congr
  intro edge member
  by_cases target : edge.target = id
  · simp [redirect_of_target feed target, target, different.symm]
  · by_cases source : edge.source = id
    · rw [redirect_of_source feed target source,
        resolves.resolve_start closed hands member source]
      cases feed with
      | none => simp
      | some start => simp [splice, Edge.start]
    · simp [redirect_of_away feed target source]

end Bypass

/-! ## Inlining and pruning -/

/-- Nodes that keep their kinds and the edges that enter them keep their origins. -/
theorem Resolves.of_entering
    (resolves : graph.Resolves origin) (kinds : other.KeepsKinds graph)
    (entering : ∀ id node, other.node? id = some node → node.kind.isBypassed = true →
      (other.inEdges id).Perm (graph.inEdges id)) :
    other.Resolves origin := by
  have handedOn_iff : ∀ edge node, other.node? edge.target = some node →
      (other.HandedOn edge ↔ graph.HandedOn edge) := by
    intro edge node found
    rcases kinds edge.target node found with ⟨old, oldFound, sameKind⟩
    simp [HandedOn, found, oldFound, sameKind]
  constructor
  · intro id node found kind
    rcases kinds id node found with ⟨old, oldFound, sameKind⟩
    exact resolves.kept id old oldFound (sameKind ▸ kind)
  · intro edge member handedOn
    rcases handedOn with ⟨node, found, handing⟩
    have isHanded : other.HandedOn edge := ⟨node, found, handing⟩
    have same := entering _ node found (isBypassed_of_handedOn isHanded found)
    have old := (same.mem_iff.mp (mem_inEdges.mpr ⟨member, rfl⟩))
    exact resolves.handed edge (mem_inEdges.mp old).1 ((handedOn_iff edge node found).mp isHanded)
  · intro id node found kind nothing
    rcases kinds id node found with ⟨old, oldFound, sameKind⟩
    refine resolves.unfed id old oldFound (sameKind ▸ kind) fun edge member target handedOn => ?_
    have new := (entering id node found kind).mem_iff.mpr (mem_inEdges.mpr ⟨member, target⟩)
    refine nothing edge (mem_inEdges.mp new).1 target ?_
    exact (handedOn_iff edge node (target ▸ found)).mpr handedOn

theorem inEdges_plugTexture
    {id x : NodeId} {texture : Node} (different : x ≠ id)
    (present : (graph.plugTexture id texture).contains x = true) :
    (graph.plugTexture id texture).inEdges x = graph.inEdges x := by
  have unplugged : ((graph.modifyNode id (takeTexture texture)).unplugHeight texture.id
      id).inEdges x = graph.inEdges x := by
    rw [inEdges_eq_filter, inEdges_eq_filter, unplugHeight_eq, edges_filterEdges, edges_modifyNode,
      List.filter_filter]
    apply List.filter_congr
    intro edge _
    by_cases target : edge.target = x <;> simp [target, different]
  rw [plugTexture, removeIfUnread] at present ⊢
  split
  · rename_i unread
    rw [if_pos unread] at present
    have away := (contains_withoutNode.mp present).1
    rw [inEdges_eq_filter, ← unplugged, inEdges_eq_filter]
    by_cases texturePresent :
        ((graph.modifyNode id (takeTexture texture)).unplugHeight texture.id id).contains
          texture.id = true
    · rw [edges_withoutNode texturePresent, List.filter_filter]
      apply List.filter_congr
      intro edge member
      have notRead : edge.source ≠ texture.id := by
        intro source
        have leaving := mem_outEdges.mpr ⟨member, source⟩
        rw [List.isEmpty_iff.mp unread] at leaving
        simp at leaving
      by_cases target : edge.target = x <;> simp [target, Edge.touches, notRead, away]
    · rw [withoutNode, if_neg texturePresent]
  · exact unplugged

theorem inEdges_dropSecondInput {id x : NodeId} (different : x ≠ id) :
    ((graph.dropSecondInput id).inEdges x).Perm (graph.inEdges x) := by
  rcases dropSecondInput_cases graph id with same | ⟨node, found, several, dropped⟩
  · rw [same]
  · rw [dropped, inEdges_eq_filter, inEdges_eq_filter]
    refine ((edges_addEdges _ _).filter _).trans ?_
    have shifted : (graph.shiftedEdges id).filter (·.target == x) = [] := by
      rw [List.filter_eq_nil_iff]
      intro edge member
      rcases mem_shiftedEdges.mp member with ⟨old, -, target, -, rfl⟩
      simp [shiftDown, target, different.symm]
    rw [List.filter_append, shifted, List.append_nil, edges_modifyNode, unplugLater,
      edges_filterEdges, List.filter_filter]
    refine List.Perm.of_eq (List.filter_congr fun edge _ => ?_)
    by_cases target : edge.target = x <;> simp [target, different]

/-- Inlining a height map changes only what enters the node itself. -/
theorem inEdges_inlineHeight
    {id x : NodeId} {result : Graph} (inlined : graph.inlineHeight id = (result, none))
    (different : x ≠ id) (present : result.contains x = true) :
    (result.inEdges x).Perm (graph.inEdges x) := by
  rcases inlineHeight_cases inlined with rfl | ⟨_, texture, -, -, rfl⟩
  · exact inEdges_dropSecondInput different
  · have before := (keepsKinds_dropSecondInput _ id).present x present
    rw [← inEdges_plugTexture different before]
    exact inEdges_dropSecondInput different

/-- What enters a live node is live. -/
theorem inEdges_retain_ancestors
    (closed : graph.Closed) {root x : NodeId} (kept : x ∈ graph.ancestors root) :
    (graph.retain (graph.ancestors root)).inEdges x = graph.inEdges x := by
  have retained : (graph.retain (graph.ancestors root)).edges =
      graph.edges.filter fun edge =>
        (graph.ancestors root).contains edge.source &&
          (graph.ancestors root).contains edge.target :=
    EdgeBag.occurrences_filter graph.bag _
  rw [inEdges_eq_filter, inEdges_eq_filter, retained, List.filter_filter]
  apply List.filter_congr
  intro edge member
  by_cases target : edge.target = x
  · rcases mem_ancestors.mp kept with ⟨rootPresent, path⟩
    have step : graph.Step edge.source x :=
      ⟨closed.sources edge member, target ▸ closed.targets edge member, edge, member, rfl, target⟩
    have sourceKept := mem_ancestors.mpr ⟨rootPresent, path.head step⟩
    simp [target, kept, sourceKept]
  · simp [target]

/-! ## The whole elimination -/

/-- The arrivals of a graph on the way through an elimination are those of the first graph. -/
structure Tracks (origin : NodeId × Nat → Option (NodeId × Nat)) (graph current : Graph) :
    Prop where
  closed : current.Closed
  acyclic : current.Acyclic
  resolves : current.Resolves origin
  arrivals : ∀ id node, current.node? id = some node → node.kind ≠ .group .parallax →
    ∀ inSocket output,
      current.arrivals origin id inSocket output = graph.arrivals origin id inSocket output

section Tracks

variable {current result : Graph} {id : NodeId}

/-- Taking a node out keeps the arrivals of the first graph. -/
theorem Tracks.bypass
    (tracks : Tracks origin graph current) {feed : Option Edge} (hands : current.Hands id feed) :
    Tracks origin graph (current.bypass id feed) where
  closed := tracks.closed.bypass id hands.member
  acyclic := tracks.acyclic.bypass tracks.closed.sources fun start starts =>
    ⟨hands.member start starts, hands.target start starts⟩
  resolves := tracks.resolves.bypass tracks.closed hands
  arrivals x node found kind inSocket output := by
    rcases node?_bypass_eq_some_iff.mp found with ⟨different, oldFound⟩
    rw [tracks.resolves.arrivals_bypass tracks.closed hands different]
    exact tracks.arrivals x node oldFound kind inSocket output

/-- A change that leaves the edges into all but parallax groups alone keeps the arrivals. -/
theorem Tracks.of_entering
    (tracks : Tracks origin graph current) (kinds : result.KeepsKinds current)
    (closed : result.Closed) (acyclic : result.Acyclic)
    (entering : ∀ id node, result.node? id = some node → node.kind ≠ .group .parallax →
      (result.inEdges id).Perm (current.inEdges id)) :
    Tracks origin graph result where
  closed := closed
  acyclic := acyclic
  resolves := by
    apply tracks.resolves.of_entering kinds
    intro id node found kind
    apply entering id node found
    intro parallax
    simp [parallax, Kind.isBypassed] at kind
  arrivals x node found kind inSocket output := by
    rcases kinds x node found with ⟨old, oldFound, sameKind⟩
    rw [Graph.arrivals, (entering x node found kind).countP_eq]
    exact tracks.arrivals x old oldFound (sameKind ▸ kind) inSocket output

theorem Tracks.inlineHeight
    (tracks : Tracks origin graph current)
    (kind : ∀ node, current.node? id = some node → node.kind = .group .parallax)
    (inlined : current.inlineHeight id = (result, none)) :
    Tracks origin graph result := by
  have kinds := keepsKinds_inlineHeight inlined
  apply tracks.of_entering kinds (tracks.closed.inlineHeight inlined)
  · exact tracks.acyclic.of_parallel kinds.present fun edge => parallel_inlineHeight inlined
  · intro x node found notParallax
    refine inEdges_inlineHeight inlined ?_ (contains_of_node? found)
    rintro rfl
    rcases kinds x node found with ⟨old, oldFound, sameKind⟩
    exact notParallax (sameKind ▸ kind old oldFound)

/-- Pruning keeps all edges into the nodes that it keeps. -/
theorem Tracks.prune
    (tracks : Tracks origin graph current) {count : Nat}
    (pruned : current.prune = .ok (result, count)) :
    Tracks origin graph result := by
  rcases prune_eq pruned with ⟨output, -, rfl⟩
  apply tracks.of_entering
  · exact keepsKinds_of_nodes fun _ _ found => (node?_retain_eq_some_iff.mp found).2
  · exact tracks.closed.retain _
  · exact tracks.acyclic.retain _
  · intro x node found _
    rw [inEdges_retain_ancestors tracks.closed (node?_retain_eq_some_iff.mp found).1]

end Tracks

theorem Closed.hands_of_absent
    (closed : graph.Closed) {id : NodeId} {feed : Option Edge} (absent : graph.node? id = none)
    (fed : ∀ start ∈ feed, start ∈ graph.edges ∧ start.target = id) :
    graph.Hands id feed := by
  have nothing : ∀ edge ∈ graph.edges, edge.target ≠ id := by
    rintro edge member rfl
    rcases contains_iff.mp (closed.targets edge member) with ⟨node, found⟩
    rw [absent] at found
    cases found
  have unfed : ∀ start, start ∉ feed := fun start starts =>
    nothing start (fed start starts).1 (fed start starts).2
  exact ⟨by simp [absent], fun start starts => absurd starts (unfed start),
    fun start starts => absurd starts (unfed start),
    fun start starts => absurd starts (unfed start),
    fun start starts => absurd starts (unfed start),
    fun _ edge member target => absurd target (nothing edge member)⟩

/-- A node that is not there hands on nothing, any other the edge that it hands on. -/
theorem Tracks.bypass_of_kind
    {current : Graph} (tracks : Tracks origin graph current) {id : NodeId} {feed : Option Edge}
    (fed : ∀ start ∈ feed, start ∈ current.edges ∧ start.target = id)
    (handed : ∀ node, current.node? id = some node →
      node.kind.isBypassed = true ∧ current.handedEdge? node = feed) :
    Tracks origin graph (current.bypass id feed) := by
  apply tracks.bypass
  cases found : current.node? id with
  | none => exact tracks.closed.hands_of_absent found fed
  | some node =>
      rcases handed node found with ⟨kind, rfl⟩
      exact tracks.acyclic.hands tracks.closed found kind

/-- The whole elimination keeps the arrivals at all nodes but parallax groups. -/
theorem Tracks.eliminate (tracks : Tracks origin graph graph) :
    Tracks origin graph graph.eliminate.graph := by
  apply eliminate_induction (Tracks origin graph) tracks
  · intro current id kind currentTracks
    apply currentTracks.bypass_of_kind head?_inEdges_fed
    intro node found
    rw [handedEdge?, kind node found, id_of_node? found]
    exact ⟨rfl, rfl⟩
  · intro current id kind currentTracks
    apply currentTracks.bypass_of_kind feed?_fed
    intro node found
    rw [handedEdge?, kind node found, id_of_node? found]
    exact ⟨rfl, rfl⟩
  · intro current id result kind inlined currentTracks
    exact currentTracks.inlineHeight kind inlined
  · intro current pruned count done currentTracks
    exact currentTracks.prune done

/-- Nodes that are taken out one after the other are gone. -/
theorem node?_foldl_bypass
    (feed : Graph → NodeId → Option Edge) (ids : List NodeId) (graph : Graph)
    {x : NodeId} {node : Node}
    (found : (ids.foldl (fun current id => current.bypass id (feed current id)) graph).node? x =
      some node) :
    x ∉ ids ∧ graph.node? x = some node := by
  induction ids generalizing graph with
  | nil => exact ⟨by simp, found⟩
  | cons id others induction =>
      rcases induction _ found with ⟨notLater, middle⟩
      rcases node?_bypass_eq_some_iff.mp middle with ⟨different, old⟩
      exact ⟨by simp [different, notLater], old⟩

theorem keepsKinds_inlineHeights (ids : List NodeId) (graph : Graph) :
    (inlineHeights ids graph).1.KeepsKinds graph := by
  induction ids generalizing graph with
  | nil => exact KeepsKinds.refl graph
  | cons id others induction =>
      rw [inlineHeights]
      split
      · rename_i result inlined
        exact (induction result).trans (keepsKinds_inlineHeight inlined)
      · rename_i failed
        rw [inlineHeight_failed failed]
        exact KeepsKinds.refl graph

theorem mem_idsOfKind {id : NodeId} {node : Node} (found : graph.node? id = some node) :
    id ∈ graph.idsOfKind node.kind := by
  rw [idsOfKind, List.mem_map]
  refine ⟨node, List.mem_filter.mpr ⟨mem_nodes_of_node? found, by simp⟩, id_of_node? found⟩

/-- No node that hands on is left by an elimination, even by one that fails. -/
theorem isBypassed_rewired {id : NodeId} {node : Node}
    (found : graph.rewired.node? id = some node) : node.kind.isBypassed = false := by
  rcases keepsKinds_inlineHeights _ _ id node found with ⟨selected, selectedFound, sameKind⟩
  rw [fst_bypassSelectors] at selectedFound
  rcases node?_foldl_bypass (fun current id => current.feed? id 1) _ _ selectedFound with
    ⟨notSelector, rerouted⟩
  rcases node?_foldl_bypass (fun current id => (current.inEdges id).head?) _ _ rerouted with
    ⟨notReroute, old⟩
  have listed := mem_idsOfKind old
  rw [← sameKind]
  cases kind : selected.kind with
  | reroute => exact absurd (kind ▸ listed) notReroute
  | group variant =>
      cases variant with
      | replace => exact absurd (kind ▸ listed) notSelector
      | _ => rfl
  | _ => rfl

/-- No node that is to be bypassed remains. -/
theorem isBypassed_eliminate {id : NodeId} {node : Node}
    (found : graph.eliminate.graph.node? id = some node) : node.kind.isBypassed = false := by
  rcases eliminate_cases graph with ⟨unpruned, -⟩ | ⟨_, pruned⟩
  · rw [unpruned] at found
    exact isBypassed_rewired found
  · rcases prune_eq pruned with ⟨output, -, prunedIs⟩
    rw [prunedIs] at found
    exact isBypassed_rewired (node?_retain_eq_some_iff.mp found).2

/--
On an acyclic graph in which each reroute and each second input of a replace group is
fed from one output, elimination leaves no reroute and no replace group, and each input
of any other node but a parallax group gets an edge from an output exactly as often as
edges led to it that resolve to that output.
-/
theorem elimination_resolves_chains
    (acyclic : graph.Acyclic) (closed : graph.Closed) (singleFed : graph.SingleFed) :
    graph.Resolves graph.resolve ∧
    (∀ node ∈ graph.eliminate.graph.nodes,
      node.kind ≠ .reroute ∧ node.kind ≠ .group .replace) ∧
    ∀ node ∈ graph.eliminate.graph.nodes, node.kind ≠ .group .parallax →
      ∀ source outSocket inSocket,
        graph.eliminate.graph.multiplicity ⟨source, node.id, outSocket, inSocket⟩ =
          graph.arrivals graph.resolve node.id inSocket (source, outSocket) := by
  have resolves := acyclic.resolves closed singleFed
  have start : Tracks graph.resolve graph graph :=
    ⟨closed, acyclic, resolves, fun _ _ _ _ _ _ => rfl⟩
  have tracks := start.eliminate
  refine ⟨resolves, ?_, ?_⟩
  · intro node member
    have kept := isBypassed_eliminate (node?_of_mem member)
    constructor <;> intro kind <;> simp [kind, Kind.isBypassed] at kept
  · intro node member kind source outSocket inSocket
    have counted := tracks.resolves.arrivals_eq_multiplicity tracks.closed
      (fun _ _ => isBypassed_eliminate) ⟨source, node.id, outSocket, inSocket⟩
    rw [← counted]
    exact tracks.arrivals node.id node (node?_of_mem member) kind inSocket (source, outSocket)

/--
A value reaches both inputs of the output through two reroutes and a replace group, which
stand in the graph against the direction of the wires; some wires are doubled.
-/
def crossedWires : Graph :=
  let socket (name : String) : Socket := { name, identifier := name }
  let output : Node :=
    { kind := .output, name := "out", inputs := [socket "Color", socket "Alpha"] }
  let reroute : Node :=
    { kind := .reroute, name := "dot", inputs := [socket "Input"], outputs := [socket "Output"] }
  let selector : Node :=
    { kind := .group .replace, name := "pick", inputs := [socket "Color1", socket "Color2"],
      outputs := [socket "Color"] }
  let value : Node := { kind := .value, name := "value", outputs := [socket "Value"] }
  (([output, reroute, selector, reroute, value, value].foldl withNode empty).addEdges
    [⟨4, 3, 0, 0⟩, ⟨4, 3, 0, 0⟩, ⟨5, 2, 0, 0⟩, ⟨3, 2, 0, 1⟩, ⟨2, 1, 0, 0⟩, ⟨1, 0, 0, 0⟩,
      ⟨1, 0, 0, 0⟩, ⟨2, 0, 0, 1⟩, ⟨3, 0, 0, 1⟩, ⟨5, 0, 0, 1⟩]).setOutput 0

/-- Both reroutes and the group go, and wires that were doubled arrive twice. -/
theorem elimination_resolves_crossedWires :
    crossedWires.Acyclic ∧ crossedWires.Closed ∧ crossedWires.SingleFed ∧
    crossedWires.resolve (1, 0) = some (4, 0) ∧
    crossedWires.eliminate.graph.nodeIds = [0, 4, 5] ∧
    crossedWires.eliminate.graph.multiplicity ⟨4, 0, 0, 0⟩ = 2 ∧
    crossedWires.eliminate.graph.multiplicity ⟨4, 0, 0, 1⟩ = 2 ∧
    crossedWires.eliminate.graph.multiplicity ⟨5, 0, 0, 1⟩ = 1 := by
  have acyclic : crossedWires.Acyclic := by decide +kernel
  have closed : crossedWires.Closed := by decide +kernel
  have singleFed : crossedWires.SingleFed := by decide +kernel
  have left : ∃ node ∈ crossedWires.eliminate.graph.nodes,
      node.id = 0 ∧ node.kind ≠ .group .parallax := by
    decide +kernel
  rcases left with ⟨node, member, isOutput, kind⟩
  have counted := (elimination_resolves_chains acyclic closed singleFed).2.2 node member kind
  rw [isOutput] at counted
  exact ⟨acyclic, closed, singleFed, by decide +kernel, by decide +kernel,
    (counted 4 0 0).trans (by decide +kernel), (counted 4 0 1).trans (by decide +kernel),
    (counted 5 0 1).trans (by decide +kernel)⟩

end Graph

end NodeMaterial
