import NodeMaterial.Proofs.Numbering
import NodeMaterial.Proofs.Resolution

/-!
# A reroute can be taken out early or late

Reroutes are taken out in the order of their numbers.  Taking out two of them in one
order or the other gives the same graph, if what each hands on is, seen through the
other, the same in both orders.  This is so for a reroute with the largest number that
is fed from one place, as long as each reroute that it feeds, directly or through
others, is fed from one place as well.  Such a reroute can therefore be taken out
before all others, and also before dead nodes are removed.
-/

namespace NodeMaterial.Graph

open Relation

variable {graph : Graph} {first second via : NodeId}

/-! ## Nodes after a reroute has been taken out -/

theorem nodes_bypass (graph : Graph) (id : NodeId) (feed : Option Edge) :
    (graph.bypass id feed).nodes = graph.nodes.filter (·.id != id) := by
  rw [bypass, nodes_withoutNode]
  cases feed with
  | none => rfl
  | some start => rw [forward, nodes_addEdges]

theorem nextId_bypass (graph : Graph) (id : NodeId) (feed : Option Edge) :
    (graph.bypass id feed).nextId = graph.nextId := by
  rw [bypass, nextId_withoutNode]
  cases feed with
  | none => rfl
  | some start => exact nextId_addEdges graph _

/-- Bypassing the output leaves the graph without one. -/
theorem output_bypass (graph : Graph) (id : NodeId) (feed : Option Edge) :
    (graph.bypass id feed).output =
      if graph.contains id = true ∧ graph.output = some id then none else graph.output := by
  rw [bypass, output_withoutNode]
  cases feed with
  | none => rfl
  | some start => rw [forward, contains_addEdges, output_addEdges]

theorem contains_bypassReroute_of_ne
    (graph : Graph) {id other : NodeId} (different : other ≠ id) :
    (graph.bypassReroute id).contains other = graph.contains other := by
  rw [Bool.eq_iff_iff, contains_iff, contains_iff, bypassReroute, node?_bypass_of_ne different]

theorem output_bypassReroute (graph : Graph) (id : NodeId) :
    (graph.bypassReroute id).output =
      if graph.contains id = true ∧ graph.output = some id then none else graph.output :=
  output_bypass graph id _

theorem nodes_bypassReroute (graph : Graph) (id : NodeId) :
    (graph.bypassReroute id).nodes = graph.nodes.filter (·.id != id) :=
  nodes_bypass graph id _

theorem nextId_bypassReroute (graph : Graph) (id : NodeId) :
    (graph.bypassReroute id).nextId = graph.nextId :=
  nextId_bypass graph id _

theorem output_bypassReroute_of_ne {id output : NodeId} (isOutput : graph.output = some output)
    (away : output ≠ id) : (graph.bypassReroute id).output = some output := by
  rw [output_bypassReroute, isOutput, if_neg]
  exact fun removed => away (Option.some.inj removed.2)

/-! ## Edges after a reroute has been taken out -/

/-- The edge that goes where an edge goes and starts at a place. -/
def startFrom (edge : Edge) (place : NodeId × Nat) : Edge :=
  ⟨place.1, edge.target, place.2, edge.inSocket⟩

/-- What becomes of an edge when a node is taken out that hands on what comes from a place. -/
def redirectTo (id : NodeId) (start : Option (NodeId × Nat)) (edge : Edge) : Option Edge :=
  if edge.target = id then none
  else if edge.source = id then start.map (startFrom edge)
  else some edge

theorem redirectTo_of_target {id : NodeId} {edge : Edge} (start : Option (NodeId × Nat))
    (target : edge.target = id) : redirectTo id start edge = none :=
  if_pos target

theorem redirectTo_of_source {id : NodeId} {edge : Edge} (start : Option (NodeId × Nat))
    (target : edge.target ≠ id) (source : edge.source = id) :
    redirectTo id start edge = start.map (startFrom edge) := by
  rw [redirectTo, if_neg target, if_pos source]

theorem redirectTo_of_away {id : NodeId} {edge : Edge} (start : Option (NodeId × Nat))
    (target : edge.target ≠ id) (source : edge.source ≠ id) :
    redirectTo id start edge = some edge := by
  rw [redirectTo, if_neg target, if_neg source]

theorem redirect_eq_redirectTo (id : NodeId) (feed : Option Edge) :
    redirect id feed = redirectTo id (feed.map Edge.start) := by
  funext edge
  rw [redirect, redirectTo, Option.map_map]
  rfl

/-- An edge that is left was there, or starts where the node's value comes from. -/
theorem redirectTo_eq_some_iff
    {id : NodeId} {start : Option (NodeId × Nat)} {old edge : Edge} :
    redirectTo id start old = some edge ↔
      old.target ≠ id ∧
        (old.source ≠ id ∧ old = edge ∨
          old.source = id ∧ ∃ place ∈ start, startFrom old place = edge) := by
  by_cases target : old.target = id
  · simp [redirectTo_of_target start target, target]
  · by_cases source : old.source = id
    · simp [redirectTo_of_source start target source, target, source]
    · simp [redirectTo_of_away start target source, target, source]

/-- The place that the first edge into a node comes from. -/
def startInto (graph : Graph) (id : NodeId) : Option (NodeId × Nat) :=
  (graph.inEdges id).head?.map Edge.start

theorem Closed.bypassReroute (closed : graph.Closed) (id : NodeId) :
    (graph.bypassReroute id).Closed :=
  closed.bypass id fun start isFirst => (head?_inEdges_fed start isFirst).1

theorem Acyclic.bypassReroute (acyclic : graph.Acyclic) (closed : graph.Closed) (id : NodeId) :
    (graph.bypassReroute id).Acyclic :=
  acyclic.bypass closed.sources head?_inEdges_fed

/-- Bypassing a reroute redirects the edges that leave it to the start of the first edge into it. -/
theorem Acyclic.edges_bypassReroute
    (acyclic : graph.Acyclic) (closed : graph.Closed) (id : NodeId) :
    (graph.bypassReroute id).edges.Perm
      (graph.edges.filterMap (redirectTo id (graph.startInto id))) := by
  rw [startInto, ← redirect_eq_redirectTo]
  apply closed.edges_bypass
  · exact fun start isFirst => (head?_inEdges_fed start isFirst).1
  · intro start isFirst
    rcases head?_inEdges_fed start isFirst with ⟨member, target⟩
    exact target ▸ acyclic.source_ne closed member

theorem Acyclic.mem_edges_bypassReroute
    (acyclic : graph.Acyclic) (closed : graph.Closed) {id : NodeId} {edge : Edge} :
    edge ∈ (graph.bypassReroute id).edges ↔
      ∃ old ∈ graph.edges, redirectTo id (graph.startInto id) old = some edge := by
  rw [(acyclic.edges_bypassReroute closed id).mem_iff, List.mem_filterMap]

/-- Seen through a node that hands on what comes from a place. -/
def through (id : NodeId) (handed : Option (NodeId × Nat)) (place : NodeId × Nat) :
    Option (NodeId × Nat) :=
  if place.1 = id then handed else some place

/--
A redirected edge ends where it ended, and starts where its start is seen through the bypassed
node.
-/
theorem redirectTo_start {id : NodeId} {start : Option (NodeId × Nat)} {old edge : Edge}
    (redirected : redirectTo id start old = some edge) :
    edge.target = old.target ∧ through id start old.start = some edge.start := by
  rcases (redirectTo_eq_some_iff.mp redirected).2 with ⟨away, rfl⟩ | ⟨source, place, isPlace, rfl⟩
  · exact ⟨rfl, if_neg away⟩
  · exact ⟨rfl, (if_pos source).trans isPlace⟩

theorem fst_eq_of_through {id : NodeId} {handed : Option (NodeId × Nat)}
    {place other seen otherSeen : NodeId × Nat} (same : place.1 = other.1)
    (sees : through id handed place = some seen)
    (otherSees : through id handed other = some otherSeen) : seen.1 = otherSeen.1 := by
  rw [through, same] at sees
  rw [through] at otherSees
  split at sees
  · rename_i isId
    rw [if_pos isId, sees] at otherSees
    exact congrArg Prod.fst (Option.some.inj otherSees)
  · rename_i isOther
    rw [if_neg isOther] at otherSees
    cases sees
    cases otherSees
    exact same

/-- Edges into a node vanish with it, whether or not another node goes first. -/
theorem redirectTo_bind_of_target
    (id : NodeId) (start later : Option (NodeId × Nat)) {edge : Edge}
    (target : edge.target = second) :
    (redirectTo id start edge).bind (redirectTo second later) = none := by
  rw [Option.bind_eq_none_iff]
  intro next redirected
  refine redirectTo_of_target later ?_
  rcases (redirectTo_eq_some_iff.mp redirected).2 with ⟨-, rfl⟩ | ⟨-, place, -, rfl⟩
  · exact target
  · exact target

theorem redirectTo_bind_of_source
    (start later : Option (NodeId × Nat)) {edge : Edge}
    (target : edge.target ≠ first) (otherTarget : edge.target ≠ second)
    (source : edge.source = first) :
    (redirectTo first start edge).bind (redirectTo second later) =
      (start.bind (through second later)).map (startFrom edge) := by
  rw [redirectTo_of_source start target source]
  cases start with
  | none => rfl
  | some place =>
      rw [Option.map_some, Option.bind_some, Option.bind_some, through]
      by_cases isSecond : place.1 = second
      · rw [if_pos isSecond]
        exact redirectTo_of_source later otherTarget isSecond
      · rw [if_neg isSecond]
        exact redirectTo_of_away later otherTarget isSecond

/-- Redirections around two nodes commute if each is told where the other sends its edges. -/
theorem redirectTo_comm
    (different : first ≠ second) {firstStart secondStart firstLater secondLater}
    (firstSees : firstLater = firstStart.bind (through second secondLater))
    (secondSees : secondLater = secondStart.bind (through first firstLater)) (edge : Edge) :
    (redirectTo first firstStart edge).bind (redirectTo second secondLater) =
      (redirectTo second secondStart edge).bind (redirectTo first firstLater) := by
  by_cases intoFirst : edge.target = first
  · rw [redirectTo_of_target firstStart intoFirst, redirectTo_bind_of_target second _ _ intoFirst]
    rfl
  by_cases intoSecond : edge.target = second
  · rw [redirectTo_of_target secondStart intoSecond,
      redirectTo_bind_of_target first _ _ intoSecond]
    rfl
  by_cases fromFirst : edge.source = first
  · have notSecond : edge.source ≠ second := fromFirst ▸ different
    rw [redirectTo_bind_of_source _ _ intoFirst intoSecond fromFirst, ← firstSees,
      redirectTo_of_away _ intoSecond notSecond, Option.bind_some,
      redirectTo_of_source _ intoFirst fromFirst]
  by_cases fromSecond : edge.source = second
  · rw [redirectTo_bind_of_source _ _ intoSecond intoFirst fromSecond,
      ← secondSees, redirectTo_of_away _ intoFirst fromFirst, Option.bind_some,
      redirectTo_of_source _ intoSecond fromSecond]
  · rw [redirectTo_of_away _ intoFirst fromFirst, redirectTo_of_away _ intoSecond fromSecond,
      Option.bind_some, Option.bind_some, redirectTo_of_away _ intoFirst fromFirst,
      redirectTo_of_away _ intoSecond fromSecond]

/-- Two reroutes can be taken out in both orders if each sees the same through the other. -/
theorem Acyclic.bypassReroute_comm
    (acyclic : graph.Acyclic) (closed : graph.Closed) (different : first ≠ second)
    (firstSees : (graph.bypassReroute second).startInto first =
      (graph.startInto first).bind (through second ((graph.bypassReroute first).startInto second)))
    (secondSees : (graph.bypassReroute first).startInto second =
      (graph.startInto second).bind
        (through first ((graph.bypassReroute second).startInto first))) :
    (graph.bypassReroute first).bypassReroute second =
      (graph.bypassReroute second).bypassReroute first := by
  apply eq_of_views
  · simp only [Graph.bypassReroute, nodes_bypass, List.filter_filter, Bool.and_comm]
  · have left := (acyclic.bypassReroute closed first).edges_bypassReroute
      (closed.bypassReroute first) second
    have right := (acyclic.bypassReroute closed second).edges_bypassReroute
      (closed.bypassReroute second) first
    refine left.trans (((acyclic.edges_bypassReroute closed first).filterMap _).trans ?_)
    refine List.Perm.trans ?_ (((acyclic.edges_bypassReroute closed second).filterMap _).symm.trans
      right.symm)
    rw [List.filterMap_filterMap, List.filterMap_filterMap]
    simp only [redirectTo_comm different firstSees secondSees]
    exact List.Perm.refl _
  · simp only [Graph.bypassReroute, nextId_bypass]
  · have firstPresent := contains_bypassReroute_of_ne graph different
    have secondPresent := contains_bypassReroute_of_ne graph different.symm
    rw [output_bypassReroute, output_bypassReroute, output_bypassReroute, output_bypassReroute,
      firstPresent, secondPresent]
    by_cases isFirst : graph.output = some first
    · simp [isFirst, different]
    · simp [isFirst]

/-! ## The first edge into a node -/

theorem startInto_eq_none_iff {id : NodeId} :
    graph.startInto id = none ↔ ∀ edge ∈ graph.edges, edge.target ≠ id := by
  rw [startInto, Option.map_eq_none_iff, List.head?_eq_none_iff, List.eq_nil_iff_forall_not_mem]
  simp only [mem_inEdges, not_and]

/-- A node is fed by the first edge into it. -/
theorem exists_first_of_startInto {id : NodeId} {place : NodeId × Nat}
    (starts : graph.startInto id = some place) :
    ∃ edge ∈ graph.edges, edge.target = id ∧ edge.start = place ∧
      ∀ other ∈ graph.edges, other.target = id → edge = other ∨ edge.before other = true := by
  rcases Option.map_eq_some_iff.mp starts with ⟨edge, isFirst, isPlace⟩
  rcases head?_inEdges_fed edge isFirst with ⟨member, target⟩
  refine ⟨edge, member, target, isPlace, fun other otherMember otherTarget => ?_⟩
  rcases List.head?_eq_some_iff.mp isFirst with ⟨later, split⟩
  have sorted := graph.inEdges_ascending id
  have listed : other ∈ graph.inEdges id := mem_inEdges.mpr ⟨otherMember, otherTarget⟩
  rw [split, List.pairwise_cons] at sorted
  rw [split, List.mem_cons] at listed
  rcases listed with same | behind
  · exact Or.inl same.symm
  · exact sorted.1 other behind

theorem startInto_of_first {id : NodeId} {edge : Edge} (member : edge ∈ graph.edges)
    (target : edge.target = id)
    (isFirst : ∀ other ∈ graph.edges, other.target = id →
      edge = other ∨ edge.before other = true) :
    graph.startInto id = some edge.start := by
  cases starts : graph.startInto id with
  | none => exact absurd target (startInto_eq_none_iff.mp starts edge member)
  | some place =>
      rcases exists_first_of_startInto starts with ⟨first, firstMember, firstTarget, rfl, before⟩
      rcases before edge member target with same | firstBefore
      · rw [same]
      · rcases isFirst first firstMember firstTarget with same | edgeBefore
        · rw [same]
        · exact absurd (Edge.before_trans edgeBefore firstBefore) (EdgeBag.not_before_self edge)

/-- Graphs with the same edges into a node have the same first one. -/
theorem startInto_congr {other : Graph} {id : NodeId}
    (same : ∀ edge, edge.target = id → (edge ∈ graph.edges ↔ edge ∈ other.edges)) :
    graph.startInto id = other.startInto id := by
  cases starts : graph.startInto id with
  | none =>
      symm
      rw [startInto_eq_none_iff]
      intro edge member target
      exact startInto_eq_none_iff.mp starts edge ((same edge target).mpr member) target
  | some place =>
      rcases exists_first_of_startInto starts with ⟨edge, member, target, rfl, before⟩
      symm
      apply startInto_of_first ((same edge target).mp member) target
      intro next nextMember nextTarget
      exact before next ((same next nextTarget).mpr nextMember) nextTarget

/-- All edges into a node come from one place. -/
def FedFromOne (graph : Graph) (id : NodeId) : Prop :=
  ∀ edge ∈ graph.edges, ∀ other ∈ graph.edges, edge.target = id → other.target = id →
    edge.start = other.start

instance (graph : Graph) (id : NodeId) : Decidable (graph.FedFromOne id) :=
  inferInstanceAs (Decidable (∀ edge ∈ graph.edges, ∀ other ∈ graph.edges,
    edge.target = id → other.target = id → edge.start = other.start))

/-- All edges into a node leave one node. -/
def FedByOne (graph : Graph) (id : NodeId) : Prop :=
  ∀ edge ∈ graph.edges, ∀ other ∈ graph.edges, edge.target = id → other.target = id →
    edge.source = other.source

/-- With a single start, every edge into a node shows where it is fed from. -/
theorem FedFromOne.startInto {id : NodeId} (fed : graph.FedFromOne id) {edge : Edge}
    (member : edge ∈ graph.edges) (target : edge.target = id) :
    graph.startInto id = some edge.start := by
  cases starts : graph.startInto id with
  | none => exact absurd target (startInto_eq_none_iff.mp starts edge member)
  | some place =>
      rcases exists_first_of_startInto starts with ⟨first, firstMember, firstTarget, rfl, -⟩
      rw [fed first firstMember edge member firstTarget target]

section BypassedReroute

variable (acyclic : graph.Acyclic) (closed : graph.Closed)

include acyclic closed

/-- Bypassing another node keeps a single start. -/
theorem FedFromOne.bypassReroute {id : NodeId} (fed : graph.FedFromOne id) (other : NodeId) :
    (graph.bypassReroute other).FedFromOne id := by
  intro edge member next nextMember target nextTarget
  rcases (acyclic.mem_edges_bypassReroute closed).mp member with ⟨old, oldMember, redirected⟩
  rcases (acyclic.mem_edges_bypassReroute closed).mp nextMember with
    ⟨oldNext, oldNextMember, nextRedirected⟩
  rcases redirectTo_start redirected with ⟨sameTarget, start⟩
  rcases redirectTo_start nextRedirected with ⟨sameNextTarget, nextStart⟩
  have same := fed old oldMember oldNext oldNextMember (sameTarget ▸ target)
    (sameNextTarget ▸ nextTarget)
  rw [same, nextStart] at start
  exact (Option.some.inj start).symm

/-- A node that a reroute does not feed is fed as before when the reroute is taken out. -/
theorem startInto_bypassReroute_of_away {id other : NodeId} (different : id ≠ other)
    (away : ∀ edge ∈ graph.edges, edge.target = id → edge.source ≠ other) :
    (graph.bypassReroute other).startInto id = graph.startInto id := by
  apply startInto_congr
  intro edge target
  rw [acyclic.mem_edges_bypassReroute closed]
  constructor
  · rintro ⟨old, oldMember, redirected⟩
    rcases (redirectTo_eq_some_iff.mp redirected).2 with ⟨-, rfl⟩ | ⟨source, place, -, rfl⟩
    · exact oldMember
    · exact absurd source (away old oldMember target)
  · intro member
    exact ⟨edge, member, redirectTo_of_away _ (target ▸ different) (away edge member target)⟩

/-- Bypassing feeds no node that was unfed. -/
theorem startInto_bypassReroute_of_none {id : NodeId} (unfed : graph.startInto id = none)
    (other : NodeId) : (graph.bypassReroute other).startInto id = none := by
  rw [startInto_eq_none_iff] at unfed ⊢
  intro edge member target
  rcases (acyclic.mem_edges_bypassReroute closed).mp member with ⟨old, oldMember, redirected⟩
  rcases (redirectTo_eq_some_iff.mp redirected).2 with ⟨-, rfl⟩ | ⟨-, place, -, rfl⟩
  · exact unfed old oldMember target
  · exact unfed old oldMember target

/-- A node that only a reroute feeds is fed as the reroute was when the reroute is taken out. -/
theorem startInto_bypassReroute_of_source {id other : NodeId} (different : id ≠ other)
    {edge : Edge} (member : edge ∈ graph.edges) (target : edge.target = id)
    (only : ∀ next ∈ graph.edges, next.target = id → next.source = other) :
    (graph.bypassReroute other).startInto id = graph.startInto other := by
  have fed : ∀ next ∈ (graph.bypassReroute other).edges, next.target = id →
      graph.startInto other = some next.start := by
    intro next nextMember nextTarget
    rcases (acyclic.mem_edges_bypassReroute closed).mp nextMember with ⟨old, oldMember, redirected⟩
    rcases (redirectTo_eq_some_iff.mp redirected).2 with ⟨away, rfl⟩ | ⟨-, place, isPlace, rfl⟩
    · exact absurd (only old oldMember nextTarget) away
    · exact isPlace
  cases starts : (graph.bypassReroute other).startInto id with
  | some place =>
      rcases exists_first_of_startInto starts with ⟨first, firstMember, firstTarget, rfl, -⟩
      exact (fed first firstMember firstTarget).symm
  | none =>
      rw [startInto_eq_none_iff] at starts
      symm
      rw [Option.eq_none_iff_forall_ne_some]
      intro place isPlace
      refine starts (startFrom edge place) ?_ target
      refine (acyclic.mem_edges_bypassReroute closed).mpr ⟨edge, member, ?_⟩
      rw [redirectTo_of_source _ (target ▸ different) (only edge member target), isPlace]
      rfl

/-- No two edges lead there and back. -/
theorem not_both_ways {edge back : Edge} (member : edge ∈ graph.edges)
    (backMember : back ∈ graph.edges) (there : edge.target = back.source) :
    back.target ≠ edge.source := by
  intro andBack
  have forth : graph.Step edge.source edge.target :=
    ⟨closed.sources edge member, closed.targets edge member, edge, member, rfl, rfl⟩
  have homeward : graph.Step edge.target edge.source :=
    ⟨closed.targets edge member, closed.sources edge member, back, backMember, there.symm, andBack⟩
  exact acyclic edge.source (.head forth (.single homeward))

end BypassedReroute

/-! ## A detour among reroutes -/

/-- A reroute that stands in for links: it is fed by one node, and what it feeds among the
other reroutes is fed from one place, at least once the detour has been taken out. -/
structure Detoured
    (reroutes : List NodeId) (relayed : NodeId → Prop) (via : NodeId) (graph : Graph) : Prop where
  closed : graph.Closed
  acyclic : graph.Acyclic
  other : via ∉ reroutes
  largest : ∀ edge ∈ graph.edges, edge.source ≤ via
  fed : graph.FedByOne via
  relays : graph.startInto via = none ∨
    (∀ id, relayed id → (graph.bypassReroute via).FedFromOne id) ∧
      ∀ edge ∈ graph.edges, edge.source = via ∨ relayed edge.source →
        edge.target ∈ reroutes → relayed edge.target

namespace Detoured

variable {reroutes : List NodeId} {relayed : NodeId → Prop} {id : NodeId}

theorem ne_of_mem (detoured : Detoured reroutes relayed via graph) (member : id ∈ reroutes) :
    id ≠ via := by
  rintro rfl
  exact detoured.other member

/-- Bypassing a reroute changes the feed of the detour as seen through the reroute. -/
theorem detour_sees (detoured : Detoured reroutes relayed via graph) (member : id ∈ reroutes) :
    (graph.bypassReroute id).startInto via =
      (graph.startInto via).bind (through id ((graph.bypassReroute via).startInto id)) := by
  have different := detoured.ne_of_mem member
  have acyclic := detoured.acyclic
  have closed := detoured.closed
  cases starts : graph.startInto via with
  | none => exact startInto_bypassReroute_of_none acyclic closed starts id
  | some place =>
      rcases exists_first_of_startInto starts with ⟨first, firstMember, target, rfl, -⟩
      have sources : ∀ edge ∈ graph.edges, edge.target = via → edge.source = first.source :=
        fun edge edgeMember edgeTarget =>
          detoured.fed edge edgeMember first firstMember edgeTarget target
      rw [Option.bind_some, through]
      by_cases source : first.start.1 = id
      · -- The reroute feeds the detour, so the detour does not feed the reroute.
        have unfed : ∀ edge ∈ graph.edges, edge.target = id → edge.source ≠ via := by
          intro edge edgeMember edgeTarget edgeSource
          exact not_both_ways acyclic closed firstMember edgeMember
            (target.trans edgeSource.symm) (edgeTarget.trans source.symm)
        rw [if_pos source, startInto_bypassReroute_of_away acyclic closed different unfed]
        apply startInto_bypassReroute_of_source acyclic closed different.symm firstMember target
        exact fun edge edgeMember edgeTarget => (sources edge edgeMember edgeTarget).trans source
      · rw [if_neg source, startInto_bypassReroute_of_away acyclic closed different.symm, starts]
        intro edge edgeMember edgeTarget
        rw [sources edge edgeMember edgeTarget]
        exact source

/-- Bypassing the detour changes the feed of a reroute as seen through the detour. -/
theorem reroute_sees (detoured : Detoured reroutes relayed via graph) (member : id ∈ reroutes) :
    (graph.bypassReroute via).startInto id =
      (graph.startInto id).bind (through via ((graph.bypassReroute id).startInto via)) := by
  have different := detoured.ne_of_mem member
  have acyclic := detoured.acyclic
  have closed := detoured.closed
  by_cases leads : ∃ edge ∈ graph.edges, edge.target = id ∧ edge.source = via
  · rcases leads with ⟨out, outMember, outTarget, outSource⟩
    have unfed : ∀ edge ∈ graph.edges, edge.target = via → edge.source ≠ id := by
      intro edge edgeMember edgeTarget edgeSource
      exact not_both_ways acyclic closed outMember edgeMember
        (outTarget.trans edgeSource.symm) (edgeTarget.trans outSource.symm)
    rw [startInto_bypassReroute_of_away acyclic closed different.symm unfed]
    cases starts : graph.startInto id with
    | none => exact absurd outTarget (startInto_eq_none_iff.mp starts out outMember)
    | some place =>
        rcases exists_first_of_startInto starts with ⟨first, firstMember, target, rfl, before⟩
        rw [Option.bind_some, through]
        by_cases source : first.start.1 = via
        · -- The first edge has the smallest source, and the detour is the largest node.
          rw [if_pos source]
          apply startInto_bypassReroute_of_source acyclic closed different firstMember target
          intro edge edgeMember edgeTarget
          rcases before edge edgeMember edgeTarget with rfl | ahead
          · exact source
          · have above : first.source ≤ edge.source := EdgeBag.source_le_of_before ahead
            exact Nat.le_antisymm (detoured.largest edge edgeMember) (source ▸ above)
        · rw [if_neg source]
          have kept : first ∈ (graph.bypassReroute via).edges :=
            (acyclic.mem_edges_bypassReroute closed).mpr
              ⟨first, firstMember, redirectTo_of_away _ (target ▸ different) source⟩
          rcases detoured.relays with nothing | ⟨fed, spreads⟩
          · apply startInto_of_first kept target
            intro edge edgeMember edgeTarget
            rcases (acyclic.mem_edges_bypassReroute closed).mp edgeMember with
              ⟨old, oldMember, redirected⟩
            rw [nothing] at redirected
            rcases (redirectTo_eq_some_iff.mp redirected).2 with
              ⟨-, rfl⟩ | ⟨-, place, isPlace, -⟩
            · exact before old oldMember edgeTarget
            · exact absurd isPlace (by simp)
          · have isRelayed : relayed id :=
              outTarget ▸ spreads out outMember (Or.inl outSource) (outTarget ▸ member)
            exact (fed id isRelayed).startInto kept target
  · rw [startInto_bypassReroute_of_away acyclic closed different fun edge edgeMember edgeTarget
      edgeSource => leads ⟨edge, edgeMember, edgeTarget, edgeSource⟩]
    cases starts : graph.startInto id with
    | none => rfl
    | some place =>
        rcases exists_first_of_startInto starts with ⟨first, firstMember, target, rfl, -⟩
        rw [Option.bind_some, through, if_neg]
        exact fun source => leads ⟨first, firstMember, target, source⟩

/-- A detour may be bypassed before or after any reroute of the graph. -/
theorem comm (detoured : Detoured reroutes relayed via graph) (member : id ∈ reroutes) :
    (graph.bypassReroute id).bypassReroute via = (graph.bypassReroute via).bypassReroute id :=
  detoured.acyclic.bypassReroute_comm detoured.closed (detoured.ne_of_mem member)
    (detoured.reroute_sees member) (detoured.detour_sees member)

/-- Bypassing a reroute keeps the detour a detour. -/
theorem step (detoured : Detoured reroutes relayed via graph) (member : id ∈ reroutes) :
    Detoured reroutes relayed via (graph.bypassReroute id) where
  closed := detoured.closed.bypassReroute id
  acyclic := detoured.acyclic.bypassReroute detoured.closed id
  other := detoured.other
  largest edge edgeMember := by
    rcases (detoured.acyclic.mem_edges_bypassReroute detoured.closed).mp edgeMember with
      ⟨old, oldMember, redirected⟩
    rcases (redirectTo_eq_some_iff.mp redirected).2 with ⟨-, rfl⟩ | ⟨-, place, isPlace, rfl⟩
    · exact detoured.largest old oldMember
    · rcases exists_first_of_startInto isPlace with ⟨first, firstMember, -, rfl, -⟩
      exact detoured.largest first firstMember
  fed edge edgeMember next nextMember target nextTarget := by
    rcases (detoured.acyclic.mem_edges_bypassReroute detoured.closed).mp edgeMember with
      ⟨old, oldMember, redirected⟩
    rcases (detoured.acyclic.mem_edges_bypassReroute detoured.closed).mp nextMember with
      ⟨oldNext, oldNextMember, nextRedirected⟩
    rcases redirectTo_start redirected with ⟨sameTarget, start⟩
    rcases redirectTo_start nextRedirected with ⟨sameNextTarget, nextStart⟩
    have same := detoured.fed old oldMember oldNext oldNextMember (sameTarget ▸ target)
      (sameNextTarget ▸ nextTarget)
    exact fst_eq_of_through same start nextStart
  relays := by
    rcases detoured.relays with unfed | ⟨fed, spreads⟩
    · exact Or.inl (startInto_bypassReroute_of_none detoured.acyclic detoured.closed unfed id)
    · refine Or.inr ⟨fun relay isRelayed => ?_, fun edge edgeMember starts target => ?_⟩
      · rw [detoured.comm member]
        exact (fed relay isRelayed).bypassReroute
          (detoured.acyclic.bypassReroute detoured.closed via)
          (detoured.closed.bypassReroute via) id
      · rcases (detoured.acyclic.mem_edges_bypassReroute detoured.closed).mp edgeMember with
          ⟨old, oldMember, redirected⟩
        rcases (redirectTo_eq_some_iff.mp redirected).2 with
          ⟨-, rfl⟩ | ⟨source, place, isPlace, rfl⟩
        · exact spreads old oldMember starts target
        · -- The reroute that is taken out was fed by the detour or a relay, so it was a relay.
          rcases exists_first_of_startInto isPlace with ⟨first, firstMember, firstTarget, rfl, -⟩
          have isRelayed := spreads first firstMember starts (firstTarget ▸ member)
          rw [firstTarget, ← source] at isRelayed
          exact spreads old oldMember (Or.inr isRelayed) target

/-- A detour can be taken out before reroutes that would be taken out before it. -/
theorem foldl_bypassReroute
    (detoured : Detoured reroutes relayed via graph) {ids : List NodeId} (inside : ids ⊆ reroutes) :
    (ids.foldl bypassReroute graph).bypassReroute via =
      ids.foldl bypassReroute (graph.bypassReroute via) := by
  induction ids generalizing graph with
  | nil => rfl
  | cons id others induction =>
      have member : id ∈ reroutes := inside List.mem_cons_self
      rw [List.foldl_cons, List.foldl_cons, ← detoured.comm member]
      exact induction (detoured.step member) fun other otherMember =>
        inside (List.mem_cons_of_mem id otherMember)

end Detoured

end NodeMaterial.Graph
