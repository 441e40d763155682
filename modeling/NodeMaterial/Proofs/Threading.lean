import NodeMaterial.Proofs.Detour
import NodeMaterial.Proofs.Linking

/-!
# Edges that run through a reroute

A graph is compared with the one where some edges run through a new reroute.  Taking out
the reroute gives the first graph back, so all stages from pruning on give the same, as
long as each reroute that these edges lead to is fed from one place.

Companions are counted here as well: there is one for each edge that leaves the strength
output of a translucency group.
-/

namespace NodeMaterial

namespace Graph

open Assembly

/-! ## Edges that run through a reroute -/

/-- A graph where edges run through a reroute behind all other nodes, and one where they run
directly; the edges on the side are the same. -/
structure Threaded
    (direct graph : Graph) (reroute : Node) (start : Option (NodeId × Nat))
    (ends : List (NodeId × Nat)) (side into : List Edge) : Prop where
  nodes : graph.nodes = direct.nodes ++ [reroute]
  id : reroute.id = direct.nextId
  kind : reroute.kind = .reroute
  nextId : graph.nextId = direct.nextId + 1
  output : graph.output = none
  directOutput : direct.output = none
  edges : graph.edges.Perm (side ++ (into ++ ends.map (connect (direct.nextId, 0))))
  directEdges : direct.edges.Perm
    (side ++ start.toList.flatMap fun place => ends.map (connect place))
  closed : direct.Closed
  starts : ∀ place ∈ start, direct.contains place.1 = true
  finishes : ∀ place ∈ ends, direct.contains place.1 = true
  inward : ∀ edge ∈ into, edge.target = direct.nextId ∧ ∃ place ∈ start, edge.source = place.1
  first : ∀ place ∈ start, connect place (direct.nextId, 0) ∈ into ∧
    ∀ edge ∈ into, connect place (direct.nextId, 0) = edge ∨
      (connect place (direct.nextId, 0)).before edge = true

theorem lt_of_contains {graph : Graph} {id : NodeId} (present : graph.contains id = true) :
    id < graph.nextId := by
  rcases contains_iff.mp present with ⟨node, found⟩
  rcases node?_eq_some_iff.mp found with ⟨member, rfl⟩
  exact graph.issued node member

theorem lt_of_mem_idsOfKind {graph : Graph} {kind : Kind} {id : NodeId}
    (member : id ∈ graph.idsOfKind kind) :
    id < graph.nextId := by
  rcases List.mem_map.mp member with ⟨node, nodeMember, rfl⟩
  exact graph.issued node (List.mem_filter.mp nodeMember).1

/-- The reroutes that edges lead to, directly or through other reroutes. -/
inductive Relayed (graph : Graph) (starts : List Edge) : NodeId → Prop
  | direct {edge : Edge} : edge ∈ starts → edge.target ∈ graph.idsOfKind .reroute →
      Relayed graph starts edge.target
  | onward {edge : Edge} : Relayed graph starts edge.source → edge ∈ graph.edges →
      edge.target ∈ graph.idsOfKind .reroute → Relayed graph starts edge.target

theorem Relayed.mem_idsOfKind {graph : Graph} {starts : List Edge} {id : NodeId}
    (relayed : graph.Relayed starts id) : id ∈ graph.idsOfKind .reroute := by
  cases relayed with
  | direct _ isReroute => exact isReroute
  | onward _ _ isReroute => exact isReroute

namespace Threaded

variable {direct graph : Graph} {reroute : Node} {start : Option (NodeId × Nat)}
  {ends : List (NodeId × Nat)} {side into : List Edge}

/-- The edges on the detour: those beside it, those into the reroute and those out of it. -/
theorem mem_edges_iff (threaded : Threaded direct graph reroute start ends side into)
    {edge : Edge} :
    edge ∈ graph.edges ↔
      edge ∈ side ∨ edge ∈ into ∨ ∃ place ∈ ends, connect (direct.nextId, 0) place = edge := by
  rw [threaded.edges.mem_iff, List.mem_append, List.mem_append, List.mem_map]

theorem mem_directEdges_iff (threaded : Threaded direct graph reroute start ends side into)
    {edge : Edge} :
    edge ∈ direct.edges ↔
      edge ∈ side ∨ ∃ place ∈ start, ∃ finish ∈ ends, connect place finish = edge := by
  rw [threaded.directEdges.mem_iff, List.mem_append, List.mem_flatMap]
  simp only [Option.mem_toList, List.mem_map]
  rfl

/-- No edge beside the detour touches the reroute. -/
theorem side_away (threaded : Threaded direct graph reroute start ends side into)
    {edge : Edge} (member : edge ∈ side) :
    edge.source ≠ direct.nextId ∧ edge.target ≠ direct.nextId := by
  have old := threaded.mem_directEdges_iff.mpr (Or.inl member)
  exact ⟨Nat.ne_of_lt (lt_of_contains (threaded.closed.sources edge old)),
    Nat.ne_of_lt (lt_of_contains (threaded.closed.targets edge old))⟩

theorem contains_iff (threaded : Threaded direct graph reroute start ends side into)
    {id : NodeId} :
    graph.contains id = true ↔ direct.contains id = true ∨ id = direct.nextId := by
  rw [contains, threaded.nodes, List.any_append, Bool.or_eq_true, contains]
  simp only [List.any_cons, List.any_nil, Bool.or_false, beq_iff_eq, threaded.id]
  exact or_congr_right eq_comm

theorem graphClosed (threaded : Threaded direct graph reroute start ends side into) :
    graph.Closed := by
  constructor
  · intro edge member
    rw [threaded.contains_iff]
    rcases threaded.mem_edges_iff.mp member with aside | enters | ⟨place, -, rfl⟩
    · exact Or.inl (threaded.closed.sources edge (threaded.mem_directEdges_iff.mpr (Or.inl aside)))
    · rcases (threaded.inward edge enters).2 with ⟨place, isStart, source⟩
      exact Or.inl (source ▸ threaded.starts place isStart)
    · exact Or.inr rfl
  · intro edge member
    rw [threaded.contains_iff]
    rcases threaded.mem_edges_iff.mp member with aside | enters | ⟨place, isEnd, rfl⟩
    · exact Or.inl (threaded.closed.targets edge (threaded.mem_directEdges_iff.mpr (Or.inl aside)))
    · exact Or.inr (threaded.inward edge enters).1
    · exact Or.inl (threaded.finishes place isEnd)

/-- A cycle through the reroute would be one of the direct graph. -/
theorem acyclic (threaded : Threaded direct graph reroute start ends side into)
    (directAcyclic : direct.Acyclic) : graph.Acyclic := by
  have stepOf : ∀ edge ∈ direct.edges, direct.Step edge.source edge.target := fun edge member =>
    ⟨threaded.closed.sources edge member, threaded.closed.targets edge member, edge, member, rfl,
      rfl⟩
  have endAway : ∀ place ∈ ends, place.1 ≠ direct.nextId := fun place isEnd =>
    Nat.ne_of_lt (lt_of_contains (threaded.finishes place isEnd))
  have outward : ∀ {target : NodeId}, graph.Step direct.nextId target →
      ∃ place ∈ ends, place.1 = target := by
    rintro target ⟨-, -, edge, member, source, rfl⟩
    rcases threaded.mem_edges_iff.mp member with aside | enters | ⟨place, isEnd, rfl⟩
    · exact absurd source (threaded.side_away aside).1
    · rcases (threaded.inward edge enters).2 with ⟨place, isStart, placeSource⟩
      have below := lt_of_contains (threaded.starts place isStart)
      exact absurd (placeSource.symm.trans source) (Nat.ne_of_lt below)
    · exact ⟨place, isEnd, rfl⟩
  apply directAcyclic.of_subdivided direct.nextId
  · rintro _ _ away targetAway ⟨-, -, edge, member, rfl, rfl⟩
    rcases threaded.mem_edges_iff.mp member with aside | enters | ⟨place, -, rfl⟩
    · exact stepOf edge (threaded.mem_directEdges_iff.mpr (Or.inl aside))
    · exact absurd (threaded.inward edge enters).1 targetAway
    · exact absurd rfl away
  · rintro _ second ⟨-, -, edge, member, rfl, target⟩ leaves
    rcases outward leaves with ⟨finish, isEnd, rfl⟩
    rcases threaded.mem_edges_iff.mp member with aside | enters | ⟨place, placeEnd, rfl⟩
    · exact absurd target (threaded.side_away aside).2
    · rcases (threaded.inward edge enters).2 with ⟨place, isStart, source⟩
      rw [source]
      exact stepOf (connect place finish)
        (threaded.mem_directEdges_iff.mpr (Or.inr ⟨place, isStart, finish, isEnd, rfl⟩))
    · exact absurd target (endAway place placeEnd)
  · intro loop
    rcases outward loop with ⟨place, isEnd, same⟩
    exact endAway place isEnd same

theorem mem_into (threaded : Threaded direct graph reroute start ends side into) {edge : Edge}
    (member : edge ∈ graph.edges) (target : edge.target = direct.nextId) : edge ∈ into := by
  rcases threaded.mem_edges_iff.mp member with aside | enters | ⟨place, isEnd, rfl⟩
  · exact absurd target (threaded.side_away aside).2
  · exact enters
  · exact absurd target (Nat.ne_of_lt (lt_of_contains (threaded.finishes place isEnd)))

/-- The reroute hands on what comes from the place where the edges start. -/
theorem startInto_eq (threaded : Threaded direct graph reroute start ends side into) :
    graph.startInto direct.nextId = start := by
  cases starts : start with
  | none =>
      rw [startInto_eq_none_iff]
      intro edge member target
      rcases (threaded.inward edge (threaded.mem_into member target)).2 with ⟨place, isStart, -⟩
      rw [starts] at isStart
      cases isStart
  | some place =>
      rcases threaded.first place starts with ⟨enters, before⟩
      have member := threaded.mem_edges_iff.mpr (Or.inr (Or.inl enters))
      exact startInto_of_first member rfl fun other otherMember target =>
        before other (threaded.mem_into otherMember target)

/-- Taking the reroute out gives the direct graph, with the number of the reroute skipped. -/
theorem bypassReroute_eq (threaded : Threaded direct graph reroute start ends side into)
    (directAcyclic : direct.Acyclic) : graph.bypassReroute direct.nextId = direct.skip := by
  have sideKept : side.filterMap (redirectTo direct.nextId start) = side := by
    rw [List.filterMap_congr (g := some), List.filterMap_some]
    intro edge aside
    rcases threaded.side_away aside with ⟨source, target⟩
    exact redirectTo_of_away start target source
  have intoGone : into.filterMap (redirectTo direct.nextId start) = [] := by
    rw [List.filterMap_eq_nil_iff]
    exact fun edge enters => redirectTo_of_target start (threaded.inward edge enters).1
  have endsMoved : (ends.map (connect (direct.nextId, 0))).filterMap
      (redirectTo direct.nextId start) =
      start.toList.flatMap fun place => ends.map (connect place) := by
    have moved : ∀ place ∈ ends, redirectTo direct.nextId start (connect (direct.nextId, 0) place) =
        start.map fun origin => connect origin place := fun place isEnd =>
      redirectTo_of_source start
        (Nat.ne_of_lt (lt_of_contains (threaded.finishes place isEnd))) rfl
    rw [List.filterMap_map]
    refine (List.filterMap_congr moved).trans ?_
    cases start with
    | none => simp
    | some origin => simp
  apply eq_of_views
  · rw [nodes_bypassReroute, threaded.nodes, List.filter_append]
    have kept : direct.nodes.filter (·.id != direct.nextId) = direct.nodes := by
      rw [List.filter_eq_self]
      exact fun node member => bne_iff_ne.mpr (Nat.ne_of_lt (direct.issued node member))
    rw [kept]
    simp [threaded.id, skip]
  · have after := (threaded.acyclic directAcyclic).edges_bypassReroute threaded.graphClosed
      direct.nextId
    rw [threaded.startInto_eq] at after
    refine after.trans ((threaded.edges.filterMap _).trans ?_)
    rw [List.filterMap_append, List.filterMap_append, sideKept, intoGone, endsMoved]
    exact threaded.directEdges.symm
  · rw [nextId_bypassReroute, threaded.nextId]
    rfl
  · rw [output_bypassReroute, threaded.output, if_neg (by simp)]
    exact threaded.directOutput.symm

theorem endsIn (threaded : Threaded direct graph reroute start ends side into) :
    graph.EndsIn direct.nextId := by
  intro node member
  rw [threaded.nodes, List.mem_append, List.mem_singleton] at member
  rcases member with old | rfl
  · exact Or.inl (direct.issued node old)
  · exact Or.inr ⟨threaded.id, threaded.kind⟩

/-- The new reroute is a detour, which can be taken out before or after all others. -/
theorem detoured (threaded : Threaded direct graph reroute start ends side into)
    (directAcyclic : direct.Acyclic)
    (fedFromOne : ∀ id, direct.Relayed (start.toList.flatMap fun place => ends.map (connect place))
      id → direct.FedFromOne id) :
    Detoured (direct.idsOfKind .reroute)
      (direct.Relayed (start.toList.flatMap fun place => ends.map (connect place)))
      direct.nextId graph where
  closed := threaded.graphClosed
  acyclic := threaded.acyclic directAcyclic
  other member := absurd rfl (Nat.ne_of_lt (lt_of_mem_idsOfKind member))
  largest edge member := by
    rcases threaded.contains_iff.mp (threaded.graphClosed.sources edge member) with old | new
    · exact Nat.le_of_lt (lt_of_contains old)
    · exact Nat.le_of_eq new
  fed edge member next nextMember target nextTarget := by
    rcases (threaded.inward edge (threaded.mem_into member target)).2 with
      ⟨place, isStart, source⟩
    rcases (threaded.inward next (threaded.mem_into nextMember nextTarget)).2 with
      ⟨other, isOther, nextSource⟩
    rw [source, nextSource, Option.mem_unique isStart isOther]
  relays := by
    rw [threaded.bypassReroute_eq directAcyclic, threaded.startInto_eq]
    cases starts : start with
    | none => exact Or.inl rfl
    | some place =>
        rw [starts] at fedFromOne
        refine Or.inr ⟨fedFromOne, fun edge member source target => ?_⟩
        rcases threaded.mem_edges_iff.mp member with aside | enters | ⟨finish, isEnd, rfl⟩
        · have relayed := source.resolve_left (threaded.side_away aside).1
          exact .onward relayed (threaded.mem_directEdges_iff.mpr (Or.inl aside)) target
        · exact absurd (threaded.inward edge enters).1 (Nat.ne_of_lt (lt_of_mem_idsOfKind target))
        · have begins : connect place finish ∈
              (some place).toList.flatMap fun place => ends.map (connect place) :=
            List.mem_flatMap.mpr ⟨place, by simp, List.mem_map_of_mem isEnd⟩
          have relayed : direct.Relayed _ (connect place finish).target := .direct begins target
          exact relayed

/-- The stages from pruning on give the same, up to a skipped number. -/
theorem settle (threaded : Threaded direct graph reroute start ends side into)
    (directAcyclic : direct.Acyclic)
    (fedFromOne : ∀ id, direct.Relayed (start.toList.flatMap fun place => ends.map (connect place))
      id → direct.FedFromOne id)
    {tree directTree : Authored.Tree}
    (sameOutput : graph.findOutput tree = direct.findOutput directTree) :
    graph.settle tree = (direct.settle directTree).map skip := by
  have bypassed := threaded.bypassReroute_eq directAcyclic
  have settled : graph.settle tree = (graph.bypassReroute direct.nextId).settle directTree := by
    apply (threaded.detoured directAcyclic fedFromOne).settle threaded.endsIn
    · rw [bypassed]
      exact fun _ member => member
    · rw [bypassed]
      exact sameOutput
  rw [settled, bypassed, settle_skip]

end Threaded

/-! ## Companions -/

/-- Whether an edge leaves the strength output of a translucency group of a graph. -/
def drives (graph : Graph) (edge : Edge) : Bool :=
  (graph.node? edge.source).any (drivesTranslucency · edge)

theorem drives_eq_true_iff {graph : Graph} {edge : Edge} :
    graph.drives edge = true ↔
      ∃ node ∈ graph.nodes, node.id = edge.source ∧ drivesTranslucency node edge = true := by
  rw [drives, Option.any_eq_true]
  simp only [node?_eq_some_iff, and_assoc]

/-- Values that pass one of two tests, if none passes both, are those of either test. -/
theorem filter_or_perm {α : Type} {first second : α → Bool} {values : List α}
    (apart : ∀ value ∈ values, first value = true → second value = false) :
    (values.filter fun value => first value || second value).Perm
      (values.filter first ++ values.filter second) := by
  have parts := List.filter_append_perm first
    (values.filter fun value => first value || second value)
  rw [List.filter_filter, List.filter_filter] at parts
  refine parts.symm.trans (List.Perm.of_eq ?_)
  congr 1
  · refine List.filter_congr fun value _ => ?_
    cases first value <;> simp
  · refine List.filter_congr fun value member => ?_
    cases passes : first value with
    | false => simp
    | true => simp [apart value member passes]

/-- Edges that pass tests of the nodes that they leave, one node after the other. -/
theorem flatMap_filter_perm {nodes : List Node} (ascending : nodes.Pairwise (·.id < ·.id))
    (test : Node → Edge → Bool) (edges : List Edge) :
    (nodes.flatMap fun node => edges.filter fun edge =>
        node.id == edge.source && test node edge).Perm
      (edges.filter fun edge =>
        nodes.any fun node => node.id == edge.source && test node edge) := by
  induction nodes with
  | nil => simp
  | cons node others induction =>
      rw [List.pairwise_cons] at ascending
      rw [List.flatMap_cons]
      refine ((induction ascending.2).append_left _).trans ?_
      refine (filter_or_perm fun edge _ passes => ?_).symm
      rw [Bool.and_eq_true, beq_iff_eq] at passes
      rw [List.any_eq_false]
      intro other member both
      rw [Bool.and_eq_true, beq_iff_eq] at both
      exact Nat.ne_of_lt (ascending.1 other member) (passes.1.trans both.1.symm)

/-- There is a companion for each edge that drives translucency. -/
theorem companions_perm (graph : Graph) :
    graph.companions.Perm ((graph.edges.filter graph.drives).map companion) := by
  have leaving : ∀ node : Node, (graph.outEdges node.id).filter (drivesTranslucency node) =
      graph.edges.filter fun edge => node.id == edge.source && drivesTranslucency node edge := by
    intro node
    rw [outEdges_eq_filter, List.filter_filter]
    refine List.filter_congr fun edge _ => ?_
    rw [Bool.and_comm, BEq.comm]
  have tested : ∀ edge, graph.drives edge = graph.nodes.any fun node =>
      node.id == edge.source && drivesTranslucency node edge := by
    intro edge
    rw [Bool.eq_iff_iff, drives_eq_true_iff, List.any_eq_true]
    simp only [Bool.and_eq_true, beq_iff_eq]
  rw [companions, ← List.map_flatMap]
  simp only [leaving]
  rw [funext tested]
  exact (flatMap_filter_perm graph.ascending drivesTranslucency graph.edges).map companion

/-- The graph with the companions of all edges but those of a link. -/
def completeApart (graph : Graph) (link : Authored.Link) : Graph :=
  graph.addEdges <|
    ((graph.edges.diff (linkEdges graph link)).filter graph.drives).map companion

theorem drives_addEdges (graph : Graph) (edges : List Edge) :
    (graph.addEdges edges).drives = graph.drives := by
  funext edge
  rw [drives, node?_addEdges]
  rfl

theorem edges_completeEdges (graph : Graph) :
    graph.completeEdges.1.edges.Perm
      (graph.edges ++ (graph.edges.filter graph.drives).map companion) :=
  (edges_addEdges graph graph.companions).trans (graph.companions_perm.append_left _)

section CompleteApart

variable {graph : Graph} {link : Authored.Link} {side : List Edge}

theorem diff_linkEdges (edges : graph.edges.Perm (side ++ linkEdges graph link)) :
    (graph.edges.diff (linkEdges graph link)).Perm side := by
  rw [List.perm_iff_count]
  intro edge
  rw [List.count_diff, edges.count_eq, List.count_append, Nat.add_sub_cancel]

/-- The edges of the link stay without companions. -/
theorem edges_completeApart (edges : graph.edges.Perm (side ++ linkEdges graph link)) :
    (graph.completeApart link).edges.Perm
      (side ++ (side.filter graph.drives).map companion ++ linkEdges graph link) := by
  have companions := ((diff_linkEdges edges).filter graph.drives).map companion
  refine (edges_addEdges graph _).trans ((edges.append companions).trans ?_)
  rw [List.append_assoc, List.append_assoc]
  exact List.perm_append_comm.append_left _

/-- A link that drives no translucency has no companions. -/
theorem completeApart_eq (edges : graph.edges.Perm (side ++ linkEdges graph link))
    (idle : ∀ edge ∈ linkEdges graph link, graph.drives edge = false) :
    graph.completeApart link = graph.completeEdges.1 := by
  apply eq_of_views
  · rw [completeApart, nodes_addEdges]
    exact (nodes_addEdges graph graph.companions).symm
  · have none : (linkEdges graph link).filter graph.drives = [] := by
      rw [List.filter_eq_nil_iff]
      exact fun edge member => by simp [idle edge member]
    have driven : (side.filter graph.drives).Perm (graph.edges.filter graph.drives) := by
      have split := edges.filter graph.drives
      rw [List.filter_append, none, List.append_nil] at split
      exact split.symm
    have companions := (((diff_linkEdges edges).filter graph.drives).trans driven).map companion
    exact (edges_addEdges graph _).trans ((companions.append_left _).trans
      graph.edges_completeEdges.symm)
  · rw [completeApart, nextId_addEdges]
    exact (nextId_addEdges graph graph.companions).symm
  · rw [completeApart, output_addEdges]
    exact (output_addEdges graph graph.companions).symm

/-- Companions run as edges do. -/
theorem parallel_completeApart {edge : Edge} (member : edge ∈ (graph.completeApart link).edges) :
    ∃ old ∈ graph.edges, old.source = edge.source ∧ old.target = edge.target := by
  rcases mem_edges_addEdges.mp member with old | new
  · exact ⟨edge, old, rfl, rfl⟩
  · rcases List.mem_map.mp new with ⟨old, driven, rfl⟩
    exact ⟨old, List.diff_subset _ _ (List.mem_filter.mp driven).1, rfl, rfl⟩

theorem contains_completeApart (graph : Graph) (link : Authored.Link) (id : NodeId) :
    (graph.completeApart link).contains id = graph.contains id :=
  contains_addEdges graph _ id

theorem Closed.completeApart (closed : graph.Closed) (link : Authored.Link) :
    (graph.completeApart link).Closed := by
  constructor
  · intro edge member
    rcases parallel_completeApart member with ⟨old, oldMember, source, -⟩
    rw [contains_completeApart, ← source]
    exact closed.sources old oldMember
  · intro edge member
    rcases parallel_completeApart member with ⟨old, oldMember, -, target⟩
    rw [contains_completeApart, ← target]
    exact closed.targets old oldMember

theorem Acyclic.completeApart (acyclic : graph.Acyclic) (link : Authored.Link) :
    (graph.completeApart link).Acyclic :=
  acyclic.of_parallel (fun id present => (contains_completeApart graph link id).symm.trans present)
    fun _ member => parallel_completeApart member

end CompleteApart

end Graph

end NodeMaterial
