import NodeMaterial.Proofs.Commuting
import NodeMaterial.Proofs.Liveness

/-!
# A detour does not change what the stages give

A reroute that stands in for links can be taken out before dead nodes are removed: the
other nodes reach the output as before.  It can then be taken out before all other
reroutes.  All stages from pruning on therefore give the same for a graph with a detour
and for the graph without it.
-/

namespace NodeMaterial.Graph

open Relation

variable {graph : Graph} {via : NodeId}

/-! ## Pruning -/

/-- What feeds a node that is kept is kept. -/
theorem Closed.source_mem_ancestors (closed : graph.Closed) {edge : Edge} {output : NodeId}
    (member : edge ∈ graph.edges) (kept : edge.target ∈ graph.ancestors output) :
    edge.source ∈ graph.ancestors output := by
  rcases mem_ancestors.mp kept with ⟨present, path⟩
  exact mem_ancestors.mpr ⟨present, path.head
    ⟨closed.sources edge member, closed.targets edge member, edge, member, rfl, rfl⟩⟩

/-- A node that is kept is fed as before, for all that feeds it is kept. -/
theorem Closed.startInto_retain_ancestors (closed : graph.Closed) {id output : NodeId}
    (kept : id ∈ graph.ancestors output) :
    (graph.retain (graph.ancestors output)).startInto id = graph.startInto id := by
  apply startInto_congr
  rintro edge rfl
  rw [mem_edges_retain]
  constructor
  · exact fun member => member.1
  · exact fun member => ⟨member, closed.source_mem_ancestors member kept, kept⟩

section Pruning

variable (acyclic : graph.Acyclic) (closed : graph.Closed)

include acyclic closed

/-- A step away from a reroute is still there when the reroute has been taken out. -/
theorem step_bypassReroute_of_away {edge : Edge} (member : edge ∈ graph.edges)
    (target : edge.target ≠ via) (source : edge.source ≠ via) :
    (graph.bypassReroute via).Step edge.source edge.target := by
  refine ⟨?_, ?_, edge, ?_, rfl, rfl⟩
  · exact (contains_bypassReroute_of_ne graph source).trans (closed.sources edge member)
  · exact (contains_bypassReroute_of_ne graph target).trans (closed.targets edge member)
  · exact (acyclic.mem_edges_bypassReroute closed).mpr
      ⟨edge, member, redirectTo_of_away _ target source⟩

/-- Two steps through a reroute that one node feeds become one step. -/
theorem step_bypassReroute_of_through (fed : graph.FedByOne via) {edge out : Edge}
    (member : edge ∈ graph.edges) (target : edge.target = via)
    (outMember : out ∈ graph.edges) (outSource : out.source = via) :
    (graph.bypassReroute via).Step edge.source out.target := by
  have source : edge.source ≠ via := target ▸ acyclic.source_ne closed member
  have outTarget : out.target ≠ via := fun same =>
    acyclic.source_ne closed outMember (outSource.trans same.symm)
  refine ⟨?_, ?_, ?_⟩
  · exact (contains_bypassReroute_of_ne graph source).trans (closed.sources edge member)
  · exact (contains_bypassReroute_of_ne graph outTarget).trans (closed.targets out outMember)
  · cases starts : graph.startInto via with
    | none => exact absurd target (startInto_eq_none_iff.mp starts edge member)
    | some place =>
        rcases exists_first_of_startInto starts with ⟨first, firstMember, firstTarget, rfl, -⟩
        refine ⟨startFrom out first.start, ?_, ?_, rfl⟩
        · refine (acyclic.mem_edges_bypassReroute closed).mpr ⟨out, outMember, ?_⟩
          rw [redirectTo_of_source _ outTarget outSource, starts]
          rfl
        · exact fed first firstMember edge member firstTarget target

/-- Bypassing a detour keeps the paths between other nodes. -/
theorem reaches_bypassReroute_iff (fed : graph.FedByOne via) {id output : NodeId}
    (away : id ≠ via) (outputAway : output ≠ via) :
    (graph.bypassReroute via).Reaches id output ↔ graph.Reaches id output := by
  constructor
  · intro path
    exact ReflTransGen.trans_induction_on path (fun _ => .refl)
      (fun step => (transGen_of_step_bypass closed.sources head?_inEdges_fed step).to_reflTransGen)
      (fun _ _ before after => before.trans after)
  · intro path
    -- A path from the reroute itself is one from each node that feeds it.
    have both : (id ≠ via → (graph.bypassReroute via).Reaches id output) ∧
        (id = via → ∀ edge ∈ graph.edges, edge.target = via →
          (graph.bypassReroute via).Reaches edge.source output) := by
      clear away
      induction path using ReflTransGen.head_induction_on with
      | refl => exact ⟨fun _ => .refl, fun same => absurd same outputAway⟩
      | head step path induction =>
          rcases step with ⟨-, -, edge, member, rfl, rfl⟩
          constructor
          · intro source
            by_cases target : edge.target = via
            · exact induction.2 target edge member target
            · exact .head (step_bypassReroute_of_away acyclic closed member target source)
                (induction.1 target)
          · intro source into intoMember intoTarget
            have target : edge.target ≠ via := fun same =>
              acyclic.source_ne closed member (source.trans same.symm)
            exact .head (step_bypassReroute_of_through acyclic closed fed intoMember intoTarget
              member source) (induction.1 target)
    exact both.1 away

/-- A node other than the reroute is kept with the reroute if it is kept without it. -/
theorem mem_ancestors_bypassReroute (fed : graph.FedByOne via) {id output : NodeId}
    (away : id ≠ via) (outputAway : output ≠ via) :
    id ∈ (graph.bypassReroute via).ancestors output ↔ id ∈ graph.ancestors output := by
  rw [mem_ancestors, mem_ancestors, contains_bypassReroute_of_ne graph outputAway,
    reaches_bypassReroute_iff acyclic closed fed away outputAway]

/-- What becomes of an edge when dead nodes and the reroute go, in one order or the other. -/
theorem redirectTo_retain (fed : graph.FedByOne via) {output : NodeId} (outputAway : output ≠ via)
    {edge : Edge} (member : edge ∈ graph.edges) :
    (if edge.source ∈ graph.ancestors output ∧ edge.target ∈ graph.ancestors output then
      redirectTo via ((graph.retain (graph.ancestors output)).startInto via) edge else none) =
      (redirectTo via (graph.startInto via) edge).filter fun next =>
        next.source ∈ (graph.bypassReroute via).ancestors output ∧
          next.target ∈ (graph.bypassReroute via).ancestors output := by
  have kept : ∀ {id : NodeId}, id ≠ via →
      (id ∈ (graph.bypassReroute via).ancestors output ↔ id ∈ graph.ancestors output) :=
    fun away => mem_ancestors_bypassReroute acyclic closed fed away outputAway
  by_cases target : edge.target = via
  · rw [redirectTo_of_target _ target, redirectTo_of_target _ target, ite_self, Option.filter_none]
  by_cases source : edge.source = via
  · rw [redirectTo_of_source _ target source, redirectTo_of_source _ target source]
    by_cases targetKept : edge.target ∈ graph.ancestors output
    · have sourceKept := closed.source_mem_ancestors member targetKept
      have viaKept : via ∈ graph.ancestors output := source ▸ sourceKept
      rw [if_pos ⟨sourceKept, targetKept⟩, closed.startInto_retain_ancestors viaKept]
      cases starts : graph.startInto via with
      | none => rfl
      | some place =>
          rcases exists_first_of_startInto starts with ⟨first, firstMember, firstTarget, rfl, -⟩
          have firstAway : first.source ≠ via := firstTarget ▸ acyclic.source_ne closed firstMember
          have firstKept := closed.source_mem_ancestors firstMember (firstTarget ▸ viaKept)
          symm
          apply Option.filter_some_pos
          exact decide_eq_true ⟨(kept firstAway).mpr firstKept, (kept target).mpr targetKept⟩
    · rw [if_neg fun both => targetKept both.2]
      symm
      rw [Option.filter_eq_none_iff]
      intro next isNext
      rcases Option.map_eq_some_iff.mp isNext with ⟨place, -, rfl⟩
      simp [startFrom, kept target, targetKept]
  · rw [redirectTo_of_away _ target source, redirectTo_of_away _ target source,
      Option.filter_some]
    simp only [kept source, kept target, decide_eq_true_eq]

/-- A detour may be bypassed before or after the graph is pruned. -/
theorem bypassReroute_retain_ancestors (fed : graph.FedByOne via) {output : NodeId}
    (outputAway : output ≠ via) (isOutput : graph.output = some output)
    (present : graph.contains output = true) :
    (graph.retain (graph.ancestors output)).bypassReroute via =
      (graph.bypassReroute via).retain ((graph.bypassReroute via).ancestors output) := by
  have kept : ∀ {id : NodeId}, id ≠ via →
      (id ∈ (graph.bypassReroute via).ancestors output ↔ id ∈ graph.ancestors output) :=
    fun away => mem_ancestors_bypassReroute acyclic closed fed away outputAway
  apply eq_of_views
  · rw [nodes_bypassReroute, nodes_retain, nodes_retain, nodes_bypassReroute, List.filter_filter,
      List.filter_filter]
    apply List.filter_congr
    intro node _
    by_cases away : node.id = via
    · simp [away]
    · simp [kept away, Bool.and_comm]
  · have left := (acyclic.retain (graph.ancestors output)).edges_bypassReroute
      (closed.retain (graph.ancestors output)) via
    have right := (acyclic.edges_bypassReroute closed via).filter
      (fun edge => edge.source ∈ (graph.bypassReroute via).ancestors output ∧
        edge.target ∈ (graph.bypassReroute via).ancestors output)
    rw [edges_retain, List.filterMap_filter] at left
    rw [List.filter_filterMap, ← edges_retain] at right
    refine left.trans (List.Perm.trans (List.Perm.of_eq (List.filterMap_congr ?_)) right.symm)
    intro edge member
    simp only [decide_eq_true_eq]
    exact redirectTo_retain acyclic closed fed outputAway member
  · rw [nextId_bypassReroute]
    exact (nextId_bypassReroute graph via).symm
  · have outputKept : output ∈ graph.ancestors output := mem_ancestors.mpr ⟨present, .refl⟩
    have kept := (kept outputAway).mpr outputKept
    rw [output_retain, output_bypassReroute_of_ne isOutput outputAway,
      Option.filter_some_pos (List.contains_iff_mem.mpr kept)]
    apply output_bypassReroute_of_ne _ outputAway
    rw [output_retain, isOutput, Option.filter_some_pos (List.contains_iff_mem.mpr outputKept)]

end Pruning

/-! ## Elimination -/

/-- There is nothing to bypass at a number that is not that of a node. -/
theorem Closed.bypassReroute_of_absent (closed : graph.Closed)
    (absent : graph.contains via = false) : graph.bypassReroute via = graph := by
  have unfed : graph.inEdges via = [] := by
    rw [List.eq_nil_iff_forall_not_mem]
    intro edge entering
    rcases mem_inEdges.mp entering with ⟨member, rfl⟩
    exact absurd (closed.targets edge member) (by simp [absent])
  have nothing : (graph.forward via none).withoutNode via = graph := by
    rw [Graph.forward, Graph.withoutNode, absent]
    rfl
  rw [Graph.bypassReroute, unfed]
  exact nothing

/-- The node with a number, if there is one, is a reroute behind all other nodes. -/
def EndsIn (graph : Graph) (via : NodeId) : Prop :=
  ∀ node ∈ graph.nodes, node.id < via ∨ node.id = via ∧ node.kind = .reroute

/-- The last node of a graph is the one that bypassing it removes. -/
theorem EndsIn.nodes_eq (ends : graph.EndsIn via) {node : Node}
    (found : graph.node? via = some node) :
    graph.nodes = (graph.bypassReroute via).nodes ++ [node] := by
  rcases node?_eq_some_iff.mp found with ⟨member, isVia⟩
  rcases List.append_of_mem member with ⟨front, back, split⟩
  have ascending := graph.ascending
  rw [split, List.pairwise_append] at ascending
  rcases ascending with ⟨-, later, apart⟩
  have nothing : back = [] := by
    rw [List.eq_nil_iff_forall_not_mem]
    intro last lastMember
    have behind : node.id < last.id := (List.pairwise_cons.mp later).1 last lastMember
    have inside : last ∈ graph.nodes := by simp [split, lastMember]
    rcases ends last inside with before | ⟨same, -⟩ <;> lia
  have before : front.filter (·.id != via) = front := by
    rw [List.filter_eq_self]
    intro other otherMember
    have ahead : other.id < node.id := apart other otherMember node List.mem_cons_self
    exact bne_iff_ne.mpr (by lia)
  rw [nodes_bypassReroute, split, nothing, List.filter_append, before]
  simp [isVia]

/-- Bypassing the last reroute takes it from the end of the reroutes. -/
theorem EndsIn.idsOfKind (ends : graph.EndsIn via) (present : graph.contains via = true)
    (kind : Kind) :
    graph.idsOfKind kind =
      (graph.bypassReroute via).idsOfKind kind ++ if kind = .reroute then [via] else [] := by
  rcases contains_iff.mp present with ⟨node, found⟩
  rcases node?_eq_some_iff.mp found with ⟨member, isVia⟩
  have isReroute : node.kind = .reroute := by
    rcases ends node member with before | ⟨-, isReroute⟩
    · exact absurd isVia (Nat.ne_of_lt before)
    · exact isReroute
  rw [Graph.idsOfKind, ends.nodes_eq found, List.filter_append, List.map_append, Graph.idsOfKind]
  congr 1
  by_cases same : kind = .reroute
  · simp [same, isReroute, isVia]
  · simp [same, isReroute, Ne.symm same]

theorem idsOfKind_retain_subset (graph : Graph) (kept : List NodeId) (kind : Kind) :
    (graph.retain kept).idsOfKind kind ⊆ graph.idsOfKind kind := by
  rw [idsOfKind, nodes_retain]
  exact List.map_subset _ (List.filter_subset _ (List.filter_subset_self _))

/-- How much was eliminated matters only in that it was something. -/
theorem eliminateRest_congr
    {selectors parallaxes : List NodeId} {count other : Nat} (something : count ≠ 0)
    (otherSomething : other ≠ 0) :
    eliminateRest selectors parallaxes count graph =
      eliminateRest selectors parallaxes other graph := by
  rw [eliminateRest, eliminateRest]
  simp only [if_neg something, if_neg otherSomething]

theorem bypassReroute_setOutput (graph : Graph) {output : NodeId} (away : output ≠ via) :
    (graph.setOutput output).bypassReroute via = (graph.bypassReroute via).setOutput output := by
  have forwarded : ∀ feed, (graph.setOutput output).forward via feed =
      (graph.forward via feed).setOutput output := by
    intro feed
    cases feed with
    | none => rfl
    | some start => exact List.foldl_hom (fun current => setOutput current output) fun _ _ => rfl
  have removed : ∀ current : Graph, (current.setOutput output).withoutNode via =
      (current.withoutNode via).setOutput output := by
    intro current
    have same : (current.setOutput output).contains via = current.contains via := rfl
    rw [withoutNode, withoutNode, same]
    split
    · simp [setOutput, filterNodes, filterEdges, away]
    · rfl
  rw [bypassReroute, bypass, forwarded, removed]
  rfl

namespace Detoured

variable {reroutes : List NodeId} {relayed : NodeId → Prop}

/-- A detour makes no difference to what is eliminated. -/
theorem result_eliminate (detoured : Detoured reroutes relayed via graph)
    (ends : graph.EndsIn via) (covers : (graph.bypassReroute via).idsOfKind .reroute ⊆ reroutes)
    (live : (graph.bypassReroute via).Live) :
    graph.eliminate.result = (graph.bypassReroute via).eliminate.result := by
  cases present : graph.contains via with
  | false => rw [detoured.closed.bypassReroute_of_absent present]
  | true =>
      have reroutesAre := ends.idsOfKind present .reroute
      have selectorsAre := ends.idsOfKind present (.group .replace)
      have parallaxesAre := ends.idsOfKind present (.group .parallax)
      rw [if_pos rfl] at reroutesAre
      rw [if_neg (by simp), List.append_nil] at selectorsAre parallaxesAre
      rw [Graph.result_eliminate, Graph.result_eliminate, reroutesAre, selectorsAre, parallaxesAre,
        List.foldl_append, List.foldl_cons, List.foldl_nil, detoured.foldl_bypassReroute covers]
      by_cases nothing : ((graph.bypassReroute via).idsOfKind .reroute).length +
          ((graph.bypassReroute via).idsOfKind (.group .replace)).length +
          ((graph.bypassReroute via).idsOfKind (.group .parallax)).length = 0
      · -- The detour is all that is taken out, and pruning finds nothing dead after it.
        simp only [Nat.add_eq_zero_iff, List.length_eq_zero_iff] at nothing
        rw [nothing.1.1, nothing.1.2, nothing.2]
        exact congrArg (Except.map Prod.fst) (live.prune (detoured.closed.bypassReroute via))
      · exact eliminateRest_congr (by simp) nothing

/-- A detour stays one when the output is declared. -/
theorem setOutput (detoured : Detoured reroutes relayed via graph) {output : NodeId}
    (away : output ≠ via) : Detoured reroutes relayed via (graph.setOutput output) where
  closed := ⟨detoured.closed.sources, detoured.closed.targets⟩
  acyclic := detoured.acyclic
  other := detoured.other
  largest := detoured.largest
  fed := detoured.fed
  relays := by
    rw [bypassReroute_setOutput graph away]
    exact detoured.relays

/-- A detour stays one when the graph is pruned. -/
theorem retain (detoured : Detoured reroutes relayed via graph) {output : NodeId}
    (away : output ≠ via) (isOutput : graph.output = some output)
    (present : graph.contains output = true) :
    Detoured reroutes relayed via (graph.retain (graph.ancestors output)) where
  closed := detoured.closed.retain _
  acyclic := detoured.acyclic.retain _
  other := detoured.other
  largest edge member := detoured.largest edge (mem_edges_retain.mp member).1
  fed edge member next nextMember :=
    detoured.fed edge (mem_edges_retain.mp member).1 next (mem_edges_retain.mp nextMember).1
  relays := by
    rw [bypassReroute_retain_ancestors detoured.acyclic detoured.closed detoured.fed away isOutput
      present]
    rcases detoured.relays with unfed | ⟨fed, spreads⟩
    · left
      rw [startInto_eq_none_iff] at unfed ⊢
      exact fun edge member => unfed edge (mem_edges_retain.mp member).1
    · refine Or.inr ⟨fun id isRelayed edge member next nextMember => ?_, fun edge member => ?_⟩
      · exact fed id isRelayed edge (mem_edges_retain.mp member).1 next
          (mem_edges_retain.mp nextMember).1
      · exact spreads edge (mem_edges_retain.mp member).1

/-- The stages from pruning on give the same with a detour and without it. -/
theorem settle (detoured : Detoured reroutes relayed via graph) (ends : graph.EndsIn via)
    (covers : (graph.bypassReroute via).idsOfKind .reroute ⊆ reroutes)
    {tree direct : Authored.Tree}
    (sameOutput : graph.findOutput tree = (graph.bypassReroute via).findOutput direct) :
    graph.settle tree = (graph.bypassReroute via).settle direct := by
  rw [Graph.settle, Graph.settle, pruneTo, pruneTo, sameOutput]
  cases located : (graph.bypassReroute via).findOutput direct with
  | error failure => rfl
  | ok output =>
      have stays := contains_of_findOutput located
      have away : output ≠ via := by
        rintro rfl
        exact absurd rfl (contains_withoutNode.mp stays).1
      have present : (graph.setOutput output).contains output = true :=
        (contains_bypassReroute_of_ne graph away).symm.trans stays
      have set := detoured.setOutput away
      have pruned := bypassReroute_retain_ancestors set.acyclic set.closed set.fed away rfl present
      rw [bypassReroute_setOutput graph away] at pruned
      have stillEnds : ((graph.setOutput output).retain
          ((graph.setOutput output).ancestors output)).EndsIn via :=
        fun node member => ends node (List.mem_filter.mp member).1
      have same := (set.retain away rfl present).result_eliminate stillEnds
      rw [pruned] at same
      have finished : ((graph.setOutput output).retain
          ((graph.setOutput output).ancestors output)).finish =
          (((graph.bypassReroute via).setOutput output).retain
            (((graph.bypassReroute via).setOutput output).ancestors output)).finish := by
        rw [finish, finish, same]
        · exact fun id member => covers (idsOfKind_retain_subset _ _ _ member)
        · exact live_retain rfl stays
      exact finished

end Detoured

end NodeMaterial.Graph
