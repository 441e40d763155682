import NodeMaterial.Compilation
import NodeMaterial.Proofs.Building
import NodeMaterial.Proofs.Composition
import NodeMaterial.Proofs.WellFormed

/-!
# When a compiled tree composes

A compiled tree without a cycle composes unless an edge misses its input.  That can
happen in two ways only.  An edge from a translucency group gets a companion one input
further on, whether or not there is such an input.  And an accessor takes over the
edges of its splitters, even if one leads to another of its splitters, which is gone.
-/

namespace NodeMaterial

open NodeMaterial.Graph

/-! ## The stages of a successful compilation -/

namespace Stage

variable {tree : Authored.Tree} {stage : Stage} {others : List Stage}
  {graph next result : Graph} {context nextContext : Context} {count : Nat}

theorem runAll_cons_of_run
    (ran : stage.run tree graph context = (.ok (next, count), nextContext)) :
    (runAll tree (stage :: others) graph context).outcome =
      (runAll tree others next nextContext).outcome := by
  rw [runAll, ran]

/-- A run that succeeds hands the graph of its first stage on to the others. -/
theorem exists_of_runAll_cons_eq_ok
    (done : (runAll tree (stage :: others) graph context).outcome = .ok result) :
    ∃ next count nextContext,
      stage.run tree graph context = (.ok (next, count), nextContext) ∧
        (runAll tree others next nextContext).outcome = .ok result := by
  rw [runAll] at done
  split at done
  · cases done
  · rename_i next count nextContext ran
    exact ⟨next, count, nextContext, ran, done⟩

end Stage

/-- The graphs that a compilation goes through. -/
structure Trace (tree : Authored.Tree) (context : Context)
    (built pruned merged graph : Graph) : Prop where
  builds : (Assembly.build tree context.names).1 = .ok built
  prunes : ∃ count, built.completeEdges.1.pruneTo tree = .ok (pruned, count)
  eliminates : ∃ count, pruned.eliminate.outcome = .ok count
  merges : merged = pruned.eliminate.graph.fixLinks.mergeNodes.1
  exposes : graph = merged.optimizeChannels.1

theorem exists_of_map_eq_ok
    {ε α β : Type} {outcome : Except ε α} {change : α → β} {result : β}
    (done : outcome.map change = .ok result) :
    ∃ value, outcome = .ok value ∧ change value = result := by
  cases outcome with
  | error => cases done
  | ok value => exact ⟨value, rfl, Except.ok.inj done⟩

/-- Compiling is running all stages on the empty graph. -/
theorem runAll_of_compile
    {tree : Authored.Tree} {context : Context} {graph : Graph}
    (compiled : (tree.compile context).1 = .ok graph) :
    (Stage.runAll tree Stage.all .empty context).outcome = .ok graph := by
  change (Stage.runAll tree Stage.all .empty context).outcome.mapError (·.2) = .ok graph
    at compiled
  cases outcome : (Stage.runAll tree Stage.all .empty context).outcome with
  | error failure => simp [outcome, Except.mapError] at compiled
  | ok result => simpa [outcome, Except.mapError] using compiled

theorem exists_trace
    {tree : Authored.Tree} {context : Context} {graph : Graph}
    (compiled : (tree.compile context).1 = .ok graph) :
    ∃ built pruned merged,
      Trace tree context built pruned merged graph ∧
        (tree.compileTo .merge context).outcome = .ok merged := by
  have done := runAll_of_compile compiled
  rcases Stage.exists_of_runAll_cons_eq_ok done with ⟨built, _, _, builds, done⟩
  rcases Stage.exists_of_runAll_cons_eq_ok done with ⟨completed, _, _, completes, done⟩
  rcases Stage.exists_of_runAll_cons_eq_ok done with ⟨pruned, count, _, prunes, done⟩
  rcases Stage.exists_of_runAll_cons_eq_ok done with ⟨eliminated, _, _, eliminates, done⟩
  rcases Stage.exists_of_runAll_cons_eq_ok done with ⟨flagged, _, _, flags, done⟩
  rcases Stage.exists_of_runAll_cons_eq_ok done with ⟨merged, _, _, merges, done⟩
  rcases Stage.exists_of_runAll_cons_eq_ok done with ⟨exposed, _, _, exposes, done⟩
  rcases Stage.exists_of_runAll_cons_eq_ok done with ⟨valid, _, _, validates, done⟩
  have throughMerge : (tree.compileTo .merge context).outcome = .ok merged := by
    change (Stage.runAll tree [.build, .completeEdges, .prune, .eliminate, .fixLinks, .merge]
      .empty context).outcome = .ok merged
    rw [Stage.runAll_cons_of_run builds, Stage.runAll_cons_of_run completes,
      Stage.runAll_cons_of_run prunes, Stage.runAll_cons_of_run eliminates,
      Stage.runAll_cons_of_run flags, Stage.runAll_cons_of_run merges]
    rfl
  refine ⟨built, pruned, merged, ?_, throughMerge⟩
  rcases exists_of_map_eq_ok (congrArg Prod.fst builds) with ⟨assembled, buildSucceeds, counted⟩
  have builtIs : assembled = built := congrArg Prod.fst counted
  rw [builtIs] at buildSucceeds
  rcases exists_of_map_eq_ok (congrArg Prod.fst eliminates) with
    ⟨_, eliminationSucceeds, counted⟩
  have eliminatedIs : pruned.eliminate.graph = eliminated := congrArg Prod.fst counted
  rcases exists_of_map_eq_ok (congrArg Prod.fst validates) with ⟨_, -, unchanged⟩
  have validIs : exposed = valid := congrArg Prod.fst unchanged
  have completedIs : built.completeEdges.1 = completed :=
    congrArg Prod.fst (Except.ok.inj (congrArg Prod.fst completes))
  have flaggedIs : eliminated.fixLinks = flagged :=
    congrArg Prod.fst (Except.ok.inj (congrArg Prod.fst flags))
  have mergedIs : flagged.mergeNodes.1 = merged :=
    congrArg Prod.fst (Except.ok.inj (congrArg Prod.fst merges))
  have exposedIs : merged.optimizeChannels.1 = exposed :=
    congrArg Prod.fst (Except.ok.inj (congrArg Prod.fst exposes))
  have finished : valid = graph := Except.ok.inj done
  constructor
  · exact buildSucceeds
  · rw [completedIs]
    exact ⟨count, congrArg Prod.fst prunes⟩
  · exact ⟨_, eliminationSucceeds⟩
  · rw [eliminatedIs, flaggedIs, mergedIs]
  · rw [exposedIs, validIs, finished]

/-! ## Companions -/

namespace Graph

variable {excused : Kind → Prop} {tree : Authored.Tree} {graph : Graph}

theorem mem_companions {edge : Edge} :
    edge ∈ graph.companions ↔
      ∃ node ∈ graph.nodes, ∃ old ∈ graph.edges,
        old.source = node.id ∧ drivesTranslucency node old = true ∧ companion old = edge := by
  simp only [companions, List.mem_flatMap, List.mem_map, List.mem_filter, mem_outEdges, and_assoc]

/-- The last output of a translucency group hands on parameters, so another one follows. -/
theorem starts_companion
    (built : Assembly.Built graph) {edge : Edge} (member : edge ∈ graph.companions) :
    graph.Starts edge := by
  rcases mem_companions.mp member with ⟨node, nodeMember, old, -, source, drives, rfl⟩
  simp only [drivesTranslucency, Bool.and_eq_true, beq_iff_eq, Option.any_eq_true] at drives
  rcases drives with ⟨kind, socket, socketFound, name⟩
  rcases (built.nodes node nodeMember).translucency kind with ⟨front, linked, outputs⟩
  have inFront : old.outSocket < front.length := by
    by_contra behind
    have last : socket = Assembly.translucencyParams linked := by
      rw [outputs, List.getElem?_append_right (Nat.le_of_not_lt behind)] at socketFound
      exact (List.mem_singleton.mp (List.mem_of_getElem? socketFound))
    have different : "TranslucencyParams" ≠ "Translucency" := by decide
    rw [last] at name
    exact different name
  refine ⟨node, ?_, ?_⟩
  · rw [companion, source]
    exact node?_of_mem nodeMember
  · rw [outputs, List.length_append]
    exact Nat.succ_lt_succ inFront

/-- Companions keep a graph sound if they land, or if translucency groups are excused. -/
theorem sound_completeEdges
    (built : Assembly.Built graph)
    (fits : excused (.group .translucency) ∨
      ∀ companion ∈ graph.companions, graph.Lands companion) :
    graph.completeEdges.1.Sound excused := by
  apply (built.sound excused).addEdges
  · exact fun edge member => starts_companion built member
  · intro edge member
    rcases fits with isExcused | lands
    · rcases mem_companions.mp member with ⟨node, nodeMember, old, -, source, drives, rfl⟩
      simp only [drivesTranslucency, Bool.and_eq_true, beq_iff_eq] at drives
      refine Or.inl ⟨node, ?_, drives.1 ▸ isExcused⟩
      rw [companion, source]
      exact node?_of_mem nodeMember
    · exact Or.inr (lands edge member)

/-- Companions run as edges did before. -/
theorem parallel_completeEdges {edge : Edge} (member : edge ∈ graph.completeEdges.1.edges) :
    ∃ old ∈ graph.edges, old.source = edge.source ∧ old.target = edge.target := by
  rcases mem_edges_addEdges.mp member with old | new
  · exact ⟨edge, old, rfl, rfl⟩
  · rcases mem_companions.mp new with ⟨-, -, old, oldMember, -, -, rfl⟩
    exact ⟨old, oldMember, rfl, rfl⟩

theorem keepsKinds_completeEdges (graph : Graph) : graph.completeEdges.1.KeepsKinds graph :=
  keepsKinds_addEdges graph graph.companions

theorem unfed_completeEdges (built : Assembly.Built graph) : graph.completeEdges.1.Unfed := by
  refine (built.sound fun _ => False).unfed.of_targets (keepsKinds_completeEdges graph) ?_
  intro edge member
  rcases parallel_completeEdges member with ⟨old, oldMember, -, target⟩
  exact ⟨old, oldMember, target⟩

theorem Acyclic.completeEdges (acyclic : graph.Acyclic) : graph.completeEdges.1.Acyclic :=
  acyclic.of_parallel (keepsKinds_completeEdges graph).present fun _ => parallel_completeEdges

/-- Pruning keeps what the output of the tree depends on. -/
theorem pruneTo_eq_ok
    {pruned : Graph} {count : Nat} (done : graph.pruneTo tree = .ok (pruned, count)) :
    ∃ output, graph.findOutput tree = .ok output ∧
      pruned = (graph.setOutput output).retain ((graph.setOutput output).ancestors output) := by
  rw [pruneTo] at done
  split at done
  · cases done
  · rename_i output located
    rcases prune_eq done with ⟨_, isOutput, prunedIs⟩
    cases isOutput
    exact ⟨output, located, prunedIs⟩

end Graph

/-! ## The graph of a successful compilation -/

section Traces

variable {excused : Kind → Prop} {tree : Authored.Tree} {context : Context}
  {built pruned merged graph : Graph}

theorem Trace.unfed_pruned (trace : Trace tree context built pruned merged graph) :
    pruned.Unfed := by
  rcases trace.prunes with ⟨count, done⟩
  rcases pruneTo_eq_ok done with ⟨output, -, rfl⟩
  have completed : built.completeEdges.1.Unfed :=
    unfed_completeEdges (Assembly.built_of_build trace.builds)
  have located : (built.completeEdges.1.setOutput output).Unfed := completed
  exact located.retain _

/-- The compiled graph is sound if companions and the channels pass leave it sound. -/
theorem Trace.sound
    (trace : Trace tree context built pruned merged graph) (acyclic : built.Acyclic)
    (strict : ∀ kind : Kind, kind.handsOn = true → ¬ excused kind)
    (companionsFit : excused (.group .translucency) ∨
      ∀ companion ∈ built.companions, built.Lands companion)
    (channelsFit : (∀ count, excused (.vertexChannels count)) ∨ merged.SplittersApart) :
    graph.Sound excused ∧ graph.Acyclic := by
  have unfed := trace.unfed_pruned
  have prunedSound : pruned.Sound excused ∧ pruned.Acyclic := by
    rcases trace.prunes with ⟨count, done⟩
    rcases pruneTo_eq_ok done with ⟨output, -, rfl⟩
    have completed : built.completeEdges.1.Sound excused :=
      sound_completeEdges (Assembly.built_of_build trace.builds) companionsFit
    have located : (built.completeEdges.1.setOutput output).Sound excused :=
      ⟨completed.starts, completed.lands, completed.shaped⟩
    have locatedAcyclic : (built.completeEdges.1.setOutput output).Acyclic :=
      acyclic.completeEdges
    exact ⟨located.retain _, locatedAcyclic.retain _⟩
  rcases prunedSound.1.eliminate strict prunedSound.2 with ⟨eliminated, eliminatedAcyclic⟩
  rcases eliminated.fixLinks.mergeGeometry strict unfed.eliminate.fixLinks
    eliminatedAcyclic.fixLinks with ⟨shared, sharedAcyclic⟩
  rcases shared.mergeTextures strict sharedAcyclic with ⟨mergedSound, mergedAcyclic⟩
  rw [trace.exposes]
  rw [trace.merges] at channelsFit ⊢
  exact mergedSound.optimizeChannels strict mergedAcyclic channelsFit

end Traces

/-- The kinds of nodes whose edges may miss their inputs in a compiled graph. -/
def MayMiss (kind : Kind) : Prop :=
  kind = .group .translucency ∨ ∃ count, kind = .vertexChannels count

/-- The kinds whose edges may miss are not among those that hand edges on. -/
theorem mayMiss_strict (kind : Kind) (handsOn : kind.handsOn = true) : ¬ MayMiss kind := by
  rintro (rfl | ⟨count, rfl⟩)
  · cases handsOn
  · cases handsOn

/-- A sound graph without a cycle composes if its excused edges land as well. -/
theorem Graph.Sound.compose_cases
    {excused : Kind → Prop} {graph : Graph}
    (sound : graph.Sound excused) (acyclic : graph.Acyclic) :
    (∃ instructions, graph.compose = .ok instructions ∧
      ∀ edge ∈ graph.edges, graph.Lands edge) ∨
    ∃ edge ∈ graph.edges, graph.Excused excused edge ∧ ¬ graph.Lands edge ∧
      graph.compose = .error (.danglingEdge edge) := by
  rcases acyclic.compose_cases fun _ => sound.source_present with
    ⟨instructions, composed, find⟩ | ⟨edge, member, misses, failed⟩
  · exact Or.inl ⟨instructions, composed, fun edge member => (find edge member).2⟩
  · have notLands : ¬ graph.Lands edge :=
      fun lands => misses ⟨sound.starts edge member, lands⟩
    exact Or.inr
      ⟨edge, member, (sound.lands edge member).resolve_right notLands, notLands, failed⟩

/--
A compiled tree whose built graph has no cycle composes exactly if the edges that leave
translucency groups and vertex channels find their inputs, and any violation that is
reported is one of these edges.  It always composes if companions find their inputs and
no two splitters of one accessor feed each other.
-/
theorem compiled_composes_iff
    {tree : Authored.Tree} {context : Context} {built graph : Graph}
    (builds : (Assembly.build tree context.names).1 = .ok built) (acyclic : built.Acyclic)
    (compiled : (tree.compile context).1 = .ok graph) :
    ((∃ instructions, graph.compose = .ok instructions) ↔
      ∀ edge ∈ graph.edges, graph.Excused MayMiss edge → graph.Lands edge) ∧
    (∀ violation, graph.compose = .error violation →
      ∃ edge ∈ graph.edges, graph.Excused MayMiss edge ∧ ¬ graph.Lands edge ∧
        violation = .danglingEdge edge) ∧
    ((∀ companion ∈ built.companions, built.Lands companion) →
      (∀ merged, (tree.compileTo .merge context).outcome = .ok merged →
        merged.SplittersApart) →
      ∃ instructions, graph.compose = .ok instructions) := by
  rcases exists_trace compiled with ⟨built', pruned, merged, trace, throughMerge⟩
  have same : built' = built := Except.ok.inj (trace.builds.symm.trans builds)
  rw [same] at trace
  rcases trace.sound acyclic mayMiss_strict (Or.inl (Or.inl rfl))
    (Or.inl fun count => Or.inr ⟨count, rfl⟩) with ⟨sound, stillAcyclic⟩
  refine ⟨?_, ?_, ?_⟩
  · rcases sound.compose_cases stillAcyclic with
      ⟨instructions, composed, lands⟩ | ⟨edge, member, excuse, misses, failed⟩
    · constructor
      · exact fun _ edge member _ => lands edge member
      · exact fun _ => ⟨instructions, composed⟩
    · constructor
      · rintro ⟨instructions, composed⟩
        rw [failed] at composed
        cases composed
      · exact fun lands => absurd (lands edge member excuse) misses
  · intro violation failed
    rcases sound.compose_cases stillAcyclic with
      ⟨instructions, composed, -⟩ | ⟨edge, member, excuse, misses, failedAt⟩
    · rw [composed] at failed
      cases failed
    · refine ⟨edge, member, excuse, misses, ?_⟩
      exact Except.error.inj (failed.symm.trans failedAt)
  · intro companionsLand splittersApart
    rcases trace.sound acyclic (fun _ _ => id) (Or.inr companionsLand)
      (Or.inr (splittersApart merged throughMerge)) with ⟨strictSound, _⟩
    rcases strictSound.compose_cases stillAcyclic with
      ⟨instructions, composed, -⟩ | ⟨edge, -, ⟨_, -, impossible⟩, -, -⟩
    · exact ⟨instructions, composed⟩
    · exact impossible.elim

/-- The strength of a translucency group drives a mix, next to a channel of a vertex colour. -/
def translucentMix : Authored.Tree :=
  { nodes :=
      [{ name := "Paint", type := "GEOMETRY", outputs := [.titled "Vertex Color" true .zero] },
       { name := "Split", type := "SEPRGB", inputs := [.titled "Image" true .zero],
         outputs := [.titled "R" true .zero, .titled "G" false .zero, .titled "B" false .zero] },
       { name := "Glow", type := "GROUP", groupName := some "TRANSLUCENCY",
         outputs := [.titled "Translucency" true .zero] },
       { name := "Mix", type := "MIX_RGB", blendType := some "MIX",
         inputs := [.titled "Fac" true .zero, .titled "Color1" false .zero,
           .titled "Color2" true .zero],
         outputs := [.titled "Color" true .zero] },
       { name := "Out", type := "OUTPUT", inputs := [.titled "Color" true .zero] }]
    links :=
      [⟨"Paint", "Vertex Color", "Split", "Image"⟩, ⟨"Split", "R", "Mix", "Color2"⟩,
       ⟨"Glow", "Translucency", "Mix", "Fac"⟩, ⟨"Mix", "Color", "Out", "Color"⟩] }

/-- A translucency group whose companion lands in range. -/
theorem compiled_composes_translucentMix :
    ∃ built graph,
      (Assembly.build translucentMix {}).1 = .ok built ∧ built.Acyclic ∧
      built.companions = [⟨2, 3, 1, 1⟩] ∧
      (translucentMix.compile {}).1 = .ok graph ∧ graph.nodeCount = 4 ∧
      ∃ instructions, graph.compose = .ok instructions := by
  have buildsWell : (Assembly.build translucentMix {}).1.map (fun built =>
      decide (built.Acyclic ∧ built.companions = [⟨2, 3, 1, 1⟩] ∧
        ∀ companion ∈ built.companions, built.Lands companion)) = .ok true := by
    decide +kernel
  have mergesWell : (translucentMix.compileTo .merge {}).outcome.map
      (fun merged => decide merged.SplittersApart) = .ok true := by
    decide +kernel
  have compiles : (translucentMix.compile {}).1.map Graph.nodeCount = .ok 4 := by
    decide +kernel
  rcases exists_of_map_eq_ok buildsWell with ⟨built, builds, checked⟩
  rcases of_decide_eq_true checked with ⟨acyclic, companions, companionsLand⟩
  rcases exists_of_map_eq_ok compiles with ⟨graph, compiled, count⟩
  refine ⟨built, graph, builds, acyclic, companions, compiled, count, ?_⟩
  apply (compiled_composes_iff builds acyclic compiled).2.2 companionsLand
  intro merged throughMerge
  rw [throughMerge] at mergesWell
  exact of_decide_eq_true (Except.ok.inj mergesWell)

/-- The strength of a translucency group drives the only input of the output. -/
def strengthIntoColor : Authored.Tree :=
  { nodes :=
      [{ name := "T", type := "GROUP", groupName := some "TRANSLUCENCY",
         outputs := [.titled "Translucency" true .zero] },
       { name := "Out", type := "OUTPUT", inputs := [.titled "Color" true .zero] }]
    links := [⟨"T", "Translucency", "Out", "Color"⟩] }

/-- It has no cycle and compiles, but its companion leads to an input that does not exist. -/
theorem strengthIntoColor_dangles :
    (Assembly.build strengthIntoColor {}).1.map (fun built => decide built.Acyclic) = .ok true ∧
    (strengthIntoColor.compile {}).1.map Graph.compose =
      .ok (.error (.danglingEdge ⟨0, 1, 1, 1⟩)) := by
  constructor
  · decide +kernel
  · decide +kernel

end NodeMaterial
