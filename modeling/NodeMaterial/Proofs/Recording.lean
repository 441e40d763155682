import NodeMaterial.Proofs.Numbering

/-!
# What a compilation gives and what it leaves in its context

Two stages write to the context.  Building draws names, and elimination adds warnings.
So a compilation is known by the graph that is built: its outcome is what the stages
from pruning on give, and its warnings are those of the elimination, if it comes to that.
-/

namespace NodeMaterial

namespace Stage

/-- Whether a stage leaves the context as it is. -/
def isQuiet : Stage → Bool
  | .build => false
  | .eliminate => false
  | _ => true

theorem context_run {stage : Stage} (quiet : stage.isQuiet = true)
    (tree : Authored.Tree) (graph : Graph) (context : Context) :
    (stage.run tree graph context).2 = context := by
  cases stage with
  | build => cases quiet
  | eliminate => cases quiet
  | _ => rfl

/-- A run records what its first stage records, and then the others. -/
theorem context_runAll_cons
    (tree : Authored.Tree) (stage : Stage) (others : List Stage) (graph : Graph)
    (context : Context) :
    (runAll tree (stage :: others) graph context).context =
      match stage.run tree graph context with
      | (.error _, next) => next
      | (.ok result, next) => (runAll tree others result.1 next).context := by
  rw [runAll]
  rcases stage.run tree graph context with ⟨_ | result, next⟩
  · rfl
  · rfl

/-- Quiet stages leave no record. -/
theorem context_runAll_of_quiet {stages : List Stage}
    (quiet : ∀ stage ∈ stages, stage.isQuiet = true)
    (tree : Authored.Tree) (graph : Graph) (context : Context) :
    (runAll tree stages graph context).context = context := by
  induction stages generalizing graph with
  | nil => rfl
  | cons stage others induction =>
      rw [List.forall_mem_cons] at quiet
      have unchanged := context_run quiet.1 tree graph context
      rw [context_runAll_cons]
      rcases ran : stage.run tree graph context with ⟨_ | result, next⟩
      · exact (congrArg Prod.snd ran).symm.trans unchanged
      · have same : next = context := (congrArg Prod.snd ran).symm.trans unchanged
        dsimp only
        rw [same]
        exact induction quiet.2 result.1

end Stage

namespace Graph

/-- The warnings that the stages from pruning on give. -/
def warnings (graph : Graph) (tree : Authored.Tree) : List Diagnostic :=
  match graph.pruneTo tree with
  | .error _ => []
  | .ok (pruned, _) => pruned.eliminate.warnings

end Graph

/-- The context after the stages from pruning on. -/
theorem context_runAll_prune (tree : Authored.Tree) (graph : Graph) (context : Context) :
    (Stage.runAll tree [.prune, .eliminate, .fixLinks, .merge, .optimizeChannels, .validate] graph
      context).context =
      { context with diagnostics := context.diagnostics ++ graph.warnings tree } := by
  have prunes : Stage.prune.run tree graph context = (graph.pruneTo tree, context) := rfl
  rw [Stage.context_runAll_cons, prunes, Graph.warnings]
  rcases graph.pruneTo tree with _ | ⟨pruned, count⟩
  · simp
  · dsimp only
    have eliminates : Stage.eliminate.run tree pruned context =
        (pruned.eliminate.outcome.map fun count => (pruned.eliminate.graph, count),
          { context with diagnostics := context.diagnostics ++ pruned.eliminate.warnings }) := rfl
    rw [Stage.context_runAll_cons, eliminates]
    cases pruned.eliminate.outcome with
    | error failure => rfl
    | ok count => exact Stage.context_runAll_of_quiet (by decide) tree _ _

namespace Authored.Tree

/-- The warnings of a compilation that draws its names from a supply. -/
def warnings (tree : Tree) (names : NameSupply) : List Diagnostic :=
  match (Assembly.build tree names).1 with
  | .error _ => []
  | .ok built => built.completeEdges.1.warnings tree

/-- A compilation builds the tree, completes its edges and settles the graph. -/
theorem outcome_compile (tree : Tree) (context : Context) :
    (tree.compile context).1 =
      (Assembly.build tree context.names).1.bind fun built =>
        built.completeEdges.1.settle tree := by
  cases builds : (Assembly.build tree context.names).1 with
  | ok built => exact compile_eq_settle builds
  | error failure =>
      have stages : (tree.compile context).1 =
          (Stage.runAll tree Stage.all .empty context).outcome.mapError (·.2) := rfl
      have first : (Stage.build.run tree .empty context).1 = .error failure := by
        change (Assembly.build tree context.names).1.map _ = _
        rw [builds]
        rfl
      rw [stages, Stage.all, Stage.runAll_cons, first]
      rfl

/-- A compilation records the names of the built graph and its warnings, also where it fails. -/
theorem context_compile (tree : Tree) (context : Context) :
    (tree.compile context).2 =
      { names := (Assembly.build tree context.names).2
        diagnostics := context.diagnostics ++ tree.warnings context.names } := by
  have stages : (tree.compile context).2 =
      (Stage.runAll tree Stage.all .empty context).context := rfl
  have builds : Stage.build.run tree .empty context =
      ((Assembly.build tree context.names).1.map fun graph => (graph, graph.nodeCount),
        { context with names := (Assembly.build tree context.names).2 }) := rfl
  rw [stages, Stage.all, Stage.context_runAll_cons, builds, warnings]
  cases (Assembly.build tree context.names).1 with
  | error failure => simp [Except.map]
  | ok built =>
      have completes : ∀ next,
          Stage.completeEdges.run tree built next = (.ok built.completeEdges, next) :=
        fun _ => rfl
      dsimp only [Except.map]
      rw [Stage.context_runAll_cons, completes]
      exact context_runAll_prune tree built.completeEdges.1 _

end Authored.Tree

end NodeMaterial
