import NodeMaterial.Assembly.Build
import NodeMaterial.Pass.Channels
import NodeMaterial.Pass.Elimination
import NodeMaterial.Pass.SharedTextures
import NodeMaterial.Pass.Translucency
import NodeMaterial.Pass.Validity
import NodeMaterial.Stage

/-!
# Compiling a tree

The stages run one after the other, up to a last one, until one fails.  Each
completed stage leaves a report.  A context goes through all stages; it supplies
names and collects diagnostics, and what it holds is kept when a stage fails.
-/

namespace NodeMaterial

/-- What the stages of a compilation share. -/
structure Context where
  names : NameSupply := {}
  diagnostics : List Diagnostic := []
  deriving DecidableEq, Repr

/-- What a stage did, and how large it left the graph. -/
structure Report where
  stage : Stage
  nodes : Nat
  edges : Nat
  changed : Nat
  deriving DecidableEq, Repr

/-- A compilation up to some stage. -/
structure Run where
  reports : List Report
  context : Context
  /-- The graph, or the stage that failed and why. -/
  outcome : Except (Stage × Failure) Graph

namespace Graph

/-- Locates the output of a tree and removes what does not reach it. -/
def pruneTo (graph : Graph) (tree : Authored.Tree) : Except Failure (Graph × Nat) :=
  match graph.findOutput tree with
  | .error failure => .error failure
  | .ok output => (graph.setOutput output).prune

end Graph

namespace Stage

/-- Runs a stage on a graph; gives the graph that it leaves and a count of what it changed. -/
def run (stage : Stage) (tree : Authored.Tree) (graph : Graph) (context : Context) :
    Except Failure (Graph × Nat) × Context :=
  match stage with
  | .build =>
      let (built, names) := Assembly.build tree context.names
      (built.map fun graph => (graph, graph.nodeCount), { context with names })
  | .completeEdges => (.ok graph.completeEdges, context)
  | .prune => (graph.pruneTo tree, context)
  | .eliminate =>
      let eliminated := graph.eliminate
      (eliminated.outcome.map fun count => (eliminated.graph, count),
       { context with diagnostics := context.diagnostics ++ eliminated.warnings })
  | .fixLinks => (.ok (graph.fixLinks, 0), context)
  | .merge => (.ok graph.mergeNodes, context)
  | .optimizeChannels => (.ok graph.optimizeChannels, context)
  | .validate => (graph.validate.map fun _ => (graph, 0), context)

/-- Runs stages one after the other. -/
def runAll (tree : Authored.Tree) : List Stage → Graph → Context → Run
  | [], graph, context => ⟨[], context, .ok graph⟩
  | stage :: others, graph, context =>
      match stage.run tree graph context with
      | (.error failure, context) => ⟨[], context, .error (stage, failure)⟩
      | (.ok (graph, changed), context) =>
          let report : Report := ⟨stage, graph.nodeCount, graph.edgeCount, changed⟩
          let rest := runAll tree others graph context
          { rest with reports := report :: rest.reports }

end Stage

namespace Authored.Tree

/-- Compiles a tree up to a stage. -/
def compileTo (tree : Tree) (terminal : Stage) (context : Context) : Run :=
  Stage.runAll tree terminal.required .empty context

/-- Compiles a tree through all stages. -/
def compile (tree : Tree) (context : Context) : Except Failure Graph × Context :=
  let run := tree.compileTo .validate context
  (run.outcome.mapError (·.2), run.context)

end Authored.Tree

end NodeMaterial
