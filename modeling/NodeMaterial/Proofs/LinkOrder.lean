import NodeMaterial.Proofs.Linking
import NodeMaterial.Proofs.Recording

/-!
# The order of links does not matter

Links are added when all nodes are there.  Whether a link finds its nodes, and which
edges it becomes, depends on these nodes alone, and a bag of edges forgets the order in
which it was filled.  No later stage looks at the links of a tree.

The order shows only when several links miss a node: compiling then reports the first.
-/

namespace NodeMaterial

namespace Graph

/-- The bag of edges keeps them in order, so the order of insertion does not show. -/
theorem addEdges_of_perm (graph : Graph) {edges others : List Edge} (permuted : edges.Perm others) :
    graph.addEdges edges = graph.addEdges others := by
  apply eq_of_views
  · rw [nodes_addEdges, nodes_addEdges]
  · calc
      (graph.addEdges edges).edges.Perm (graph.edges ++ edges) := edges_addEdges graph edges
      _ |>.Perm (graph.edges ++ others) := permuted.append_left graph.edges
      _ |>.Perm (graph.addEdges others).edges := (edges_addEdges graph others).symm
  · rw [nextId_addEdges, nextId_addEdges]
  · rw [output_addEdges, output_addEdges]

variable {tree other : Authored.Tree}

/-- Pruning looks at the nodes of a tree alone. -/
theorem pruneTo_of_nodes (graph : Graph) (nodes : tree.nodes = other.nodes) :
    graph.pruneTo tree = graph.pruneTo other := by
  rw [pruneTo, pruneTo, findOutput, findOutput, Authored.Tree.outputName?,
    Authored.Tree.outputName?, nodes]

theorem settle_of_nodes (graph : Graph) (nodes : tree.nodes = other.nodes) :
    graph.settle tree = graph.settle other := by
  rw [settle, settle, graph.pruneTo_of_nodes nodes]

theorem warnings_of_nodes (graph : Graph) (nodes : tree.nodes = other.nodes) :
    graph.warnings tree = graph.warnings other := by
  rw [warnings, warnings, graph.pruneTo_of_nodes nodes]

end Graph

/-- The same outcome, or two links that miss a node, perhaps different ones. -/
inductive SameButForMissing {α : Type} : Except Failure α → Except Failure α → Prop
  | same (outcome : Except Failure α) : SameButForMissing outcome outcome
  | missing (first second : String) :
      SameButForMissing (.error (.unknownNode first)) (.error (.unknownNode second))

/-- Stages that follow see the graph alone, so they keep the results alike. -/
theorem SameButForMissing.bind {α β : Type} {first second : Except Failure α}
    (alike : SameButForMissing first second) (next : α → Except Failure β) :
    SameButForMissing (first.bind next) (second.bind next) := by
  cases alike with
  | same => exact .same _
  | missing one another => exact .missing one another

namespace Assembly

open NodeMaterial.Graph

variable {links others : List Authored.Link}

/-- Links add the same edges in any order, and are refused in any order. -/
theorem addLinks_of_perm (permuted : links.Perm others) (graph : Graph) :
    SameButForMissing (addLinks links graph) (addLinks others graph) := by
  have missedAlike : (links.findSome? (missing? graph)).isSome =
      (others.findSome? (missing? graph)).isSome := by
    rw [Bool.eq_iff_iff, List.isSome_findSome?, List.isSome_findSome?, permuted.any_eq]
  have edgesAlike : graph.addEdges (links.flatMap (linkEdges graph)) =
      graph.addEdges (others.flatMap (linkEdges graph)) :=
    graph.addEdges_of_perm (permuted.flatMap_right _)
  rw [addLinks_eq, addLinks_eq, edgesAlike]
  cases first : links.findSome? (missing? graph) with
  | none =>
      rw [first, Option.isSome_none, eq_comm, Option.isSome_eq_false_iff,
        Option.isNone_iff_eq_none] at missedAlike
      rw [missedAlike]
      exact .same _
  | some name =>
      rw [first, Option.isSome_some, eq_comm, Option.isSome_iff_exists] at missedAlike
      rcases missedAlike with ⟨another, second⟩
      rw [second]
      exact .missing name another

/-- Building draws its names for the nodes, before it looks at links. -/
theorem build_of_perm (permuted : links.Perm others) (nodes : List Authored.Node)
    (supply : NameSupply) :
    SameButForMissing (build ⟨nodes, links⟩ supply).1 (build ⟨nodes, others⟩ supply).1 ∧
      (build ⟨nodes, links⟩ supply).2 = (build ⟨nodes, others⟩ supply).2 := by
  rw [build, build]
  rcases addNodes nodes .empty supply with ⟨_ | scaffold, drawn⟩
  · exact ⟨.same _, rfl⟩
  · exact ⟨addLinks_of_perm permuted scaffold, rfl⟩

end Assembly

namespace Authored.Tree

/-- Warnings are about nodes and edges, neither of which depends on the order of links. -/
theorem warnings_of_perm {nodes : List Node} {links others : List Link}
    (permuted : links.Perm others) (names : NameSupply) :
    (⟨nodes, links⟩ : Tree).warnings names = (⟨nodes, others⟩ : Tree).warnings names := by
  have builds := (Assembly.build_of_perm permuted nodes names).1
  rw [warnings, warnings]
  generalize (Assembly.build ⟨nodes, links⟩ names).1 = first at builds
  generalize (Assembly.build ⟨nodes, others⟩ names).1 = second at builds
  cases builds with
  | missing one another => rfl
  | same =>
      cases first with
      | error failure => rfl
      | ok built => exact built.completeEdges.1.warnings_of_nodes rfl

/--
A tree compiles to the same graph in whatever order its links are listed, or it fails for
the same reason, except that another link may be the first to miss its node.  Names and
diagnostics are the same in any case.
-/
theorem compile_link_order (tree : Tree) {links : List Link} (permuted : tree.links.Perm links)
    (context : Context) :
    SameButForMissing (tree.compile context).1 ({ tree with links }.compile context).1 ∧
      (tree.compile context).2 = ({ tree with links }.compile context).2 := by
  rcases tree with ⟨nodes, drawn⟩
  rcases Assembly.build_of_perm permuted nodes context.names with ⟨builds, names⟩
  constructor
  · have settles : ∀ built : Graph,
        built.completeEdges.1.settle ⟨nodes, drawn⟩ = built.completeEdges.1.settle ⟨nodes, links⟩ :=
      fun built => built.completeEdges.1.settle_of_nodes rfl
    simp only [outcome_compile, settles]
    exact builds.bind _
  · rw [context_compile, context_compile, names]
    congr 2
    exact warnings_of_perm permuted context.names

/-- Two colours, shown one over the other. -/
def overlaidColors : Tree where
  nodes :=
    [{ name := "A", type := "RGB", outputs := [.titled "Color" true .zero] },
     { name := "B", type := "RGB", outputs := [.titled "Color" true .zero] },
     { name := "Out", type := "OUTPUT", inputs := [.titled "Color" true .zero] }]
  links := [⟨"B", "Color", "Out", "Color"⟩, ⟨"A", "Color", "Out", "Color"⟩]

/-- The two colours, with links from nodes that are not there. -/
def strayColors : Tree :=
  { overlaidColors with
    links := ⟨"X", "Color", "Out", "Color"⟩ :: ⟨"Y", "Color", "Out", "Color"⟩ ::
      overlaidColors.links }

/-- Two links end at one input, and two links name nodes that do not exist. -/
theorem compile_link_order_reversed :
    ((overlaidColors.compile {}).1.map Graph.edges = .ok [⟨0, 2, 0, 0⟩, ⟨1, 2, 0, 0⟩] ∧
      SameButForMissing (overlaidColors.compile {}).1
        ({ overlaidColors with links := overlaidColors.links.reverse }.compile {}).1) ∧
    ((strayColors.compile {}).1 = .error (.unknownNode "X") ∧
      ({ strayColors with links := strayColors.links.reverse }.compile {}).1 =
        .error (.unknownNode "Y") ∧
      SameButForMissing (strayColors.compile {}).1
        ({ strayColors with links := strayColors.links.reverse }.compile {}).1) := by
  refine ⟨⟨by decide +kernel, ?_⟩, by decide +kernel, by decide +kernel, ?_⟩
  · exact (@compile_link_order overlaidColors _ (List.reverse_perm _).symm {}).1
  · exact (@compile_link_order strayColors _ (List.reverse_perm _).symm {}).1

end Authored.Tree

end NodeMaterial
