import NodeMaterial.Proofs.Padding

/-!
# Dead ends do not show

A dead end of a tree consists of further nodes and of links that all lead to these nodes,
from nodes of the tree or from each other.  Further nodes are planned after those of the
tree, so the nodes of the tree keep their numbers and names.  No edge leads from a dead
end into the tree, so pruning removes it, and compiling gives what it gives without it.
-/

namespace NodeMaterial

namespace Assembly

open NodeMaterial.Graph

/-! ## Adding nodes -/

/-- A graph with further nodes under certain names, and nothing else changed. -/
structure Appended (names : List String) (graph result : Graph) (added : List Node) : Prop where
  nodes : result.nodes = graph.nodes ++ added
  named : ∀ node ∈ added, node.name ∈ names
  bag : result.bag = graph.bag
  nextId : graph.nextId ≤ result.nextId
  output : result.output = graph.output

/-- More authored nodes are appended, under numbers and names of their own. -/
theorem appended_addNodes
    {names : List String} {nodes : List Authored.Node} {graph result : Graph} {supply : NameSupply}
    (named : ∀ node ∈ nodes, node.name ∈ names)
    (added : (addNodes nodes graph supply).1 = .ok result) :
    ∃ more, Appended names graph result more := by
  rcases extends_addNodes added with ⟨plans, made, all, become, extended⟩
  refine ⟨made.flatten, extended.nodes, fun node member => ?_, extended.bag,
    extended.nextId ▸ Nat.le_add_right _ _, extended.output⟩
  have signed : Signature.ofNode node ∈ plans.flatten.map Signature.ofPlan :=
    signatures_of_become (List.rel_flatten become) ▸ List.mem_map_of_mem member
  rcases List.mem_map.mp signed with ⟨plan, planned, signature⟩
  rcases exists_authored all planned with ⟨authored, authoredMember, sameName⟩
  have name : plan.name = node.name := congrArg Prod.fst signature
  exact name ▸ sameName ▸ named authored authoredMember

/-- A node that is not refused. -/
def Accepted (node : Authored.Node) : Prop :=
  ∃ plans, plan node = .ok plans

instance (node : Authored.Node) : Decidable (Accepted node) :=
  match planned : plan node with
  | .ok plans => .isTrue ⟨plans, planned⟩
  | .error _ => .isFalse fun ⟨_, isPlan⟩ => by rw [planned] at isPlan; cases isPlan

/-- Nodes that are all accepted can be added to any graph. -/
theorem exists_addNodes
    {nodes : List Authored.Node} (accepted : ∀ node ∈ nodes, Accepted node)
    (graph : Graph) (supply : NameSupply) :
    ∃ result drawn, addNodes nodes graph supply = (.ok result, drawn) := by
  induction nodes generalizing graph supply with
  | nil => exact ⟨graph, supply, rfl⟩
  | cons node others induction =>
      rw [List.forall_mem_cons] at accepted
      rcases accepted.1 with ⟨plans, isPlan⟩
      rw [addNodes, isPlan]
      exact induction accepted.2 _ _

/-- A node that becomes at least one node of a graph. -/
def Present (node : Authored.Node) : Prop :=
  ∃ first others, plan node = .ok (first :: others)

instance (node : Authored.Node) : Decidable (Present node) :=
  match planned : plan node with
  | .ok (first :: others) => .isTrue ⟨first, others, planned⟩
  | .ok [] => .isFalse fun ⟨_, _, isPlan⟩ => by rw [planned] at isPlan; cases isPlan
  | .error _ => .isFalse fun ⟨_, _, isPlan⟩ => by rw [planned] at isPlan; cases isPlan

/-- A name that nodes of a list bring into a graph. -/
def Provides (nodes : List Authored.Node) (name : String) : Prop :=
  ∃ node ∈ nodes, node.name = name ∧ Present node

instance (nodes : List Authored.Node) (name : String) : Decidable (Provides nodes name) :=
  inferInstanceAs (Decidable (∃ node ∈ nodes, node.name = name ∧ Present node))

theorem exists_plans
    {nodes : List Authored.Node} {plans : List (List Plan)}
    (all : List.Forall₂ (fun node made => plan node = .ok made) nodes plans)
    {node : Authored.Node} (member : node ∈ nodes) : ∃ made ∈ plans, plan node = .ok made := by
  induction all with
  | nil => cases member
  | @cons head made nodes plans planned _ induction =>
      rcases List.mem_cons.mp member with rfl | later
      · exact ⟨made, List.mem_cons_self, planned⟩
      · rcases induction later with ⟨other, otherMember, isPlan⟩
        exact ⟨other, List.mem_cons_of_mem _ otherMember, isPlan⟩

/-- An authored node that has plans gives its name to a node of the graph. -/
theorem nodesNamed_of_provides
    {nodes : List Authored.Node} {graph : Graph} {supply : NameSupply} {name : String}
    (added : (addNodes nodes .empty supply).1 = .ok graph) (provides : Provides nodes name) :
    nodesNamed graph name ≠ [] := by
  rcases provides with ⟨authored, member, rfl, first, others, planned⟩
  rcases signatures_addNodes added with ⟨plans, all, signatures, -⟩
  rcases exists_plans all member with ⟨made, madeMember, isPlan⟩
  have isFirst : made = first :: others := Except.ok.inj (isPlan.symm.trans planned)
  have firstPlanned : first ∈ plans.flatten :=
    List.mem_flatten.mpr ⟨made, madeMember, isFirst ▸ List.mem_cons_self⟩
  have signed : Signature.ofPlan first ∈ graph.nodes.map Signature.ofNode := by
    rw [signatures]
    exact List.mem_append_right _ (List.mem_map_of_mem firstPlanned)
  rcases List.mem_map.mp signed with ⟨node, nodeMember, signature⟩
  have named : node.name = authored.name :=
    (congrArg Prod.fst signature).trans
      (named_plan authored _ planned first List.mem_cons_self)
  exact List.ne_nil_of_mem (List.mem_filter.mpr ⟨nodeMember, beq_iff_eq.mpr named⟩)

/-- Nodes that are appended are not found under other names. -/
theorem Appended.nodesNamed_eq
    {names : List String} {graph result : Graph} {added : List Node}
    (appended : Appended names graph result added) {name : String} (other : name ∉ names) :
    nodesNamed result name = nodesNamed graph name := by
  have none : added.filter (·.name == name) = [] := by
    rw [List.filter_eq_nil_iff]
    intro node member same
    exact other (beq_iff_eq.mp same ▸ appended.named node member)
  rw [nodesNamed, appended.nodes, List.filter_append, none, List.append_nil]
  rfl

end Assembly

/-! ## Trees with a dead end -/

namespace Authored

open Assembly NodeMaterial.Graph

/-- Nodes and links that can be added to a tree and from which nothing leads into it. -/
structure DeadEnd (tree : Tree) where
  nodes : List Node
  links : List Link
  accepted : ∀ node ∈ nodes, Accepted node
  notOutput : ∀ node ∈ nodes, node.type ≠ "OUTPUT"
  fresh : ∀ node ∈ nodes, ∀ other ∈ tree.nodes, other.name ≠ node.name
  unlinked : ∀ node ∈ nodes, ∀ link ∈ tree.links,
    link.fromNode ≠ node.name ∧ link.toNode ≠ node.name
  inward : ∀ link ∈ links, ∃ node ∈ nodes, node.name = link.toNode
  provided : ∀ link ∈ links,
    Provides (tree.nodes ++ nodes) link.fromNode ∧ Provides (tree.nodes ++ nodes) link.toNode

namespace DeadEnd

variable {tree : Tree}

/-- The tree with the dead end. -/
def extended (deadEnd : DeadEnd tree) : Tree where
  nodes := tree.nodes ++ deadEnd.nodes
  links := tree.links ++ deadEnd.links

/-- The names of the nodes of the dead end. -/
def names (deadEnd : DeadEnd tree) : List String :=
  deadEnd.nodes.map (·.name)

theorem not_mem_names_of_tree (deadEnd : DeadEnd tree) {node : Node} (member : node ∈ tree.nodes) :
    node.name ∉ deadEnd.names := by
  intro isDead
  rcases List.mem_map.mp isDead with ⟨dead, deadMember, same⟩
  exact deadEnd.fresh dead deadMember node member same.symm

/-- No link of the tree touches the dead end. -/
theorem not_mem_names_of_link (deadEnd : DeadEnd tree) {link : Link} (member : link ∈ tree.links) :
    link.fromNode ∉ deadEnd.names ∧ link.toNode ∉ deadEnd.names := by
  constructor
  · intro isDead
    rcases List.mem_map.mp isDead with ⟨dead, deadMember, same⟩
    exact (deadEnd.unlinked dead deadMember link member).1 same.symm
  · intro isDead
    rcases List.mem_map.mp isDead with ⟨dead, deadMember, same⟩
    exact (deadEnd.unlinked dead deadMember link member).2 same.symm

/-- A dead end holds no output, so the tree keeps its own. -/
theorem outputName?_extended (deadEnd : DeadEnd tree) :
    deadEnd.extended.outputName? = tree.outputName? := by
  have none : deadEnd.nodes.reverse.find? (·.type == "OUTPUT") = none := by
    rw [List.find?_eq_none]
    intro node member isOutput
    exact deadEnd.notOutput node (List.mem_reverse.mp member) (beq_iff_eq.mp isOutput)
  rw [Tree.outputName?, extended, List.reverse_append, List.find?_append, none]
  rfl

/-- The nodes of a tree, and those of the tree with the dead end. -/
structure Scaffolds (deadEnd : DeadEnd tree) (live whole : Graph) (added : List NodeMaterial.Node) :
    Prop where
  appended : Appended deadEnd.names live whole added
  named : ∀ node ∈ live.nodes, node.name ∈ tree.nodes.map (·.name)
  bare : live.edges = []
  provided : ∀ link ∈ deadEnd.links, Known whole link

/-- The nodes of a dead end are appended to those of the tree. -/
theorem scaffolds (deadEnd : DeadEnd tree) {supply drawn : NameSupply} {live : Graph}
    (added : addNodes tree.nodes .empty supply = (.ok live, drawn)) :
    ∃ whole further more, addNodes deadEnd.extended.nodes .empty supply = (.ok whole, further) ∧
      deadEnd.Scaffolds live whole more := by
  rcases exists_addNodes deadEnd.accepted live drawn with ⟨whole, further, addedDead⟩
  have addedAll : addNodes deadEnd.extended.nodes .empty supply = (.ok whole, further) := by
    rw [extended, addNodes_append, added]
    exact addedDead
  have addedFirst := congrArg Prod.fst added
  have wholeAdded := congrArg Prod.fst addedAll
  rcases appended_addNodes (fun _ => List.mem_map_of_mem) (congrArg Prod.fst addedDead) with
    ⟨more, appended⟩
  rcases appended_addNodes (fun _ => List.mem_map_of_mem) addedFirst with ⟨own, all⟩
  have ownNodes : live.nodes = own := all.nodes
  have bare : live.edges = [] := congrArg EdgeBag.occurrences all.bag
  refine ⟨whole, further, more, addedAll, appended, ?_, bare, ?_⟩
  · rw [ownNodes]
    exact all.named
  · exact fun link member =>
      ⟨nodesNamed_of_provides wholeAdded (deadEnd.provided link member).1,
        nodesNamed_of_provides wholeAdded (deadEnd.provided link member).2⟩

namespace Scaffolds

variable {deadEnd : DeadEnd tree} {live whole : Graph} {added : List NodeMaterial.Node}

theorem linkEdges_eq (scaffolds : deadEnd.Scaffolds live whole added) {link : Link}
    (member : link ∈ tree.links) : linkEdges whole link = linkEdges live link := by
  rcases deadEnd.not_mem_names_of_link member with ⟨source, target⟩
  rw [linkEdges, linkEdges, scaffolds.appended.nodesNamed_eq source,
    scaffolds.appended.nodesNamed_eq target]

theorem missing?_eq (scaffolds : deadEnd.Scaffolds live whole added) {link : Link}
    (member : link ∈ tree.links) : missing? whole link = missing? live link := by
  rcases deadEnd.not_mem_names_of_link member with ⟨source, target⟩
  rw [missing?, missing?, scaffolds.appended.nodesNamed_eq source,
    scaffolds.appended.nodesNamed_eq target]

/-- A link misses a name with the dead end if and only if it does without. -/
theorem findSome?_missing? (scaffolds : deadEnd.Scaffolds live whole added) :
    deadEnd.extended.links.findSome? (missing? whole) = tree.links.findSome? (missing? live) := by
  have none : deadEnd.links.findSome? (missing? whole) = none := by
    rw [List.findSome?_eq_none_iff]
    exact fun link member => missing?_eq_none_iff.mpr (scaffolds.provided link member)
  have same : tree.links.findSome? (missing? whole) = tree.links.findSome? (missing? live) := by
    rw [← List.head?_filterMap, ← List.head?_filterMap]
    exact congrArg List.head? (List.filterMap_congr fun link member => scaffolds.missing?_eq member)
  rw [extended, List.findSome?_append, none, Option.or_none, same]

/-- The links of the dead end do not enter the tree. -/
theorem astray (scaffolds : deadEnd.Scaffolds live whole added) {link : Link}
    (member : link ∈ deadEnd.links) {edge : Edge} (made : edge ∈ linkEdges whole link) :
    live.contains edge.target = false := by
  rw [Assembly.linkEdges_eq, List.mem_flatMap] at made
  rcases made with ⟨start, -, isEdge⟩
  rcases List.mem_map.mp isEdge with ⟨finish, isEnd, rfl⟩
  rcases List.mem_filterMap.mp isEnd with ⟨node, nodeMember, isPlace⟩
  rcases Option.map_eq_some_iff.mp isPlace with ⟨socket, -, rfl⟩
  rcases List.mem_filter.mp nodeMember with ⟨inWhole, isNamed⟩
  rw [← Bool.not_eq_true]
  intro present
  -- A node of the tree with this number would be the same node, and so carry a dead name.
  rcases contains_iff.mp present with ⟨old, found⟩
  rcases node?_eq_some_iff.mp found with ⟨oldMember, sameId⟩
  have oldInWhole : old ∈ whole.nodes := by
    rw [scaffolds.appended.nodes]
    exact List.mem_append_left _ oldMember
  have same : old = node := eq_of_id_eq oldInWhole inWhole sameId
  rcases deadEnd.inward link member with ⟨dead, deadMember, deadName⟩
  rcases List.mem_map.mp (scaffolds.named old oldMember) with ⟨authored, authoredMember, name⟩
  refine deadEnd.fresh dead deadMember authored authoredMember ?_
  rw [name, same, deadName]
  exact beq_iff_eq.mp isNamed

/-- The graph of the tree with the dead end is the graph of the tree, padded. -/
theorem padded (scaffolds : deadEnd.Scaffolds live whole added) :
    Padded (live.addEdges (tree.links.flatMap (linkEdges live)))
      (whole.addEdges (deadEnd.extended.links.flatMap (linkEdges whole))) added
      (deadEnd.links.flatMap (linkEdges whole)) where
  nodes := by
    rw [nodes_addEdges, nodes_addEdges]
    exact scaffolds.appended.nodes
  edges := by
    have same : tree.links.flatMap (linkEdges whole) = tree.links.flatMap (linkEdges live) :=
      List.flatMap_congr fun link member => scaffolds.linkEdges_eq member
    have wholeBare : whole.edges = live.edges := congrArg EdgeBag.occurrences scaffolds.appended.bag
    calc
      (whole.addEdges (deadEnd.extended.links.flatMap (linkEdges whole))).edges.Perm
          (whole.edges ++ deadEnd.extended.links.flatMap (linkEdges whole)) :=
        edges_addEdges whole _
      _ |>.Perm (live.edges ++ tree.links.flatMap (linkEdges live) ++
          deadEnd.links.flatMap (linkEdges whole)) := by
        rw [extended, List.flatMap_append, same, wholeBare, List.append_assoc]
      _ |>.Perm ((live.addEdges (tree.links.flatMap (linkEdges live))).edges ++
          deadEnd.links.flatMap (linkEdges whole)) :=
        (edges_addEdges live _).symm.append_right _
  astray edge member := by
    rw [contains_addEdges]
    rcases List.mem_flatMap.mp member with ⟨link, linkMember, made⟩
    exact scaffolds.astray linkMember made
  closed := by
    have linked : ∀ edge ∈ tree.links.flatMap (linkEdges live),
        live.contains edge.source = true ∧ live.contains edge.target = true := by
      intro edge member
      rcases List.mem_flatMap.mp member with ⟨link, -, made⟩
      exact contains_of_mem_linkEdges made
    have bare : live.Closed := ⟨by simp [scaffolds.bare], by simp [scaffolds.bare]⟩
    exact bare.addEdges (fun edge member => (linked edge member).1) fun edge member =>
      (linked edge member).2
  nextId := by
    rw [nextId_addEdges, nextId_addEdges]
    exact scaffolds.appended.nextId
  output := by
    rw [output_addEdges, output_addEdges]
    exact scaffolds.appended.output

/-- The dead end does not change which node is the output. -/
theorem findOutput_eq (scaffolds : deadEnd.Scaffolds live whole added) {graph padded : Graph}
    (nodes : graph.nodes = live.nodes) (paddedNodes : padded.nodes = whole.nodes) :
    padded.findOutput deadEnd.extended = graph.findOutput tree := by
  rw [findOutput, findOutput, deadEnd.outputName?_extended]
  cases isName : tree.outputName? with
  | none => rfl
  | some name =>
      rcases Option.map_eq_some_iff.mp isName with ⟨node, found, rfl⟩
      have ofTree := List.mem_reverse.mp (List.mem_of_find?_eq_some found)
      have same := scaffolds.appended.nodesNamed_eq (deadEnd.not_mem_names_of_tree ofTree)
      have sameIds : padded.idsNamed node.name = graph.idsNamed node.name := by
        rw [idsNamed, idsNamed, nodes, paddedNodes]
        exact congrArg (List.map (·.id)) same
      simp only [sameIds]

end Scaffolds

/-- Building fails for the same reason with the dead end and without, or gives a padded graph. -/
theorem build_cases (deadEnd : DeadEnd tree) (supply : NameSupply) :
    (∃ failure, (build deadEnd.extended supply).1 = .error failure ∧
        (build tree supply).1 = .error failure) ∨
      ∃ graph padded added extra,
        (build deadEnd.extended supply).1 = .ok padded ∧ (build tree supply).1 = .ok graph ∧
          Padded graph padded added extra ∧
            padded.completeEdges.1.findOutput deadEnd.extended =
              graph.completeEdges.1.findOutput tree := by
  rcases added : addNodes tree.nodes .empty supply with ⟨failure | live, drawn⟩
  · refine Or.inl ⟨failure, ?_, ?_⟩
    · rw [build, extended, addNodes_append, added]
    · rw [build, added]
  · rcases deadEnd.scaffolds added with ⟨whole, further, more, addedAll, scaffolds⟩
    have whole_eq : (build deadEnd.extended supply).1 =
        addLinks deadEnd.extended.links whole := by rw [build, addedAll]
    have live_eq : (build tree supply).1 = addLinks tree.links live := by rw [build, added]
    rw [whole_eq, live_eq, addLinks_eq, addLinks_eq, scaffolds.findSome?_missing?]
    cases tree.links.findSome? (missing? live) with
    | some name => exact Or.inl ⟨_, rfl, rfl⟩
    | none =>
        refine Or.inr ⟨_, _, _, _, rfl, rfl, scaffolds.padded, scaffolds.findOutput_eq ?_ ?_⟩
        · rw [completeEdges, nodes_addEdges, nodes_addEdges]
        · rw [completeEdges, nodes_addEdges, nodes_addEdges]

end DeadEnd

/-- The same failure, or graphs with the same nodes, edges and output. -/
inductive SameOutcome : Except Failure Graph → Except Failure Graph → Prop
  | failed (failure : Failure) : SameOutcome (.error failure) (.error failure)
  | compiled {first second : Graph} (nodes : first.nodes = second.nodes)
      (edges : first.edges = second.edges) (output : first.output = second.output) :
      SameOutcome (.ok first) (.ok second)

theorem sameOutcome_skipMany (outcome : Except Failure Graph) (count : Nat) :
    SameOutcome (outcome.map (skipMany · count)) outcome := by
  cases outcome with
  | error failure => exact .failed failure
  | ok graph => exact .compiled rfl rfl rfl

/-- Compiling a tree with a dead end has the outcome and the diagnostics that it has without. -/
theorem DeadEnd.compile_ignores {tree : Tree} (deadEnd : DeadEnd tree) (context : Context) :
    SameOutcome (deadEnd.extended.compile context).1 (tree.compile context).1 ∧
      (deadEnd.extended.compile context).2.diagnostics = (tree.compile context).2.diagnostics := by
  rw [Tree.outcome_compile, Tree.outcome_compile, Tree.context_compile, Tree.context_compile,
    Tree.warnings, Tree.warnings]
  rcases deadEnd.build_cases context.names with
    ⟨failure, whole, live⟩ | ⟨graph, padded, added, extra, whole, live, padding, sameOutput⟩
  · rw [whole, live]
    exact ⟨.failed failure, rfl⟩
  · rw [whole, live]
    constructor
    · change SameOutcome (padded.completeEdges.1.settle deadEnd.extended)
        (graph.completeEdges.1.settle tree)
      rw [padding.completeEdges.settle sameOutput]
      exact sameOutcome_skipMany _ _
    · dsimp only
      rw [padding.completeEdges.warnings sameOutput]

/-- A colour is shown through a reroute. -/
def shownColor : Tree where
  nodes :=
    [{ name := "A", type := "RGB", outputs := [.titled "Color" true .zero] },
     { name := "R", type := "REROUTE",
       inputs := [.titled "Input" true .zero], outputs := [.titled "Output" true .zero] },
     { name := "Out", type := "OUTPUT", inputs := [.titled "Color" true .zero] }]
  links := [⟨"A", "Color", "R", "Input"⟩, ⟨"R", "Output", "Out", "Color"⟩]

/-- The colour and a translucency group are mixed as well, but the mix is not shown. -/
def unusedMix : DeadEnd shownColor where
  nodes :=
    [{ name := "T", type := "GROUP", groupName := some "TRANSLUCENCY",
       outputs := [.titled "Translucency" true .zero] },
     { name := "M", type := "MIX_RGB", blendType := some "MIX",
       inputs := [.titled "Color1" true .zero, .titled "Color2" true .zero],
       outputs := [.titled "Color" false .zero] }]
  links :=
    [⟨"T", "Translucency", "M", "Color1"⟩, ⟨"A", "Color", "M", "Color2"⟩]
  accepted := by decide +kernel
  notOutput := by decide
  fresh := by decide
  unlinked := by decide
  inward := by decide
  provided := by decide +kernel

/-- A mix that nothing reads is linked to the colour that is shown. -/
theorem DeadEnd.compile_ignores_unusedMix :
    ((unusedMix.extended.compile {}).1.map fun graph => (graph.nodeIds, graph.edges)) =
        .ok ([0, 2], [⟨0, 2, 0, 0⟩]) ∧
      SameOutcome (unusedMix.extended.compile {}).1 (shownColor.compile {}).1 ∧
      (unusedMix.extended.compile {}).2.diagnostics = (shownColor.compile {}).2.diagnostics :=
  ⟨by decide +kernel, @DeadEnd.compile_ignores _ unusedMix {}⟩

end Authored

end NodeMaterial
