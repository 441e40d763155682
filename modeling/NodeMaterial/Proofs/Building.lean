import NodeMaterial.Assembly.Build
import NodeMaterial.Proofs.Soundness

/-!
# Building gives sound graphs

The sockets of accessors and samplers fit their kinds from the start, since plans
give them theirs.  A link becomes an edge only between sockets that it finds, so all
edges of a graph that has been built start and land.
-/

namespace NodeMaterial.Assembly

open NodeMaterial.Graph

/-- A planning that does not refuse gives something with a property. -/
def Gives {α : Type} (property : α → Prop) (planned : Planned α) : Prop :=
  ∀ result, planned = .ok result → property result

theorem gives_ok {α : Type} {property : α → Prop} {result : α} (holds : property result) :
    Gives property (.ok result) := by
  intro other same
  exact Except.ok.inj same ▸ holds

theorem gives_error {α : Type} (property : α → Prop) (refusal : Refusal) :
    Gives property (.error refusal) := by
  intro other same
  cases same

/-- What comes last decides what a planning gives. -/
theorem gives_bind
    {α β : Type} {property : β → Prop} {first : Planned α} {next : α → Planned β}
    (each : ∀ value, Gives property (next value)) :
    Gives property (first >>= next) := by
  cases first with
  | error refusal => exact gives_error property refusal
  | ok value => exact each value

/-- A plan that is changed has what the change makes of its property. -/
theorem gives_map
    {α β : Type} {property : α → Prop} {mapped : β → Prop} {planned : Planned α} {change : α → β}
    (given : Gives property planned) (each : ∀ value, property value → mapped (change value)) :
    Gives mapped (change <$> planned) := by
  cases planned with
  | error refusal => exact gives_error mapped refusal
  | ok value => exact gives_ok (each value (given value rfl))

/-! ## Plans -/

/-- Whether the kind of a node says something about its sockets. -/
def fixesSockets : Kind → Bool
  | .geometry _ => true
  | .texture _ _ => true
  | .group .translucency => true
  | _ => false

/-- The sockets of a node are those that building gives to its kind. -/
structure Assembled (node : Node) : Prop where
  shaped : node.Shaped
  translucency : node.kind = .group .translucency →
    ∃ front linked, node.outputs = front ++ [translucencyParams linked]

/-- A kind that does not fix its sockets fits any. -/
theorem assembled_of_free {node : Node} (free : fixesSockets node.kind = false) :
    Assembled node := by
  refine ⟨⟨?_, ?_⟩, ?_⟩
  · intro geometry
    simp only [isGeometry] at geometry
    split at geometry
    · rename_i facet kind
      simp [kind, fixesSockets] at free
    · exact absurd geometry Bool.false_ne_true
  · intro texture
    simp only [Kind.isTexture] at texture
    split at texture
    · rename_i sampler lanes kind
      simp [kind, fixesSockets] at free
    · exact absurd texture Bool.false_ne_true
  · intro kind
    simp [kind, fixesSockets] at free

/-- Whatever names a plan gets, its node is assembled. -/
def Plan.Fits (plan : Plan) : Prop :=
  ∀ names, Assembled (plan.realize names)

theorem fits_of_free {plan : Plan} (free : fixesSockets plan.kind = false) : plan.Fits :=
  fun _ => assembled_of_free free

/-- A translucency group is planned with the output of its parameters. -/
theorem fits_planGroup (node : Authored.Node) : Gives Plan.Fits (planGroup node) := by
  refine gives_bind fun group => ?_
  cases group with
  | translucency =>
      refine gives_ok fun names => ⟨⟨?_, ?_⟩, fun _ => ⟨_, _, rfl⟩⟩
      · intro geometry
        cases geometry
      · intro texture
        cases texture
  | _ => exact gives_ok (fits_of_free rfl)

/-- A texture is planned with the sockets of one lane. -/
theorem fits_planTexture (node : Authored.Node) : Gives Plan.Fits (planTexture node) := by
  rw [planTexture]
  split
  · refine gives_bind fun sampler => ?_
    split
    · exact gives_error _ _
    · refine gives_ok fun names => ⟨⟨?_, ?_⟩, ?_⟩
      · intro geometry
        cases geometry
      · intro texture
        exact ⟨rfl, rfl⟩
      · intro kind
        cases kind
  · exact gives_error _ _

theorem fits_planMaterial (node : Authored.Node) (extended : Bool) :
    Gives Plan.Fits (planMaterial node extended) := by
  rw [planMaterial]
  split
  · repeat refine gives_bind fun _ => ?_
    cases extended with
    | false => exact gives_bind fun _ => gives_ok (fits_of_free rfl)
    | true => exact gives_bind fun _ => gives_ok (fits_of_free rfl)
  · exact gives_error _ _

theorem fits_planMapping (node : Authored.Node) : Gives Plan.Fits (planMapping node) := by
  refine gives_bind fun _ => gives_bind fun _ => gives_ok (fits_of_free ?_)
  cases onlyScales node with
  | false => rfl
  | true => rfl

theorem fits_planSingle (node : Authored.Node) : Gives Plan.Fits (planSingle node) := by
  rw [planSingle]
  split
  case h_4 => exact fits_planGroup node
  case h_6 => exact fits_planMapping node
  case h_7 => exact fits_planMaterial node false
  case h_8 => exact fits_planMaterial node true
  case h_15 => exact fits_planTexture node
  -- All other kinds say nothing about sockets.
  all_goals
    first
    | exact gives_ok (fits_of_free rfl)
    | exact gives_bind fun _ => gives_ok (fits_of_free rfl)

theorem fits_planFacet (node : Authored.Node) (facet : Facet) (socket : Socket) :
    (planFacet node facet socket).Fits := by
  cases facet <;>
    refine fun names => ⟨⟨fun _ => ⟨rfl, rfl⟩, ?_⟩, ?_⟩ <;> nofun

theorem fits_planFacets (node : Authored.Node) (drawn : List String) (sockets : List Socket) :
    Gives (fun plans => ∀ plan ∈ plans, plan.Fits) (planFacets node drawn sockets) := by
  induction sockets generalizing drawn with
  | nil => exact gives_ok (by simp)
  | cons socket others induction =>
      rw [planFacets]
      split
      · exact gives_error _ _
      · rename_i facet _
        refine gives_map (induction _) fun rest restFits plan member => ?_
        rcases List.mem_cons.mp member with rfl | later
        · exact fits_planFacet node facet socket
        · exact restFits plan later

/-- Every plan of a node has the sockets that its kind fixes. -/
theorem fits_plan (node : Authored.Node) :
    Gives (fun plans => ∀ plan ∈ plans, plan.Fits) (plan node) := by
  rw [plan]
  split
  · exact fits_planFacets node [] _
  · refine gives_map (fits_planSingle node) fun single singleFits plan member => ?_
    rw [List.mem_singleton.mp member]
    exact singleFits

/-! ## Nodes -/

/-- All nodes are assembled, and there are no edges. -/
structure Scaffold (graph : Graph) : Prop where
  nodes : ∀ node ∈ graph.nodes, Assembled node
  edges : graph.edges = []

/-- A plan that fits becomes an assembled node, and no edge. -/
theorem Scaffold.addPlan
    {state : Graph × NameSupply} (scaffold : Scaffold state.1) {plan : Plan} (fits : plan.Fits) :
    Scaffold (addPlan state plan).1 := by
  constructor
  · intro node member
    rcases List.mem_append.mp member with old | new
    · exact scaffold.nodes node old
    · rw [List.mem_singleton.mp new]
      have assembled := fits (state.2.issueAll (plan.slots.map (·.base))).1
      exact ⟨⟨assembled.shaped.geometry, assembled.shaped.texture⟩, assembled.translucency⟩
  · exact scaffold.edges

theorem Scaffold.addPlans
    {plans : List Plan} {state : Graph × NameSupply} (scaffold : Scaffold state.1)
    (fits : ∀ plan ∈ plans, plan.Fits) :
    Scaffold (plans.foldl Assembly.addPlan state).1 := by
  induction plans generalizing state with
  | nil => exact scaffold
  | cons plan others induction =>
      apply induction
      · exact scaffold.addPlan (fits plan List.mem_cons_self)
      · exact fun other member => fits other (List.mem_cons_of_mem _ member)

/-- The nodes of a tree are assembled before its first link is followed. -/
theorem Scaffold.addNodes
    {nodes : List Authored.Node} {graph result : Graph} {supply : NameSupply}
    (scaffold : Scaffold graph) (added : (addNodes nodes graph supply).1 = .ok result) :
    Scaffold result := by
  induction nodes generalizing graph supply with
  | nil =>
      rw [Assembly.addNodes, Except.ok.injEq] at added
      exact added ▸ scaffold
  | cons node others induction =>
      rw [Assembly.addNodes] at added
      split at added
      · cases added
      · rename_i plans planned
        have extended : Scaffold (plans.foldl Assembly.addPlan (graph, supply)).1 :=
          scaffold.addPlans (fits_plan node plans planned)
        exact induction extended added

/-! ## Links -/

/-- All nodes are assembled, and all edges find their sockets. -/
structure Built (graph : Graph) : Prop where
  nodes : ∀ node ∈ graph.nodes, Assembled node
  edges : ∀ edge ∈ graph.edges, graph.Starts edge ∧ graph.Lands edge

/-- A link is drawn between sockets that exist. -/
theorem mem_linkEdges
    {graph : Graph} {link : Authored.Link} {edge : Edge}
    (member : edge ∈ linkEdges graph link) :
    graph.Starts edge ∧ graph.Lands edge := by
  simp only [linkEdges, nodesNamed, List.mem_flatMap, List.mem_filterMap, List.mem_filter,
    linkEdge?] at member
  rcases member with ⟨producer, ⟨producerMember, -⟩, consumer, ⟨consumerMember, -⟩, linked⟩
  split at linked
  · rename_i outSocket inSocket outFound inFound
    cases linked
    constructor
    · exact ⟨producer, node?_of_mem producerMember,
        (List.findIdx?_eq_some_iff_getElem.mp outFound).1⟩
    · exact ⟨consumer, node?_of_mem consumerMember,
        (List.findIdx?_eq_some_iff_getElem.mp inFound).1⟩
  · cases linked

/-- A link keeps the edges in range. -/
theorem Built.addLink
    {graph result : Graph} {link : Authored.Link}
    (built : Built graph) (added : addLink graph link = .ok result) :
    Built result := by
  rw [Assembly.addLink] at added
  split at added
  · cases added
  · split at added
    · cases added
    · cases added
      constructor
      · intro node member
        have found := node?_of_mem member
        rw [node?_addEdges] at found
        exact built.nodes node (mem_nodes_of_node? found)
      · intro edge member
        have finds : graph.Starts edge ∧ graph.Lands edge :=
          (mem_edges_addEdges.mp member).elim (built.edges edge) mem_linkEdges
        simpa only [Starts, Lands, node?_addEdges] using finds

theorem Built.addLinks
    {links : List Authored.Link} {graph result : Graph}
    (built : Built graph) (added : addLinks links graph = .ok result) :
    Built result := by
  induction links generalizing graph with
  | nil =>
      rw [Assembly.addLinks, Except.ok.injEq] at added
      exact added ▸ built
  | cons link others induction =>
      rw [Assembly.addLinks] at added
      split at added
      · cases added
      · rename_i linked done
        exact induction (built.addLink done) added

/-- Whatever tree a graph is built from, its nodes are assembled and its edges in range. -/
theorem built_of_build
    {tree : Authored.Tree} {supply : NameSupply} {graph : Graph}
    (builds : (build tree supply).1 = .ok graph) :
    Built graph := by
  have bare : Scaffold .empty := ⟨by simp [Graph.empty], rfl⟩
  rw [build] at builds
  split at builds
  · cases builds
  · rename_i scaffold _ added
    have assembled : Scaffold scaffold := bare.addNodes (congrArg Prod.fst added)
    have start : Built scaffold := ⟨assembled.nodes, by simp [assembled.edges]⟩
    exact start.addLinks builds

/-- A built graph is sound, whatever kinds might be excused. -/
theorem Built.sound {graph : Graph} (built : Built graph) (excused : Kind → Prop) :
    graph.Sound excused where
  starts edge member := (built.edges edge member).1
  lands edge member := Or.inr (built.edges edge member).2
  shaped _ node found := (built.nodes node (mem_nodes_of_node? found)).shaped

end NodeMaterial.Assembly
