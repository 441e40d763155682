import Mathlib.Data.List.Dedup
import Mathlib.Data.List.Pairwise
import NodeMaterial.Proofs.Linking
import NodeMaterial.Proofs.NameSupply

/-!
# Names of parameters

While nodes are added, the supply is asked for one name per slot of a plan.  The base of
a slot is clean, so a new supply never repeats a name: each node gets a share of the
names that no other node gets.  Some stage sees each slot, so every name that was issued
is the name of a parameter.
-/

namespace NodeMaterial

/-- The names of the parameters of a node, first those that fragments see. -/
def Node.paramNames (node : Node) : List String :=
  node.params.map (·.name) ++ node.vertexParams.map (·.name)

/-- Each stage sees some names of a list in order, and every name is seen by a stage. -/
structure Node.Shows (node : Node) (names : List String) : Prop where
  fragment : (node.params.map (·.name)).Sublist names
  vertex : (node.vertexParams.map (·.name)).Sublist names
  seen : ∀ name ∈ names, name ∈ node.paramNames

/-- A node shows the names of the list and no others. -/
theorem Node.Shows.mem_iff {node : Node} {names : List String} (shows : node.Shows names)
    {name : String} : name ∈ node.paramNames ↔ name ∈ names := by
  refine ⟨fun member => ?_, shows.seen name⟩
  rcases List.mem_append.mp member with inFragment | inVertex
  · exact shows.fragment.subset inFragment
  · exact shows.vertex.subset inVertex

namespace Assembly

open NodeMaterial.NameSupply (Clean)

/-! ## Slots -/

/-- A slot with a clean base that some stage sees. -/
structure Slot.Proper (slot : Slot) : Prop where
  clean : Clean slot.base
  seen : slot.inFragment = true ∨ slot.inVertex = true

theorem proper_constant {base : String} (clean : Clean base) (dimension : Nat)
    (value : SocketValue) : (constant base dimension value).Proper :=
  ⟨clean, .inl rfl⟩

theorem proper_heavySlots (node : Authored.Node) : ∀ slot ∈ heavySlots node, slot.Proper := by
  rw [heavySlots]
  simp only [List.forall_mem_cons]
  refine ⟨?_, ?_, ?_, ?_, ?_, List.forall_mem_nil _⟩
  all_goals exact proper_constant (by decide +kernel) _ _

theorem proper_materialSlots (node : Authored.Node) (material : Authored.Material)
    (normalLinked : Bool) : ∀ slot ∈ materialSlots node material normalLinked, slot.Proper := by
  rw [materialSlots]
  simp only [List.forall_mem_cons]
  refine ⟨?_, ?_, ?_, List.forall_mem_nil _⟩
  all_goals exact proper_constant (by decide +kernel) _ _

theorem proper_layerSlots {kind : Kind} (clean : Clean ("param_" ++ kind.tag ++ "_a"))
    (alsoClean : Clean ("param_" ++ kind.tag ++ "_v")) :
    ∀ slot ∈ layerSlots kind, slot.Proper := by
  rw [layerSlots]
  simp only [List.forall_mem_cons]
  exact ⟨⟨clean, .inr rfl⟩, ⟨alsoClean, .inl rfl⟩, List.forall_mem_nil _⟩

/-- A plan with proper slots only. -/
def Plan.Proper (plan : Plan) : Prop :=
  ∀ slot ∈ plan.slots, slot.Proper

theorem proper_of_no_slots {plan : Plan} (none : plan.slots = []) : plan.Proper := by
  intro slot member
  rw [none] at member
  cases member

theorem proper_of_slot {plan : Plan} {slot : Slot} (only : plan.slots = [slot])
    (proper : slot.Proper) : plan.Proper := by
  rw [Plan.Proper, only]
  exact List.forall_mem_singleton.mpr proper

theorem proper_planGroup (node : Authored.Node) : Gives Plan.Proper (planGroup node) := by
  refine gives_bind fun group => ?_
  cases group with
  | parallax => exact gives_ok (proper_of_slot rfl ⟨by decide +kernel, .inl rfl⟩)
  | _ => exact gives_ok (proper_of_no_slots rfl)

theorem proper_planMapping (node : Authored.Node) : Gives Plan.Proper (planMapping node) := by
  refine gives_bind fun _ => gives_bind fun _ => gives_ok ?_
  cases light : onlyScales node with
  | true => exact proper_of_slot rfl (proper_constant (by decide +kernel) _ _)
  | false => exact proper_heavySlots node

theorem proper_planMaterial (node : Authored.Node) (extended : Bool) :
    Gives Plan.Proper (planMaterial node extended) := by
  rw [planMaterial]
  split
  · repeat refine gives_bind fun _ => ?_
    cases extended <;> exact gives_bind fun _ => gives_ok (proper_materialSlots node _ _)
  · exact gives_error _ _

theorem proper_planTexture (node : Authored.Node) : Gives Plan.Proper (planTexture node) := by
  rw [planTexture]
  split
  · refine gives_bind fun sampler => ?_
    split
    · exact gives_error _ _
    · exact gives_ok (proper_of_slot rfl ⟨by decide +kernel, .inl rfl⟩)
  · exact gives_error _ _

/-- All that is not geometry is planned with proper slots. -/
theorem proper_planSingle (node : Authored.Node) : Gives Plan.Proper (planSingle node) := by
  rw [planSingle]
  split
  case h_4 => exact proper_planGroup node
  case h_6 => exact proper_planMapping node
  case h_7 => exact proper_planMaterial node false
  case h_8 => exact proper_planMaterial node true
  case h_15 => exact proper_planTexture node
  -- All other kinds have one constant at most.
  all_goals
    first
    | exact gives_ok (proper_of_no_slots rfl)
    | exact gives_bind fun _ => gives_ok (proper_of_no_slots rfl)
    | exact gives_bind fun _ =>
        gives_ok (proper_of_slot rfl (proper_constant (by decide +kernel) _ _))

theorem proper_planFacet (node : Authored.Node) (facet : Facet) (socket : Socket) :
    (planFacet node facet socket).Proper := by
  cases facet with
  | uv => exact proper_layerSlots (by decide +kernel) (by decide +kernel)
  | vertexColor => exact proper_layerSlots (by decide +kernel) (by decide +kernel)
  | _ => exact proper_of_no_slots rfl

theorem proper_planFacets (node : Authored.Node) (drawn : List String) (sockets : List Socket) :
    Gives (fun plans => ∀ plan ∈ plans, plan.Proper) (planFacets node drawn sockets) := by
  induction sockets generalizing drawn with
  | nil => exact gives_ok (List.forall_mem_nil _)
  | cons socket others induction =>
      rw [planFacets]
      split
      · exact gives_error _ _
      · exact gives_map (induction _) fun rest proper =>
          List.forall_mem_cons.mpr ⟨proper_planFacet node _ socket, proper⟩

/-- All slots that are ever planned are proper. -/
theorem proper_plan (node : Authored.Node) :
    Gives (fun plans => ∀ plan ∈ plans, plan.Proper) (plan node) := by
  rw [plan]
  split
  · exact proper_planFacets node _ _
  · exact gives_map (proper_planSingle node) fun _ proper =>
      List.forall_mem_singleton.mpr proper

/-! ## Shares -/

theorem map_name_paramsWhere (shown : Slot → Bool) (named : List (Slot × String)) :
    (Plan.paramsWhere shown named).map (·.name) =
      (named.filter fun entry => shown entry.1).map (·.2) := by
  rw [Plan.paramsWhere, List.map_map]
  rfl

theorem mem_map_name_paramsWhere {shown : Slot → Bool} {named : List (Slot × String)}
    {slot : Slot} {name : String} (member : (slot, name) ∈ named) (isShown : shown slot = true) :
    name ∈ (Plan.paramsWhere shown named).map (·.name) := by
  rw [map_name_paramsWhere]
  exact List.mem_map.mpr ⟨(slot, name), List.mem_filter.mpr ⟨member, isShown⟩, rfl⟩

/-- A node shows the names that its plan gets. -/
theorem shows_realize {plan : Plan} (proper : plan.Proper) {names : List String}
    (enough : names.length = plan.slots.length) (id : NodeId) :
    Node.Shows { plan.realize names with id } names := by
  have given : (plan.slots.zip names).map (·.2) = names :=
    List.map_snd_zip (Nat.le_of_eq enough)
  have sublist (shown : Slot → Bool) :
      ((Plan.paramsWhere shown (plan.slots.zip names)).map (·.name)).Sublist names := by
    have part := (List.filter_sublist
      (p := fun entry => shown entry.1) (l := plan.slots.zip names)).map (·.2)
    rwa [given, ← map_name_paramsWhere] at part
  refine ⟨sublist _, sublist _, fun name member => ?_⟩
  rw [← given] at member
  rcases List.mem_map.mp member with ⟨⟨slot, _⟩, entry, rfl⟩
  apply List.mem_append.mpr
  rcases (proper slot (List.of_mem_zip entry).1).seen with inFragment | inVertex
  · exact Or.inl (mem_map_name_paramsWhere entry inFragment)
  · exact Or.inr (mem_map_name_paramsWhere entry inVertex)

/-- From one supply to another nodes get shares of the names that are issued for clean bases. -/
structure Shares (supply : NameSupply) (bases : List String)
    (shares : List (Node × List String)) (rest : NameSupply) : Prop where
  clean : ∀ base ∈ bases, Clean base
  issued : supply.issueAll bases = (shares.flatMap (·.2), rest)
  shows : ∀ share ∈ shares, share.1.Shows share.2

/-- A state is reached from another one by nodes that get shares of its names. -/
def Hands (first second : Graph × NameSupply) : Prop :=
  ∃ bases shares, second.1.nodes = first.1.nodes ++ shares.map (·.1) ∧
    Shares first.2 bases shares second.2

theorem Hands.refl (state : Graph × NameSupply) : Hands state state :=
  ⟨[], [], (List.append_nil _).symm, List.forall_mem_nil _, rfl, List.forall_mem_nil _⟩

theorem Hands.trans {first second third : Graph × NameSupply}
    (one : Hands first second) (two : Hands second third) : Hands first third := by
  rcases one with ⟨bases, shares, nodes, clean, issued, shown⟩
  rcases two with ⟨more, others, moreNodes, moreClean, moreIssued, moreShown⟩
  refine ⟨bases ++ more, shares ++ others, ?_, ?_, ?_, ?_⟩
  · rw [moreNodes, nodes, List.map_append, List.append_assoc]
  · exact List.forall_mem_append.mpr ⟨clean, moreClean⟩
  · rw [NameSupply.issueAll_append, issued, moreIssued, List.flatMap_append]
  · exact List.forall_mem_append.mpr ⟨shown, moreShown⟩

/-- A planned node shows the names that its slots were given. -/
theorem hands_addPlan (state : Graph × NameSupply) {plan : Plan} (proper : plan.Proper) :
    Hands state (addPlan state plan) := by
  let bases := plan.slots.map (·.base)
  let names := (state.2.issueAll bases).1
  have enough : names.length = plan.slots.length := by
    rw [NameSupply.length_issueAll, List.length_map]
  refine ⟨bases, [({ plan.realize names with id := state.1.nextId }, names)], rfl, ?_, ?_, ?_⟩
  · exact List.forall_mem_map.mpr fun slot member => (proper slot member).clean
  · rw [List.flatMap_singleton]
    rfl
  · exact List.forall_mem_singleton.mpr (shows_realize proper enough _)

theorem hands_addPlans {plans : List Plan} (proper : ∀ plan ∈ plans, plan.Proper)
    (state : Graph × NameSupply) : Hands state (plans.foldl addPlan state) := by
  induction plans generalizing state with
  | nil => exact .refl state
  | cons plan others induction =>
      rw [List.forall_mem_cons] at proper
      exact (hands_addPlan state proper.1).trans (induction proper.2 _)

/-- Building shares the names that are handed out among the nodes. -/
theorem hands_addNodes {nodes : List Authored.Node} {graph result : Graph}
    {supply rest : NameSupply} (added : addNodes nodes graph supply = (.ok result, rest)) :
    Hands (graph, supply) (result, rest) := by
  induction nodes generalizing graph supply with
  | nil =>
      cases added
      exact .refl _
  | cons node others induction =>
      rw [addNodes] at added
      split at added
      · cases added
      · rename_i plans planned
        exact (hands_addPlans (proper_plan node plans planned) _).trans (induction added)

/-- Links change neither nodes nor names, so a tree hands out what its nodes do. -/
theorem hands_build {tree : Authored.Tree} {supply rest : NameSupply} {built : Graph}
    (builds : build tree supply = (.ok built, rest)) : Hands (.empty, supply) (built, rest) := by
  rw [build] at builds
  split at builds
  · cases builds
  · rename_i scaffold drawn added
    rw [Prod.mk.injEq, addLinks_eq_ok_iff] at builds
    rcases builds with ⟨⟨-, rfl⟩, rfl⟩
    rcases hands_addNodes added with ⟨bases, shares, nodes, shared⟩
    exact ⟨bases, shares, (Graph.nodes_addEdges _ _).trans nodes, shared⟩

/-! ## No name twice -/

section

variable {bases : List String} {shares : List (Node × List String)} {rest : NameSupply}

/-- A new supply repeats no name. -/
theorem Shares.nodup (shared : Shares {} bases shares rest) : (shares.flatMap (·.2)).Nodup := by
  have distinct := (NameSupply.nodup_issueAll_iff bases).mpr
    (NameSupply.separate_of_clean shared.clean)
  rwa [shared.issued] at distinct

/-- Names come from one supply, so no two nodes share one. -/
theorem Shares.pairwise_disjoint (shared : Shares {} bases shares rest) :
    (shares.map (·.1)).Pairwise fun first second =>
      first.paramNames.Disjoint second.paramNames := by
  have apart := (List.nodup_flatten.mp shared.nodup).2
  rw [List.pairwise_map] at apart ⊢
  refine apart.imp_of_mem fun {first second} firstMember secondMember disjoint name inFirst => ?_
  intro inSecond
  exact disjoint ((shared.shows first firstMember).mem_iff.mp inFirst)
    ((shared.shows second secondMember).mem_iff.mp inSecond)

/-- As many names are shown as were handed out. -/
theorem Shares.length_dedup (shared : Shares {} bases shares rest) :
    ((shares.map (·.1)).flatMap Node.paramNames).dedup.length = rest.issued := by
  have same : ((shares.map (·.1)).flatMap Node.paramNames).dedup.Perm
      (shares.flatMap (·.2)) := by
    refine (List.perm_ext_iff_of_nodup (List.nodup_dedup _) shared.nodup).mpr fun name => ?_
    rw [List.mem_dedup, List.flatMap_map, List.mem_flatMap, List.mem_flatMap]
    exact exists_congr fun share =>
      and_congr_right fun member => (shared.shows share member).mem_iff
  have names := NameSupply.length_issueAll {} bases
  have issued := NameSupply.issued_issueAll {} bases
  rw [shared.issued] at names issued
  rw [same.length_eq, names, issued]
  exact (Nat.zero_add _).symm

end

/--
No name of a parameter is used by two nodes or twice by a stage of one node, and the supply
has issued as many names as there are.
-/
structure NamesParameters (graph : Graph) (supply : NameSupply) : Prop where
  apart : ∀ first ∈ graph.nodes, ∀ second ∈ graph.nodes, first.id ≠ second.id →
    first.paramNames.Disjoint second.paramNames
  params : ∀ node ∈ graph.nodes, (node.params.map (·.name)).Nodup
  vertexParams : ∀ node ∈ graph.nodes, (node.vertexParams.map (·.name)).Nodup
  issued : supply.issued = (graph.nodes.flatMap Node.paramNames).dedup.length

/--
Building a tree from a new supply gives no parameter name twice, and counts the names it gives.
-/
theorem build_namesParameters {tree : Authored.Tree} {built : Graph} {supply : NameSupply}
    (builds : build tree {} = (.ok built, supply)) : NamesParameters built supply := by
  rcases hands_build builds with ⟨bases, shares, nodes, shared⟩
  have nodes : built.nodes = shares.map (·.1) := nodes
  have distinct : ∀ share ∈ shares, share.2.Nodup := by
    have each := (List.nodup_flatten.mp shared.nodup).1
    exact List.forall_mem_map.mp each
  constructor <;> rw [nodes]
  case apart =>
    have : Std.Symm fun first second : Node => first.paramNames.Disjoint second.paramNames :=
      ⟨fun _ _ disjoint => disjoint.symm⟩
    intro first firstMember second secondMember different
    exact shared.pairwise_disjoint.forall firstMember secondMember
      fun same => different (congrArg Node.id same)
  case params =>
    exact List.forall_mem_map.mpr fun share member =>
      (shared.shows share member).fragment.nodup (distinct share member)
  case vertexParams =>
    exact List.forall_mem_map.mpr fun share member =>
      (shared.shows share member).vertex.nodup (distinct share member)
  case issued => exact shared.length_dedup.symm

/-- Two layers, a mapping with a limit, a texture, and two values of one name. -/
def layeredBricks : Authored.Tree where
  nodes :=
    [{ name := "Geometry", type := "GEOMETRY",
       outputs := [.titled "UV" true .zero, .titled "Vertex Color" true .zero] },
     { name := "Mapping", type := "MAPPING", useMin := true,
       inputs := [.titled "Vector" true .zero], outputs := [.titled "Vector" true .zero] },
     { name := "Bricks", type := "TEXTURE", texture := some { name := "bricks" },
       inputs := [.titled "Vector" true .zero],
       outputs := [.titled "Color" true .zero, .titled "Value" false .zero] },
     { name := "Value", type := "VALUE", outputs := [.titled "Value" true .zero] },
     { name := "Value", type := "VALUE", outputs := [.titled "Value" true .zero] }]
  links :=
    [⟨"Geometry", "UV", "Mapping", "Vector"⟩, ⟨"Mapping", "Vector", "Bricks", "Vector"⟩]

/-- Both stages see the varyings of the layers, so two names stand for two parameters each. -/
theorem build_namesParameters_layeredBricks :
    ∃ built supply, build layeredBricks {} = (.ok built, supply) ∧
      (built.nodes.flatMap Node.paramNames).length = 14 ∧ supply.issued = 12 ∧
        NamesParameters built supply := by
  have params : (build layeredBricks {}).1.map
      (fun built => (built.nodes.flatMap Node.paramNames).length) = .ok 14 := by
    decide +kernel
  have names : (build layeredBricks {}).2.issued = 12 := by decide +kernel
  rcases builds : build layeredBricks {} with ⟨failure | built, supply⟩
  · rw [builds] at params
    cases params
  · rw [builds] at params names
    exact ⟨built, supply, rfl, Except.ok.inj params, names, build_namesParameters builds⟩

end Assembly

end NodeMaterial
