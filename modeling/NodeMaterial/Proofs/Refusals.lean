import NodeMaterial.Proofs.LinkCounts

/-!
# Which trees are refused, and why

The type of a node makes demands on it, in an order.  A node that meets all of them has
plans; of any other, the first demand that it does not meet is reported.  A tree builds
if all of its nodes are acceptable, and if every link names two nodes that become nodes
of the graph.  Otherwise its first node that is not acceptable is reported, or, if there
is none, the first name at the end of a link that no node of the graph carries.
-/

namespace NodeMaterial

/-- The first of a list for which something does not hold. -/
def FirstFailing {α : Type} (holds : α → Prop) (list : List α) (first : α) : Prop :=
  ∃ before after, list = before ++ first :: after ∧ (∀ earlier ∈ before, holds earlier) ∧
    ¬ holds first

theorem FirstFailing.not_holds {α : Type} {holds : α → Prop} {list : List α} {first : α}
    (failing : FirstFailing holds list first) : ¬ holds first := by
  rcases failing with ⟨_, _, -, -, fails⟩
  exact fails

theorem FirstFailing.not_forall {α : Type} {holds : α → Prop} {list : List α} {first : α}
    (failing : FirstFailing holds list first) : ¬ ∀ one ∈ list, holds one := by
  rcases failing with ⟨before, after, split, -, fails⟩
  exact fun all => fails (all first (by simp [split]))

/-- The fault that is found belongs to the first of a list that does not hold. -/
theorem findSome?_eq_some_iff_first {α β : Type} {fault? : α → Option β} {holds : α → Prop}
    (faultless : ∀ one, fault? one = none ↔ holds one) {list : List α} {fault : β} :
    list.findSome? fault? = some fault ↔
      ∃ first, FirstFailing holds list first ∧ fault? first = some fault := by
  rw [List.findSome?_eq_some_iff]
  constructor
  · rintro ⟨before, first, after, split, faulty, earlier⟩
    have fails : ¬ holds first := by simp [← faultless, faulty]
    exact ⟨first, ⟨before, after, split, fun one member => (faultless one).mp (earlier one member),
      fails⟩, faulty⟩
  · rintro ⟨first, ⟨before, after, split, earlier, -⟩, faulty⟩
    exact ⟨before, first, after, split, faulty,
      fun one member => (faultless one).mpr (earlier one member)⟩

namespace Authored

/-- What may be asked of a node. -/
inductive Demand where
  /-- The node is bound to a resource. -/
  | bound (resource : Resource)
  | input (identifier : String)
  | output (identifier : String)
  /-- A word is one of the words that are known. -/
  | known (words : List String) (word : String) (problem : String → Problem)

namespace Demand

/-- What a demand asks of a node. -/
def Met (node : Node) : Demand → Prop
  | .bound .texture => node.texture.isSome = true
  | .bound .material => node.material.isSome = true
  | .input identifier => identifier ∈ Socket.identifiers node.inputs
  | .output identifier => identifier ∈ Socket.identifiers node.outputs
  | .known words word _ => word ∈ words

instance (node : Node) : (demand : Demand) → Decidable (demand.Met node)
  | .bound .texture => inferInstanceAs (Decidable (node.texture.isSome = true))
  | .bound .material => inferInstanceAs (Decidable (node.material.isSome = true))
  | .input identifier => inferInstanceAs (Decidable (identifier ∈ Socket.identifiers node.inputs))
  | .output identifier => inferInstanceAs (Decidable (identifier ∈ Socket.identifiers node.outputs))
  | .known words word _ => inferInstanceAs (Decidable (word ∈ words))

/-- What is reported of a node that does not meet a demand. -/
def failure (node : Node) : Demand → Failure
  | .bound resource => .missingBinding node.name resource
  | .input identifier => .configuration (some node.name) (.missingInput node.type identifier)
  | .output identifier => .configuration (some node.name) (.missingOutput node.type identifier)
  | .known _ word problem => .configuration (some node.name) (problem word)

/-- What is reported of a node because of a demand, if anything. -/
def fault? (node : Node) (demand : Demand) : Option Failure :=
  if demand.Met node then none else some (demand.failure node)

theorem fault?_eq_none_iff {node : Node} {demand : Demand} :
    demand.fault? node = none ↔ demand.Met node := by
  simp [fault?]

end Demand

namespace Node

/-- An output that settles what a texture is sampled for. -/
def settles (socket : Socket) : Bool :=
  socket.identifier == "Color" || socket.identifier == "Normal"

/-- The first of the sockets that settles what a texture is sampled for asks for normals. -/
def settlesNormal (sockets : List Socket) : Bool :=
  (sockets.find? settles).any (·.identifier == "Normal")

/-- Sockets in front of the first that settles what a texture is sampled for can be values only. -/
def valueDemands (sockets : List Socket) : List Demand :=
  (sockets.takeWhile (!settles ·)).map fun socket =>
    .known ["Value"] socket.identifier .unknownTextureOutput

def textureDemands (node : Node) : List Demand :=
  .bound .texture :: (valueDemands node.linkedOutputs ++
    .input "Vector" ::
      ((if settlesNormal node.linkedOutputs then [] else [.output "Color"]) ++ [.output "Value"]))

def materialDemands : List Demand :=
  [.bound .material, .input "Normal", .input "Color", .input "Spec",
    .output "Color", .output "Alpha", .output "Normal"]

def facetDemands (sockets : List Socket) : List Demand :=
  sockets.map fun socket =>
    .known (Facet.all.map (·.identifier)) socket.identifier .unsupportedFacet

/-- The demands on a node, in the order in which they are checked. -/
def demands (node : Node) : List Demand :=
  match node.type with
  | "GEOMETRY" => facetDemands node.linkedOutputs
  | "GROUP" => [.known (GroupKind.all.map (·.spelling)) (node.groupName.getD "") .unknownGroup]
  | "MATH" => [.known (MathOp.all.map (·.spelling)) (node.operation.getD "") .unsupportedMath]
  | "MIX_RGB" =>
      [.known (BlendMode.all.map (·.spelling)) (node.blendType.getD "") .unsupportedBlend]
  | "VECT_MATH" =>
      [.known (VectorOp.all.map (·.spelling)) (node.operation.getD "") .unsupportedVectorMath]
  | "NORMAL" => [.output "Normal"]
  | "RGB" => [.output "Color"]
  | "VALUE" => [.output "Value"]
  | "MAPPING" => [.input "Vector", .output "Vector"]
  | "MATERIAL" => materialDemands
  | "MATERIAL_EXT" => materialDemands ++ [.output "Diffuse", .output "Spec"]
  | "TEXTURE" => node.textureDemands
  | _ => []

/-- A node meets all demands on it. -/
def Acceptable (node : Node) : Prop :=
  ∀ demand ∈ node.demands, demand.Met node

/-- What is reported of a node, if anything. -/
def fault? (node : Node) : Option Failure :=
  node.demands.findSome? (·.fault? node)

theorem fault?_eq_none_iff {node : Node} : node.fault? = none ↔ node.Acceptable := by
  simp only [fault?, List.findSome?_eq_none_iff, Demand.fault?_eq_none_iff, Acceptable]

/-- A node becomes at least one node of a graph: all do but geometry nodes that are not linked. -/
def Appears (node : Node) : Prop :=
  node.type = "GEOMETRY" → node.linkedOutputs ≠ []

end Node

namespace Tree

/-- Some node with a name becomes a node of a graph. -/
def Offers (tree : Tree) (name : String) : Prop :=
  ∃ node ∈ tree.nodes, node.name = name ∧ node.Appears

/-- A link names a node of a graph at both ends. -/
def Connects (tree : Tree) (link : Link) : Prop :=
  tree.Offers link.fromNode ∧ tree.Offers link.toNode

/-- Nothing is wrong with a tree. -/
structure Acceptable (tree : Tree) : Prop where
  nodes : ∀ node ∈ tree.nodes, node.Acceptable
  links : ∀ link ∈ tree.links, tree.Connects link

/-- What is first wrong with a tree; nodes come before links, starts of links before their ends. -/
inductive FirstOffence (tree : Tree) : Failure → Prop where
  | node {node : Node} {demand : Demand}
      (first : FirstFailing Node.Acceptable tree.nodes node)
      (unmet : FirstFailing (·.Met node) node.demands demand) :
      FirstOffence tree (demand.failure node)
  | start {link : Link}
      (nodes : ∀ node ∈ tree.nodes, node.Acceptable)
      (first : FirstFailing tree.Connects tree.links link)
      (unknown : ¬ tree.Offers link.fromNode) :
      FirstOffence tree (.unknownNode link.fromNode)
  | finish {link : Link}
      (nodes : ∀ node ∈ tree.nodes, node.Acceptable)
      (first : FirstFailing tree.Connects tree.links link)
      (known : tree.Offers link.fromNode) :
      FirstOffence tree (.unknownNode link.toNode)

end Tree

end Authored

namespace Assembly

open NodeMaterial.Graph
open NodeMaterial.Authored (Demand)

/-! ## Plans -/

/-- What a planning reports, if it refuses. -/
def reported? {α : Type} : Planned α → Option Failure
  | .ok _ => none
  | .error refusal => some refusal.failure

/-- A planning reports the first of some demands that a node does not meet. -/
def Checks {α : Type} (node : Authored.Node) (demands : List Demand) (planned : Planned α) : Prop :=
  reported? planned = demands.findSome? (·.fault? node)

section

variable {α β : Type} {node : Authored.Node} {demands more : List Demand}

theorem checks_ok (node : Authored.Node) (value : α) : Checks node [] (.ok value) :=
  rfl

/-- What is planned in two steps makes the demands of both, in order. -/
theorem checks_bind {planned : Planned α} {next : α → Planned β}
    (first : Checks node demands planned)
    (each : ∀ value, planned = .ok value → Checks node more (next value)) :
    Checks node (demands ++ more) (planned >>= next) := by
  rw [Checks] at first
  rw [Checks, List.findSome?_append, ← first]
  cases planned with
  | error refusal => rfl
  | ok value => exact each value rfl

theorem checks_bind_last {planned : Planned α} {next : α → Planned β}
    (checks : Checks node demands planned) (each : ∀ value, Checks node [] (next value)) :
    Checks node demands (planned >>= next) := by
  simpa using checks_bind checks fun value _ => each value

theorem checks_map {planned : Planned α} (checks : Checks node demands planned) (change : α → β) :
    Checks node demands (change <$> planned) := by
  rw [Checks] at checks ⊢
  rw [← checks]
  cases planned with
  | error refusal => rfl
  | ok value => rfl

/-- A demand that is met makes no difference. -/
theorem checks_cons_of_met {demand : Demand} (met : demand.Met node) {planned : Planned α} :
    Checks node (demand :: demands) planned ↔ Checks node demands planned := by
  rw [Checks, Checks, List.findSome?_cons, Demand.fault?_eq_none_iff.mpr met]

/-- A refusal answers for the first demand that is not met, whatever follows. -/
theorem checks_cons_of_not_met {demand : Demand} (unmet : ¬ demand.Met node) {refusal : Refusal}
    (reports : refusal.failure = demand.failure node) :
    Checks node (demand :: demands) (.error refusal : Planned α) := by
  rw [Checks, List.findSome?_cons, Demand.fault?, if_neg unmet]
  exact congrArg some reports

/-- Looking a word up finds something exactly if the word is known. -/
theorem find?_isSome_iff_mem_map {list : List β} {spelling : β → String} {word : String} :
    (list.find? (spelling · == word)).isSome = true ↔ word ∈ list.map spelling := by
  simp [List.find?_isSome, List.mem_map]

/-- A search that refuses what it does not find checks one demand. -/
theorem checks_search {list : List β} {spelling : β → String} {word : String} {demand : Demand}
    {planned : Planned α} (isKnown : demand.Met node ↔ word ∈ list.map spelling)
    (found : ∀ value, list.find? (spelling · == word) = some value → reported? planned = none)
    (lost : list.find? (spelling · == word) = none →
      reported? planned = some (demand.failure node)) :
    Checks node [demand] planned := by
  rw [← find?_isSome_iff_mem_map] at isKnown
  rw [Checks, List.findSome?_singleton, Demand.fault?]
  cases search : list.find? (spelling · == word) with
  | none =>
      rw [if_neg (by simp [isKnown, search])]
      exact lost search
  | some value =>
      rw [if_pos (by simp [isKnown, search])]
      exact found value search

/-- Looking an input up demands that it is there. -/
theorem checks_requireInput (node : Authored.Node) (identifier : String) :
    Checks node [.input identifier] (requireInput node identifier) := by
  refine checks_search Iff.rfl (fun socket found => ?_) fun lost => ?_
  · rw [requireInput, Authored.Node.input?, found]
    rfl
  · rw [requireInput, Authored.Node.input?, lost]
    rfl

theorem checks_requireOutput (node : Authored.Node) (identifier : String) :
    Checks node [.output identifier] (requireOutput node identifier) := by
  refine checks_search Iff.rfl (fun socket found => ?_) fun lost => ?_
  · rw [requireOutput, Authored.Node.output?, found]
    rfl
  · rw [requireOutput, Authored.Node.output?, lost]
    rfl

/-- Reading a word demands that it is one of a list. -/
theorem checks_variant (node : Authored.Node) (list : List β) (spelling : β → String)
    (problem : String → Problem) (text : Option String) :
    Checks node [.known (list.map spelling) (text.getD "") problem]
      (variant node (fun word => list.find? (spelling · == word)) problem text) := by
  refine checks_search Iff.rfl (fun socket found => ?_) fun lost => ?_
  · rw [variant, found]
    rfl
  · rw [variant, lost]
    rfl

theorem checks_input_bind {identifier : String} {next : Socket → Planned α}
    (each : ∀ socket, Checks node demands (next socket)) :
    Checks node (.input identifier :: demands) (requireInput node identifier >>= next) :=
  checks_bind (checks_requireInput node identifier) fun socket _ => each socket

theorem checks_output_bind {identifier : String} {next : Socket → Planned α}
    (each : ∀ socket, Checks node demands (next socket)) :
    Checks node (.output identifier :: demands) (requireOutput node identifier >>= next) :=
  checks_bind (checks_requireOutput node identifier) fun socket _ => each socket

end

theorem checks_planGroup (node : Authored.Node) :
    Checks node [.known (GroupKind.all.map (·.spelling)) (node.groupName.getD "") .unknownGroup]
      (planGroup node) := by
  refine checks_bind_last (checks_variant node GroupKind.all (·.spelling) _ _) fun group => ?_
  cases group <;> exact checks_ok node _

theorem checks_planMapping (node : Authored.Node) :
    Checks node [.input "Vector", .output "Vector"] (planMapping node) :=
  checks_input_bind fun _ => checks_output_bind fun _ => checks_ok node _

theorem checks_extendedOutputs (node : Authored.Node) :
    Checks node [.output "Diffuse", .output "Spec"] (extendedOutputs node) :=
  checks_output_bind fun _ => checks_output_bind fun _ => checks_ok node _

/-- A material demands what it reads, and an extended one two outputs more. -/
theorem checks_planMaterial (node : Authored.Node) (extended : Bool) :
    Checks node
      (Authored.Node.materialDemands ++
        if extended then [.output "Diffuse", .output "Spec"] else [])
      (planMaterial node extended) := by
  rw [planMaterial]
  cases bound : node.material with
  | none => exact checks_cons_of_not_met (by simp [Demand.Met, bound]) rfl
  | some material =>
      refine (checks_cons_of_met (by simp [Demand.Met, bound])).mpr ?_
      refine checks_input_bind fun normal => ?_
      refine checks_input_bind fun color => ?_
      refine checks_input_bind fun specular => ?_
      refine checks_output_bind fun outColor => ?_
      refine checks_output_bind fun outAlpha => ?_
      refine checks_output_bind fun outNormal => ?_
      cases extended with
      | false => exact checks_ok node _
      | true => exact checks_bind_last (checks_extendedOutputs node) fun _ => checks_ok node _

/-! ## Textures -/

open Authored.Node (settles settlesNormal valueDemands)

/-- Outputs are looked at up to the first that settles what is sampled. -/
theorem checks_samplerOf (node : Authored.Node) (usual : Sampler) (sockets : List Socket) :
    Checks node (valueDemands sockets) (samplerOf node usual sockets) := by
  induction sockets with
  | nil => exact checks_ok node _
  | cons socket others induction =>
      rw [samplerOf, valueDemands]
      split
      case h_1 isColor => simpa [settles, isColor] using checks_ok node _
      case h_2 isNormal => simpa [settles, isNormal] using checks_ok node _
      case h_3 isValue =>
        rw [List.takeWhile_cons_of_pos (by simp [settles, isValue]), List.map_cons]
        exact (checks_cons_of_met (by simp [Demand.Met, isValue])).mpr induction
      case h_4 notColor notNormal notValue =>
        have unsettled : settles socket = false := by
          simpa [settles] using ⟨notColor, notNormal⟩
        rw [List.takeWhile_cons_of_pos (by simp [unsettled]), List.map_cons]
        exact checks_cons_of_not_met (by simpa [Demand.Met] using notValue) rfl

/-- A texture is sampled for normals if the first output that settles it asks for them. -/
theorem samplerOf_eq_normal_iff {node : Authored.Node} {usual sampler : Sampler}
    (notNormal : usual ≠ .normal) {sockets : List Socket}
    (sampled : samplerOf node usual sockets = .ok sampler) :
    sampler = .normal ↔ settlesNormal sockets = true := by
  induction sockets with
  | nil =>
      cases sampled
      simpa [settlesNormal] using notNormal
  | cons socket others induction =>
      rw [samplerOf] at sampled
      split at sampled
      case h_1 isColor =>
        cases sampled
        simpa [settlesNormal, settles, isColor] using notNormal
      case h_2 isNormal =>
        cases sampled
        simp [settlesNormal, settles, isNormal]
      case h_3 isValue =>
        rw [induction sampled]
        simp [settlesNormal, settles, isValue]
      case h_4 => cases sampled

/-- The output that settles that a texture is sampled for normals gives them. -/
theorem mem_identifiers_of_settlesNormal {node : Authored.Node}
    (asked : settlesNormal node.linkedOutputs = true) :
    "Normal" ∈ Socket.identifiers node.outputs := by
  rw [settlesNormal] at asked
  cases found : node.linkedOutputs.find? settles with
  | none => simp [found] at asked
  | some socket =>
      have linked : socket ∈ node.linkedOutputs := List.mem_of_find?_eq_some found
      have isNormal : socket.identifier = "Normal" := by simpa [found] using asked
      exact List.mem_map.mpr ⟨socket, (List.mem_filter.mp linked).1, isNormal⟩

theorem checks_textureSockets {node : Authored.Node} {sampler : Sampler}
    (settled : sampler = .normal ↔ settlesNormal node.linkedOutputs = true) :
    Checks node
      (.input "Vector" ::
        ((if settlesNormal node.linkedOutputs then [] else [.output "Color"]) ++ [.output "Value"]))
      (textureSockets node sampler) := by
  refine checks_input_bind fun vector => ?_
  by_cases normal : settlesNormal node.linkedOutputs = true
  · have met : (Demand.output "Normal").Met node := mem_identifiers_of_settlesNormal normal
    rw [if_pos normal, if_pos (settled.mpr normal), List.nil_append]
    refine (checks_cons_of_met met).mp ?_
    exact checks_output_bind fun primary => checks_output_bind fun value => checks_ok node _
  · rw [if_neg normal, if_neg (mt settled.mp normal)]
    exact checks_output_bind fun primary => checks_output_bind fun value => checks_ok node _

/-- A texture demands its image first, then what its linked outputs ask for. -/
theorem checks_planTexture (node : Authored.Node) :
    Checks node node.textureDemands (planTexture node) := by
  rw [planTexture]
  cases bound : node.texture with
  | none => exact checks_cons_of_not_met (by simp [Demand.Met, bound]) rfl
  | some texture =>
      refine (checks_cons_of_met (by simp [Demand.Met, bound])).mpr ?_
      refine checks_bind (checks_samplerOf node _ _) fun sampler sampled => ?_
      have usual :
          (if texture.isEnvironmentMap then Sampler.environment else .color) ≠ .normal := by
        split <;> simp
      have checked := checks_textureSockets (samplerOf_eq_normal_iff usual sampled)
      -- A refusal keeps its failure when a name has been drawn before it.
      rw [Checks] at checked ⊢
      rw [← checked]
      cases textureSockets node sampler with
      | error refusal => rfl
      | ok sockets => rfl

/-! ## All kinds -/

theorem checks_planFacets (node : Authored.Node) (drawn : List String) (sockets : List Socket) :
    Checks node (Authored.Node.facetDemands sockets) (planFacets node drawn sockets) := by
  induction sockets generalizing drawn with
  | nil => exact checks_ok node _
  | cons socket others induction =>
      have isKnown : (Facet.ofIdentifier? socket.identifier).isSome = true ↔
          socket.identifier ∈ Facet.all.map (·.identifier) := find?_isSome_iff_mem_map
      rw [planFacets, Authored.Node.facetDemands, List.map_cons]
      split
      · rename_i lost
        exact checks_cons_of_not_met (by simp [Demand.Met, ← isKnown, lost]) rfl
      · rename_i facet found
        refine (checks_cons_of_met (by simp [Demand.Met, ← isKnown, found])).mpr ?_
        exact checks_map (induction _) _

/-- Every node but a geometry node is checked for the demands of its type. -/
theorem checks_planSingle {node : Authored.Node} (notGeometry : node.type ≠ "GEOMETRY") :
    Checks node node.demands (planSingle node) := by
  rw [planSingle]
  split
  case h_17 =>
    have free : node.demands = [] := by
      rw [Authored.Node.demands]
      split <;> first | rfl | contradiction
    exact free ▸ checks_ok node _
  -- Of every other type, the demands are known.
  all_goals
    rename_i isType
    simp only [Authored.Node.demands, isType]
  case h_4 => exact checks_planGroup node
  case h_6 => exact checks_planMapping node
  case h_7 => exact checks_planMaterial node false
  case h_8 => exact checks_planMaterial node true
  case h_9 =>
    exact checks_bind_last (checks_variant node MathOp.all _ _ _) fun _ => checks_ok node _
  case h_10 =>
    exact checks_bind_last (checks_variant node BlendMode.all _ _ _) fun _ => checks_ok node _
  case h_11 =>
    exact checks_bind_last (checks_variant node VectorOp.all _ _ _) fun _ => checks_ok node _
  case h_15 => exact checks_planTexture node
  all_goals
    first
    | exact checks_ok node _
    | exact checks_output_bind fun _ => checks_ok node _

/-- A planning reports the first demand on a node that it does not meet. -/
theorem checks_plan (node : Authored.Node) : Checks node node.demands (plan node) := by
  rw [plan]
  split
  · rename_i isGeometry
    simp only [Authored.Node.demands, isGeometry]
    exact checks_planFacets node [] _
  · rename_i notGeometry
    exact checks_map (checks_planSingle notGeometry) _

/-! ## Nodes -/

/-- Adding nodes reports the fault of the first node that has one. -/
theorem addNodes_eq_error_iff
    {nodes : List Authored.Node} {graph : Graph} {supply : NameSupply} {failure : Failure} :
    (addNodes nodes graph supply).1 = .error failure ↔
      nodes.findSome? Authored.Node.fault? = some failure := by
  induction nodes generalizing graph supply with
  | nil => simp [addNodes]
  | cons node others induction =>
      have checked : reported? (plan node) = node.fault? := checks_plan node
      rw [addNodes, List.findSome?_cons, ← checked]
      cases plan node with
      | error refusal => simp [reported?]
      | ok plans => exact induction

/-- The fault of the first faulty node is that of its first demand that is not met. -/
theorem findSome?_fault?_eq_some_iff {nodes : List Authored.Node} {failure : Failure} :
    nodes.findSome? Authored.Node.fault? = some failure ↔
      ∃ node demand, FirstFailing Authored.Node.Acceptable nodes node ∧
        FirstFailing (·.Met node) node.demands demand ∧ demand.failure node = failure := by
  rw [findSome?_eq_some_iff_first fun node => Authored.Node.fault?_eq_none_iff]
  constructor
  · rintro ⟨node, first, faulty⟩
    rcases (findSome?_eq_some_iff_first fun _ => Demand.fault?_eq_none_iff).mp faulty with
      ⟨demand, unmet, fault⟩
    rw [Demand.fault?, if_neg unmet.not_holds] at fault
    exact ⟨node, demand, first, unmet, Option.some.inj fault⟩
  · rintro ⟨node, demand, first, unmet, rfl⟩
    refine ⟨node, first, (findSome?_eq_some_iff_first fun _ => Demand.fault?_eq_none_iff).mpr ?_⟩
    exact ⟨demand, unmet, if_neg unmet.not_holds⟩

/-! ## Links -/

/-- The nodes that stand for an authored node bear its name. -/
theorem name_of_standsAs {node : Authored.Node} {made : List Node} (stands : node.StandsAs made)
    {one : Node} (member : one ∈ made) : one.name = node.name := by
  rw [Authored.Node.StandsAs] at stands
  split at stands
  · generalize node.linkedOutputs = sockets at stands
    induction stands with
    | nil => cases member
    | cons gives _ induction =>
        rcases List.mem_cons.mp member with rfl | later
        · exact gives.1
        · exact induction later
  · rcases stands with ⟨single, rfl, named⟩
    rw [List.mem_singleton.mp member, named]

/-- An authored node stands in the graph, but for geometry without linked outputs. -/
theorem ne_nil_iff_appears {node : Authored.Node} {made : List Node}
    (stands : node.StandsAs made) : made ≠ [] ↔ node.Appears := by
  rw [Authored.Node.StandsAs] at stands
  rw [Authored.Node.Appears]
  split at stands
  · rename_i isGeometry
    have length := stands.length_eq
    simp only [isGeometry, forall_const, ne_eq, ← List.length_eq_zero_iff, length]
  · rename_i notGeometry
    rcases stands with ⟨single, rfl, -⟩
    simp [notGeometry]

/-- The names that nodes of the graph carry are those of the nodes that appear. -/
theorem exists_named_iff {nodes : List Authored.Node} {made : List (List Node)} {name : String}
    (stand : List.Forall₂ Authored.Node.StandsAs nodes made) :
    (∃ one ∈ made.flatten, one.name = name) ↔
      ∃ node ∈ nodes, node.name = name ∧ node.Appears := by
  induction stand with
  | nil => simp
  | @cons node block nodes made stands _ induction =>
      have own : (∃ one ∈ block, one.name = name) ↔ node.name = name ∧ node.Appears := by
        rw [← ne_nil_iff_appears stands]
        constructor
        · rintro ⟨one, member, rfl⟩
          exact ⟨(name_of_standsAs stands member).symm, List.ne_nil_of_mem member⟩
        · rintro ⟨rfl, filled⟩
          rcases List.exists_mem_of_ne_nil block filled with ⟨one, member⟩
          exact ⟨one, member, name_of_standsAs stands member⟩
      simp only [List.flatten_cons, List.mem_append, or_and_right, exists_or, own, induction,
        List.exists_mem_cons_iff]

/-- Links fail for a name that no node has, the first such one. -/
theorem addLinks_eq_error_iff {links : List Authored.Link} {graph : Graph} {failure : Failure} :
    addLinks links graph = .error failure ↔
      ∃ name, links.findSome? (missing? graph) = some name ∧ failure = .unknownNode name := by
  rw [addLinks_eq]
  cases links.findSome? (missing? graph) with
  | none => simp
  | some name => simp [eq_comm]

section

variable {tree : Authored.Tree} {supply : NameSupply} {scaffold : Graph}

theorem nodesNamed_ne_nil_iff_offers
    (added : (addNodes tree.nodes .empty supply).1 = .ok scaffold) (name : String) :
    nodesNamed scaffold name ≠ [] ↔ tree.Offers name := by
  rcases extends_addNodes added with ⟨plans, made, all, become, extended⟩
  have nodes : scaffold.nodes = made.flatten := extended.nodes
  rw [Authored.Tree.Offers, ← exists_named_iff (standsAs_of_plans all become), nodesNamed, nodes]
  simp only [ne_eq, List.filter_eq_nil_iff, not_forall, not_not, beq_iff_eq, exists_prop]

/-- Whether a link can be drawn can be told from the tree alone. -/
theorem known_iff_connects
    (added : (addNodes tree.nodes .empty supply).1 = .ok scaffold) (link : Authored.Link) :
    Known scaffold link ↔ tree.Connects link := by
  rw [Known, nodesNamed_ne_nil_iff_offers added, nodesNamed_ne_nil_iff_offers added]
  rfl

/-- The name that the first link without two ends misses is that of its start, if it misses both. -/
theorem findSome?_missing?_eq_some_iff
    (added : (addNodes tree.nodes .empty supply).1 = .ok scaffold) {name : String} :
    tree.links.findSome? (missing? scaffold) = some name ↔
      ∃ link, FirstFailing tree.Connects tree.links link ∧
        ((¬ tree.Offers link.fromNode ∧ link.fromNode = name) ∨
          (tree.Offers link.fromNode ∧ link.toNode = name)) := by
  rw [findSome?_eq_some_iff_first fun link =>
    missing?_eq_none_iff.trans (known_iff_connects added link)]
  refine exists_congr fun link => and_congr_right fun first => ?_
  have unnamed : ∀ other, nodesNamed scaffold other = [] ↔ ¬ tree.Offers other :=
    fun other => not_iff_not.mp (by rw [not_not, ← nodesNamed_ne_nil_iff_offers added])
  rw [missing?]
  by_cases offered : tree.Offers link.fromNode
  · have noEnd : ¬ tree.Offers link.toNode := fun known => first.not_holds ⟨offered, known⟩
    simp [unnamed, offered, noEnd]
  · simp [unnamed, offered]

end

/-! ## Trees -/

/-- An answer accepts a tree without offence, and reports the first offence of any other. -/
structure Judges (tree : Authored.Tree) (answer : Except Failure Graph) : Prop where
  accepts : (∃ graph, answer = .ok graph) ↔ tree.Acceptable
  reports : ∀ failure, answer = .error failure ↔ tree.FirstOffence failure

/-- A tree with a faulty node is refused for the first such node. -/
theorem judges_of_addNodes_eq_error {tree : Authored.Tree} {supply : NameSupply} {failure : Failure}
    (refused : (addNodes tree.nodes .empty supply).1 = .error failure) :
    Judges tree (.error failure) := by
  have faulty := addNodes_eq_error_iff.mp refused
  rcases findSome?_fault?_eq_some_iff.mp faulty with ⟨node, demand, first, unmet, reported⟩
  have notAll : ¬ ∀ node ∈ tree.nodes, node.Acceptable := first.not_forall
  constructor
  case accepts =>
    constructor
    · rintro ⟨graph, same⟩
      cases same
    · exact fun acceptable => absurd acceptable.nodes notAll
  case reports =>
    intro other
    constructor
    · intro same
      cases same
      exact reported ▸ .node first unmet
    · intro offence
      cases offence with
      | node first unmet =>
          have same := findSome?_fault?_eq_some_iff.mpr ⟨_, _, first, unmet, rfl⟩
          rw [← Option.some.inj (faulty.symm.trans same)]
      | start nodes => exact absurd nodes notAll
      | finish nodes => exact absurd nodes notAll

/-- A tree without faulty nodes is judged by its links. -/
theorem judges_of_addNodes_eq_ok {tree : Authored.Tree} {supply : NameSupply} {scaffold : Graph}
    (added : (addNodes tree.nodes .empty supply).1 = .ok scaffold) :
    Judges tree (addLinks tree.links scaffold) := by
  have nodes : ∀ node ∈ tree.nodes, node.Acceptable := by
    have faultless : tree.nodes.findSome? Authored.Node.fault? = none := by
      by_contra faulty
      rcases Option.ne_none_iff_exists'.mp faulty with ⟨failure, found⟩
      have refused := added.symm.trans (addNodes_eq_error_iff.mpr found)
      cases refused
    intro node member
    exact Authored.Node.fault?_eq_none_iff.mp (List.findSome?_eq_none_iff.mp faultless node member)
  constructor
  case accepts =>
    simp only [addLinks_eq_ok_iff, known_iff_connects added]
    constructor
    · rintro ⟨graph, links, -⟩
      exact ⟨nodes, links⟩
    · exact fun acceptable => ⟨_, acceptable.links, rfl⟩
  case reports =>
    intro failure
    rw [addLinks_eq_error_iff]
    constructor
    · rintro ⟨name, missed, rfl⟩
      rcases (findSome?_missing?_eq_some_iff added).mp missed with
        ⟨link, first, ⟨unknown, rfl⟩ | ⟨known, rfl⟩⟩
      · exact .start nodes first unknown
      · exact .finish nodes first known
    · intro offence
      cases offence with
      | node first => exact absurd nodes first.not_forall
      | start _ first unknown =>
          exact ⟨_, (findSome?_missing?_eq_some_iff added).mpr
            ⟨_, first, Or.inl ⟨unknown, rfl⟩⟩, rfl⟩
      | finish _ first known =>
          exact ⟨_, (findSome?_missing?_eq_some_iff added).mpr
            ⟨_, first, Or.inr ⟨known, rfl⟩⟩, rfl⟩

/-- Building accepts the trees without offence, and reports the first offence of all others. -/
theorem build_judges (tree : Authored.Tree) (supply : NameSupply) :
    Judges tree (build tree supply).1 := by
  rw [build]
  rcases added : addNodes tree.nodes .empty supply with ⟨_ | scaffold, drawn⟩
  · exact judges_of_addNodes_eq_error (congrArg Prod.fst added)
  · exact judges_of_addNodes_eq_ok (congrArg Prod.fst added)

-- The words that the demands on arithmetic nodes accept.
example :
    MathOp.all.map (·.spelling) =
        ["ADD", "SUBTRACT", "MULTIPLY", "DIVIDE", "SINE", "COSINE", "TANGENT", "ARCSINE",
          "ARCCOSINE", "ARCTANGENT", "POWER", "LOGARITHM", "MINIMUM", "MAXIMUM", "ROUND",
          "LESS_THAN", "GREATER_THAN", "MODULO"] ∧
      VectorOp.all.map (·.spelling) =
        ["ADD", "SUBTRACT", "AVERAGE", "DOT_PRODUCT", "CROSS_PRODUCT", "NORMALIZE"] ∧
      BlendMode.all.map (·.spelling) =
        ["MIX", "ADD", "MULTIPLY", "SUBTRACT", "SCREEN", "DIVIDE", "DIFFERENCE", "DARKEN",
          "LIGHTEN", "OVERLAY", "DODGE", "BURN", "HUE", "SATURATION", "VALUE", "COLOR",
          "SOFT_LIGHT", "LINEAR_LIGHT"] :=
  ⟨rfl, rfl, rfl⟩

-- The words that the demands on groups and on the outputs of a geometry node accept.
example :
    GroupKind.all.map (·.spelling) =
        ["LINEAR_TO_SRGB", "NORMAL_VIEW", "REPLACE", "SRGB_TO_LINEAR", "REFLECT", "PARALLAX",
          "CLAMP", "TRANSLUCENCY"] ∧
      Facet.all.map (·.identifier) =
        ["UV", "Vertex Color", "Normal", "Front/Back", "View", "Global"] :=
  ⟨rfl, rfl⟩

end Assembly

end NodeMaterial
