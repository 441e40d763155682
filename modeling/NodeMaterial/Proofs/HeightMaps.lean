import NodeMaterial.Proofs.Elimination

/-!
# Inlining height maps drops one input and nothing else

A parallax group takes over the texture that feeds its second input, and that input
goes away.  Every edge into an input behind it moves up by one, as often as it occurs;
edges elsewhere stay.  The texture goes away too if nothing else reads it, and with it
the edges into it.  A group that something other than a texture feeds first is refused,
and then nothing changes.

Groups that one texture feeds can be treated in any order.  The texture is there as long
as a group that has not been treated reads it.
-/

namespace NodeMaterial

/-- What an edge was before the second inputs of some nodes went away. -/
def Edge.beforeInlining (ids : List NodeId) (edge : Edge) : Edge :=
  if edge.target ∈ ids ∧ 1 ≤ edge.inSocket then
    { edge with inSocket := edge.inSocket + 1 }
  else
    edge

namespace Edge

variable {ids others : List NodeId} {id : NodeId} {edge : Edge}

@[simp]
theorem target_beforeInlining (ids : List NodeId) (edge : Edge) :
    (edge.beforeInlining ids).target = edge.target := by
  rw [beforeInlining]
  split <;> rfl

@[simp]
theorem source_beforeInlining (ids : List NodeId) (edge : Edge) :
    (edge.beforeInlining ids).source = edge.source := by
  rw [beforeInlining]
  split <;> rfl

theorem beforeInlining_of_not_mem (away : edge.target ∉ ids) :
    edge.beforeInlining ids = edge :=
  if_neg fun within => away within.1

/-- Nothing has come from a second input. -/
theorem inSocket_beforeInlining_ne (within : edge.target ∈ ids) :
    (edge.beforeInlining ids).inSocket ≠ 1 := by
  by_cases behind : 1 ≤ edge.inSocket
  · simp only [beforeInlining, within, behind, and_self, if_true]
    omega
  · simp only [beforeInlining, within, behind, and_false, if_false]
    omega

/-- Every edge that does not enter a second input becomes one. -/
theorem exists_beforeInlining (kept : edge.target ∈ ids → edge.inSocket ≠ 1) :
    ∃ later : Edge, later.beforeInlining ids = edge := by
  by_cases behind : edge.target ∈ ids ∧ 1 < edge.inSocket
  · refine ⟨{ edge with inSocket := edge.inSocket - 1 }, ?_⟩
    have stillBehind : 1 ≤ edge.inSocket - 1 := Nat.le_sub_one_of_lt behind.2
    have restored : edge.inSocket - 1 + 1 = edge.inSocket := Nat.sub_add_cancel behind.2.le
    simp only [beforeInlining, behind.1, stillBehind, and_self, if_true, restored]
  · refine ⟨edge, if_neg fun within => behind ⟨within.1, ?_⟩⟩
    exact Nat.lt_of_le_of_ne within.2 (kept within.1).symm

/-- Edges are traced back through one parallax node after the other. -/
theorem beforeInlining_cons (apart : id ∉ others) :
    (edge.beforeInlining others).beforeInlining [id] = edge.beforeInlining (id :: others) := by
  by_cases within : edge.target ∈ others
  · have away : edge.target ≠ id := fun same => apart (same ▸ within)
    rw [beforeInlining_of_not_mem (by simpa using away)]
    simp [beforeInlining, within]
  · rw [beforeInlining_of_not_mem within]
    simp [beforeInlining, within]

end Edge

namespace Graph

variable {graph middle result : Graph} {ids others : List NodeId} {id : NodeId}
  {node texture : Node} {texture? : Option Node}

/-! ## What inlining leaves behind -/

/--
The node without its second input and, if a texture fed that, with the texture's data and first
parameter in place of its own.
-/
def inlined (node : Node) : Option Node → Node
  | none => { node with inputs := node.inputs.eraseIdx 1 }
  | some texture =>
      { node with
        inputs := node.inputs.eraseIdx 1
        data := texture.data
        params :=
          if node.params = [] ∨ texture.params = [] then node.params
          else texture.params.take 1 ++ node.params.drop 1 }

/-- Edges leave a node, and all of them enter second inputs of the listed nodes. -/
def ReadOnlyBy (graph : Graph) (ids : List NodeId) (source : NodeId) : Prop :=
  (∃ edge ∈ graph.edges, edge.source = source) ∧
    ∀ edge ∈ graph.edges, edge.source = source → edge.target ∈ ids ∧ edge.inSocket = 1

/-- A node is the texture that is taken over, and nothing else reads it. -/
def Unread (graph : Graph) (ids : List NodeId) (texture? : Option Node) (id : NodeId) : Prop :=
  (∃ texture ∈ texture?, texture.id = id) ∧ graph.ReadOnlyBy ids id

/-- A graph becomes another by dropping the second inputs of nodes, which perhaps a texture fed. -/
structure Inlines (graph result : Graph) (ids : List NodeId) (texture? : Option Node) :
    Prop where
  groups : ∀ id ∈ ids, ∀ node, graph.node? id = some node →
    result.node? id = some (inlined node texture?)
  gone : ∀ id, graph.Unread ids texture? id → result.node? id = none
  rest : ∀ id ∉ ids, ¬ graph.Unread ids texture? id → result.node? id = graph.node? id
  edges : ∀ edge, ¬ graph.Unread ids texture? edge.target →
    result.multiplicity edge = graph.multiplicity (edge.beforeInlining ids)
  cut : ∀ edge, graph.Unread ids texture? edge.target → result.multiplicity edge = 0
  output : ∀ id, result.output = some id ↔
    graph.output = some id ∧ ¬ graph.Unread ids texture? id
  nextId : result.nextId = graph.nextId

/-! ## Dropping the second input -/

/-- The node loses its second input, and nothing else. -/
theorem node?_dropSecondInput_self (found : graph.node? id = some node)
    (several : 2 ≤ node.inputs.length) :
    (graph.dropSecondInput id).node? id = some { node with inputs := node.inputs.eraseIdx 1 } := by
  have unplugged : (graph.unplugLater id).node? id = some node := found
  rw [dropSecondInput_eq found several, node?_addEdges, node?_modifyNode_self _ unplugged,
    ← id_of_node? found]
  rfl

theorem node?_dropSecondInput_of_ne (found : graph.node? id = some node)
    (several : 2 ≤ node.inputs.length) {other : NodeId} (different : other ≠ id) :
    (graph.dropSecondInput id).node? other = graph.node? other := by
  rw [dropSecondInput_eq found several, node?_addEdges, node?_modifyNode_of_ne _ _ different]
  rfl

/-- An edge is what one from the next socket becomes. -/
theorem count_shiftedEdges (graph : Graph) (id : NodeId) (edge : Edge) :
    (graph.shiftedEdges id).count edge =
      if edge.target = id ∧ 1 ≤ edge.inSocket then
        graph.multiplicity { edge with inSocket := edge.inSocket + 1 }
      else
        0 := by
  rw [shiftedEdges, List.count, List.countP_map, List.countP_filter, inEdges_eq_filter,
    List.countP_filter]
  split
  · rename_i behind
    rw [multiplicity_eq_count, List.count]
    refine List.countP_congr fun old _ => ?_
    rcases edge with ⟨source, target, outSocket, inSocket⟩
    rcases old with ⟨oldSource, oldTarget, oldOutSocket, oldInSocket⟩
    simp only [shiftDown, Function.comp_apply, Bool.and_eq_true, beq_iff_eq, decide_eq_true_eq,
      Edge.mk.injEq] at behind ⊢
    lia
  · rename_i notBehind
    rw [List.countP_eq_zero]
    intro old _ becomes
    simp only [shiftDown, Function.comp_apply, Bool.and_eq_true, beq_iff_eq,
      decide_eq_true_eq] at becomes
    rcases becomes with ⟨⟨rfl, behind⟩, target⟩
    exact notBehind ⟨target, Nat.le_sub_one_of_lt behind⟩

/-- Edges into later inputs were edges into the inputs behind them. -/
theorem multiplicity_dropSecondInput (found : graph.node? id = some node)
    (several : 2 ≤ node.inputs.length) (edge : Edge) :
    (graph.dropSecondInput id).multiplicity edge =
      graph.multiplicity (edge.beforeInlining [id]) := by
  have kept : ((graph.unplugLater id).modifyNode id withoutSecondInput).multiplicity edge =
      if (!(edge.target == id && decide (1 ≤ edge.inSocket))) = true then
        graph.multiplicity edge
      else
        0 :=
    multiplicity_filterEdges graph _ edge
  rw [dropSecondInput_eq found several, multiplicity_addEdges, kept, count_shiftedEdges]
  by_cases behind : edge.target = id ∧ 1 ≤ edge.inSocket
  · simp [Edge.beforeInlining, behind.1, behind.2]
  · have before : edge.beforeInlining [id] = edge := if_neg (by simpa using behind)
    rw [before, if_neg behind, Nat.add_zero, if_pos]
    simpa [-not_and, not_and_or] using behind

theorem output_dropSecondInput (found : graph.node? id = some node)
    (several : 2 ≤ node.inputs.length) :
    (graph.dropSecondInput id).output = graph.output := by
  rw [dropSecondInput_eq found several, output_addEdges]
  rfl

theorem nextId_dropSecondInput (found : graph.node? id = some node)
    (several : 2 ≤ node.inputs.length) :
    (graph.dropSecondInput id).nextId = graph.nextId := by
  rw [dropSecondInput_eq found several, nextId_addEdges]
  rfl

/-! ## Taking a texture over -/

/-- The graph in which a node has taken a texture over that is still there. -/
def plugged (graph : Graph) (id : NodeId) (texture : Node) : Graph :=
  (graph.modifyNode id (takeTexture texture)).unplugHeight texture.id id

theorem plugged_eq (graph : Graph) (id : NodeId) (texture : Node) :
    graph.plugged id texture =
      (graph.modifyNode id (takeTexture texture)).filterEdges fun edge =>
        !(edge.target == id && edge.source == texture.id && edge.inSocket == 1) :=
  unplugHeight_eq _ _ _

theorem node?_plugged_self (found : graph.node? id = some node) :
    (graph.plugged id texture).node? id = some (takeTexture texture node) := by
  have changed := node?_modifyNode_self (takeTexture texture) found
  rw [plugged_eq]
  rw [← id_of_node? found] at changed ⊢
  exact changed

theorem node?_plugged_of_ne {other : NodeId} (away : other ≠ id) :
    (graph.plugged id texture).node? other = graph.node? other := by
  rw [plugged_eq]
  exact node?_modifyNode_of_ne graph _ away

theorem output_plugged (graph : Graph) (id : NodeId) (texture : Node) :
    (graph.plugged id texture).output = graph.output := by
  rw [plugged_eq]
  rfl

theorem nextId_plugged (graph : Graph) (id : NodeId) (texture : Node) :
    (graph.plugged id texture).nextId = graph.nextId := by
  rw [plugged_eq]
  rfl

/-- Plugging a texture in leaves the edges into other sockets alone. -/
theorem multiplicity_plugged (graph : Graph) (id : NodeId) (texture : Node) {edge : Edge}
    (elsewhere : edge.target = id → edge.inSocket ≠ 1) :
    (graph.plugged id texture).multiplicity edge = graph.multiplicity edge := by
  rw [plugged_eq, multiplicity_filterEdges, if_pos]
  · rfl
  · by_cases target : edge.target = id
    · simp [elsewhere target]
    · simp [target]

/-- Whether the texture goes away is whether only that input has read it. -/
theorem plugTexture_cases (feeds : ∃ edge ∈ graph.edges, edge.source = texture.id) :
    (graph.ReadOnlyBy [id] texture.id ∧
      graph.plugTexture id texture = (graph.plugged id texture).withoutNode texture.id) ∨
    (¬ graph.ReadOnlyBy [id] texture.id ∧
      graph.plugTexture id texture = graph.plugged id texture) := by
  have unread : ((graph.plugged id texture).outEdges texture.id).isEmpty = true ↔
      graph.ReadOnlyBy [id] texture.id := by
    rw [List.isEmpty_iff, List.eq_nil_iff_forall_not_mem, ReadOnlyBy, and_iff_right feeds]
    refine forall_congr' fun edge => ?_
    rw [mem_outEdges, plugged_eq, edges_filterEdges, edges_modifyNode, List.mem_filter]
    simp only [List.mem_singleton, Bool.not_eq_true', Bool.and_eq_false_iff, beq_eq_false_iff_ne]
    grind
  have split : graph.plugTexture id texture =
      if ((graph.plugged id texture).outEdges texture.id).isEmpty = true then
        (graph.plugged id texture).withoutNode texture.id
      else
        graph.plugged id texture :=
    rfl
  by_cases readOnly : graph.ReadOnlyBy [id] texture.id
  · exact Or.inl ⟨readOnly, split.trans (if_pos (unread.mpr readOnly))⟩
  · exact Or.inr ⟨readOnly, split.trans (if_neg (mt unread.mp readOnly))⟩

theorem unread_some_iff {other : NodeId} :
    graph.Unread ids (some texture) other ↔
      other = texture.id ∧ graph.ReadOnlyBy ids texture.id := by
  constructor
  · rintro ⟨⟨old, isOld, rfl⟩, readOnly⟩
    cases Option.mem_some.mp isOld
    exact ⟨rfl, readOnly⟩
  · rintro ⟨rfl, readOnly⟩
    exact ⟨⟨texture, rfl, rfl⟩, readOnly⟩

theorem replaceFirst_head? (params others : List Param) :
    replaceFirst params others.head? =
      if params = [] ∨ others = [] then params else others.take 1 ++ params.drop 1 := by
  cases params <;> cases others <;> simp [replaceFirst]

/-- What taking a texture over does, before the second input goes away. -/
structure Plugs (graph result : Graph) (id : NodeId) (texture : Node) : Prop where
  own : ∀ node, graph.node? id = some node → result.node? id = some (takeTexture texture node)
  gone : graph.ReadOnlyBy [id] texture.id → result.node? texture.id = none
  rest : ∀ other, other ≠ id → ¬ graph.Unread [id] (some texture) other →
    result.node? other = graph.node? other
  edges : ∀ edge, (edge.target = id → edge.inSocket ≠ 1) →
    ¬ graph.Unread [id] (some texture) edge.target →
      result.multiplicity edge = graph.multiplicity edge
  cut : ∀ edge, graph.Unread [id] (some texture) edge.target → result.multiplicity edge = 0
  output : ∀ other, result.output = some other ↔
    graph.output = some other ∧ ¬ graph.Unread [id] (some texture) other
  nextId : result.nextId = graph.nextId

/-- A texture that something else reads is unplugged and stays. -/
theorem plugs_plugged (readElsewhere : ¬ graph.ReadOnlyBy [id] texture.id) :
    Plugs graph (graph.plugged id texture) id texture := by
  have unread : ∀ other, ¬ graph.Unread [id] (some texture) other :=
    fun other isUnread => readElsewhere (unread_some_iff.mp isUnread).2
  constructor
  case own => exact fun node found => node?_plugged_self found
  case gone => exact fun readOnly => absurd readOnly readElsewhere
  case rest => exact fun other away _ => node?_plugged_of_ne away
  case edges => exact fun edge elsewhere _ => multiplicity_plugged graph id texture elsewhere
  case cut => exact fun edge isUnread => absurd isUnread (unread _)
  case output =>
    intro other
    rw [output_plugged]
    exact (and_iff_left (unread other)).symm
  case nextId => exact nextId_plugged graph id texture

/-- A texture that nothing else reads is unplugged and removed. -/
theorem plugs_withoutNode (different : id ≠ texture.id)
    (present : graph.contains texture.id = true)
    (readOnly : graph.ReadOnlyBy [id] texture.id) :
    Plugs graph ((graph.plugged id texture).withoutNode texture.id) id texture := by
  have unread : ∀ other, graph.Unread [id] (some texture) other ↔ other = texture.id :=
    fun other => unread_some_iff.trans (and_iff_left readOnly)
  have stillPresent : (graph.plugged id texture).contains texture.id = true := by
    rw [plugged_eq]
    exact (contains_modifyNode graph id texture.id _).trans present
  constructor
  case own =>
    intro node found
    rw [node?_withoutNode_of_ne _ different, node?_plugged_self found]
  case gone => exact fun _ => node?_withoutNode_self _ _
  case rest =>
    intro other away stays
    rw [node?_withoutNode_of_ne _ (mt (unread other).mpr stays), node?_plugged_of_ne away]
  case edges =>
    intro edge elsewhere stays
    rw [multiplicity_withoutNode stillPresent]
    split
    · rename_i touches
      -- All edges of the texture enter the input that goes away, and this one does not.
      have source : edge.source = texture.id := by
        have target := mt (unread edge.target).mpr stays
        simpa [Edge.touches, target] using touches
      symm
      rw [multiplicity_eq_zero_iff]
      intro member
      rcases readOnly.2 edge member source with ⟨target, second⟩
      exact elsewhere (List.mem_singleton.mp target) second
    · exact multiplicity_plugged graph id texture elsewhere
  case cut =>
    intro edge target
    rw [multiplicity_withoutNode stillPresent, if_pos]
    simp [Edge.touches, (unread edge.target).mp target]
  case output =>
    intro other
    rw [output_withoutNode, stillPresent, output_plugged, unread]
    grind
  case nextId => rw [nextId_withoutNode, nextId_plugged]

/--
Plugging a texture in hands its data over, unplugs it, and removes it if nothing else reads it.
-/
theorem plugs_plugTexture (different : id ≠ texture.id)
    (present : graph.contains texture.id = true)
    (feeds : ∃ edge ∈ graph.edges, edge.source = texture.id) :
    Plugs graph (graph.plugTexture id texture) id texture := by
  rcases @plugTexture_cases graph id texture feeds with
    ⟨readOnly, removed⟩ | ⟨readElsewhere, kept⟩
  · rw [removed]
    exact plugs_withoutNode different present readOnly
  · rw [kept]
    exact plugs_plugged readElsewhere

/-- A node that takes a texture over, and then loses its second input. -/
theorem inlines_plugTexture (found : graph.node? id = some node)
    (several : 2 ≤ node.inputs.length) (different : id ≠ texture.id)
    (present : graph.contains texture.id = true)
    (feeds : ∃ edge ∈ graph.edges, edge.source = texture.id) :
    Inlines graph ((graph.plugTexture id texture).dropSecondInput id) [id] (some texture) := by
  have plugs := plugs_plugTexture different present feeds
  have took := plugs.own node found
  have stillSeveral : 2 ≤ (takeTexture texture node).inputs.length := several
  constructor
  case groups =>
    intro other member old oldFound
    cases List.mem_singleton.mp member
    cases found.symm.trans oldFound
    rw [node?_dropSecondInput_self took stillSeveral]
    simp only [takeTexture, inlined, replaceFirst_head?]
  case gone =>
    intro other unread
    rcases unread_some_iff.mp unread with ⟨rfl, readOnly⟩
    rw [node?_dropSecondInput_of_ne took stillSeveral different.symm, plugs.gone readOnly]
  case rest =>
    intro other outside stays
    have away : other ≠ id := by simpa using outside
    rw [node?_dropSecondInput_of_ne took stillSeveral away, plugs.rest other away stays]
  case edges =>
    intro edge stays
    rw [multiplicity_dropSecondInput took stillSeveral, plugs.edges]
    · intro target
      rw [Edge.target_beforeInlining] at target
      exact Edge.inSocket_beforeInlining_ne (by simp [target])
    · rwa [Edge.target_beforeInlining]
  case cut =>
    intro edge unread
    rw [multiplicity_dropSecondInput took stillSeveral, plugs.cut]
    rwa [Edge.target_beforeInlining]
  case output =>
    intro other
    rw [output_dropSecondInput took stillSeveral, plugs.output]
  case nextId => rw [nextId_dropSecondInput took stillSeveral, plugs.nextId]

/-- A node whose second input nothing feeds only loses it. -/
theorem inlines_dropSecondInput (found : graph.node? id = some node)
    (several : 2 ≤ node.inputs.length) :
    Inlines graph (graph.dropSecondInput id) [id] none := by
  have unread : ∀ other, ¬ graph.Unread [id] none other := by simp [Unread]
  constructor
  case groups =>
    intro other member old oldFound
    cases List.mem_singleton.mp member
    cases found.symm.trans oldFound
    exact node?_dropSecondInput_self found several
  case gone => exact fun other isUnread => absurd isUnread (unread other)
  case rest =>
    intro other outside _
    exact node?_dropSecondInput_of_ne found several (by simpa using outside)
  case edges => exact fun edge _ => multiplicity_dropSecondInput found several edge
  case cut => exact fun edge isUnread => absurd isUnread (unread _)
  case output =>
    intro other
    rw [output_dropSecondInput found several]
    exact (and_iff_left (unread other)).symm
  case nextId => exact nextId_dropSecondInput found several

/-! ## One parallax group -/

/-- The first of the edges into an input, in the order of edges. -/
structure FeedsFirst (graph : Graph) (id : NodeId) (place : Nat) (feed : Edge) : Prop where
  member : feed ∈ graph.edges
  target : feed.target = id
  inSocket : feed.inSocket = place
  first : ∀ other ∈ graph.edges, other.target = id → other.inSocket = place →
    feed = other ∨ feed.before other = true

theorem feed?_eq_none_iff {place : Nat} :
    graph.feed? id place = none ↔
      ∀ edge ∈ graph.edges, edge.target = id → edge.inSocket ≠ place := by
  simp only [feed?, List.find?_eq_none, mem_inEdges, beq_iff_eq, and_imp]

/-- A socket is fed by the first edge into it. -/
theorem feedsFirst_of_feed? {place : Nat} {feed : Edge} (fed : graph.feed? id place = some feed) :
    graph.FeedsFirst id place feed := by
  rcases List.find?_eq_some_iff_append.mp fed with ⟨isPlace, earlier, later, split, skipped⟩
  rcases feed?_fed feed fed with ⟨member, target⟩
  refine ⟨member, target, by simpa using isPlace, ?_⟩
  intro other otherMember otherTarget otherPlace
  have sorted := graph.inEdges_ascending id
  have listed : other ∈ graph.inEdges id := mem_inEdges.mpr ⟨otherMember, otherTarget⟩
  rw [split] at sorted listed
  rcases List.mem_append.mp listed with before | here
  · exact absurd otherPlace (by simpa using skipped other before)
  · rcases List.mem_cons.mp here with same | behind
    · exact Or.inl same.symm
    · exact (List.pairwise_cons.mp (List.pairwise_append.mp sorted).2.1).1 other behind

/-- Only one edge comes first. -/
theorem FeedsFirst.feed?_eq {place : Nat} {feed : Edge} (first : graph.FeedsFirst id place feed) :
    graph.feed? id place = some feed := by
  cases fed : graph.feed? id place with
  | none => exact absurd first.inSocket (feed?_eq_none_iff.mp fed feed first.member first.target)
  | some other =>
      have otherFirst := feedsFirst_of_feed? fed
      rcases first.first other otherFirst.member otherFirst.target otherFirst.inSocket with
        same | before
      · rw [same]
      · rcases otherFirst.first feed first.member first.target first.inSocket with same | after
        · rw [same]
        · exact absurd (Edge.before_trans before after) (EdgeBag.not_before_self feed)

theorem textureAt?_eq_some_iff {source : NodeId} :
    graph.textureAt? source = some texture ↔
      graph.node? source = some texture ∧ texture.kind.isTexture = true :=
  Option.filter_eq_some_iff

theorem textureAt?_eq_none_iff {source : NodeId} :
    graph.textureAt? source = none ↔
      ∀ node, graph.node? source = some node → node.kind.isTexture = false := by
  simp [textureAt?, Option.filter_eq_none_iff]

/-- A parallax group is no texture. -/
theorem ne_of_parallax (found : graph.node? id = some node) (kind : node.kind = .group .parallax)
    (textureFound : graph.node? texture.id = some texture)
    (isTexture : texture.kind.isTexture = true) : id ≠ texture.id := by
  rintro rfl
  cases found.symm.trans textureFound
  rw [kind] at isTexture
  cases isTexture

/-- What inlining the height map of a parallax group does, and when it is refused. -/
structure InlinesHeight (graph : Graph) (group : Node) : Prop where
  refused : (∃ failure, (graph.inlineHeight group.id).2 = some failure) ↔
    ∃ feed, graph.FeedsFirst group.id 1 feed ∧
      ∀ node, graph.node? feed.source = some node → node.kind.isTexture = false
  unchanged : ∀ result failure, graph.inlineHeight group.id = (result, some failure) →
    result = graph ∧ failure = .configuration (some group.name) .heightNotTexture ∧
      ∀ others, inlineHeights (group.id :: others) graph = (graph, some failure)
  unfed : (∀ edge ∈ graph.edges, edge.target = group.id → edge.inSocket ≠ 1) →
    ∃ result, graph.inlineHeight group.id = (result, none) ∧ Inlines graph result [group.id] none
  fed : ∀ feed texture, graph.FeedsFirst group.id 1 feed →
    graph.node? feed.source = some texture → texture.kind.isTexture = true →
      ∃ result, graph.inlineHeight group.id = (result, none) ∧
        Inlines graph result [group.id] (some texture)

theorem inlineHeight_of_unfed
    (unfed : ∀ edge ∈ graph.edges, edge.target = id → edge.inSocket ≠ 1) :
    graph.inlineHeight id = (graph.dropSecondInput id, none) := by
  rw [inlineHeight, feed?_eq_none_iff.mpr unfed]

/-- A height map is plugged in first, and then the second input goes. -/
theorem inlineHeight_of_fed {feed : Edge} (first : graph.FeedsFirst id 1 feed)
    (found : graph.node? feed.source = some texture) (isTexture : texture.kind.isTexture = true) :
    graph.inlineHeight id = ((graph.plugTexture id texture).dropSecondInput id, none) := by
  rw [inlineHeight, first.feed?_eq]
  simp only [textureAt?_eq_some_iff.mpr ⟨found, isTexture⟩]

/-- Just a group that something other than a texture feeds first is refused. -/
theorem inlineHeight_refused_iff {failure : Failure} :
    (graph.inlineHeight id).2 = some failure ↔
      failure = graph.heightFailure id ∧
        ∃ feed, graph.FeedsFirst id 1 feed ∧
          ∀ node, graph.node? feed.source = some node → node.kind.isTexture = false := by
  constructor
  · intro refused
    cases fed : graph.feed? id 1 with
    | none => simp [inlineHeight, fed] at refused
    | some feed =>
        cases texture : graph.textureAt? feed.source with
        | some _ => simp [inlineHeight, fed, texture] at refused
        | none =>
            simp only [inlineHeight, fed, texture, Option.some.injEq] at refused
            exact ⟨refused.symm, feed, feedsFirst_of_feed? fed, textureAt?_eq_none_iff.mp texture⟩
  · rintro ⟨rfl, feed, first, noTexture⟩
    rw [inlineHeight, first.feed?_eq]
    simp only [textureAt?_eq_none_iff.mpr noTexture]

/-- The node of a first edge has an edge that leaves it. -/
theorem FeedsFirst.feeds {feed : Edge} {place : Nat} (first : graph.FeedsFirst id place feed)
    (found : graph.node? feed.source = some texture) :
    ∃ edge ∈ graph.edges, edge.source = texture.id :=
  ⟨feed, first.member, (id_of_node? found).symm⟩

/-- A parallax group with two inputs is inlined as it should be. -/
theorem inlinesHeight_of_parallax {group : Node} (found : graph.node? group.id = some group)
    (kind : group.kind = .group .parallax) (several : 2 ≤ group.inputs.length) :
    graph.InlinesHeight group := by
  constructor
  case refused => simp only [inlineHeight_refused_iff, exists_eq_left]
  case unchanged =>
    intro result failure refused
    have same := inlineHeight_failed refused
    subst same
    refine ⟨rfl, ?_, fun others => ?_⟩
    · rw [(inlineHeight_refused_iff.mp (congrArg Prod.snd refused)).1, heightFailure, found]
      rfl
    · rw [inlineHeights, refused]
  case unfed =>
    intro unfed
    exact ⟨_, inlineHeight_of_unfed unfed, inlines_dropSecondInput found several⟩
  case fed =>
    intro feed texture first textureFound isTexture
    refine ⟨_, inlineHeight_of_fed first textureFound isTexture, ?_⟩
    have textureHere : graph.node? texture.id = some texture :=
      (id_of_node? textureFound).symm ▸ textureFound
    exact inlines_plugTexture found several (ne_of_parallax found kind textureHere isTexture)
      (contains_of_node? textureHere) (first.feeds textureFound)

/-! ## Groups with a common texture -/

/-- A parallax group with at least two inputs, the second fed by a texture and nothing else. -/
structure TakesHeight (graph : Graph) (texture : Node) (id : NodeId) : Prop where
  group : ∃ node, graph.node? id = some node ∧ node.kind = .group .parallax ∧
    2 ≤ node.inputs.length
  found : graph.node? texture.id = some texture
  isTexture : texture.kind.isTexture = true
  fed : ∃ edge ∈ graph.edges, edge.target = id ∧ edge.inSocket = 1
  only : ∀ edge ∈ graph.edges, edge.target = id → edge.inSocket = 1 → edge.source = texture.id

theorem TakesHeight.ne (takes : graph.TakesHeight texture id) : id ≠ texture.id := by
  rcases takes.group with ⟨node, found, kind, -⟩
  exact ne_of_parallax found kind takes.found takes.isTexture

/-- Inlining succeeds where the height comes from the common texture. -/
theorem TakesHeight.inlineHeight (takes : graph.TakesHeight texture id) :
    ∃ result, graph.inlineHeight id = (result, none) ∧
      Inlines graph result [id] (some texture) := by
  rcases takes.group with ⟨node, found, kind, several⟩
  cases fed : graph.feed? id 1 with
  | none =>
      rcases takes.fed with ⟨edge, member, target, second⟩
      exact absurd second (feed?_eq_none_iff.mp fed edge member target)
  | some feed =>
      have first := feedsFirst_of_feed? fed
      have source := takes.only feed first.member first.target first.inSocket
      rcases id_of_node? found with rfl
      exact (inlinesHeight_of_parallax found kind several).fed feed texture first
        (source ▸ takes.found) takes.isTexture

/-- As long as another group reads it, the texture is not read by one group only. -/
theorem TakesHeight.not_readOnlyBy {other : NodeId} (takes : graph.TakesHeight texture other)
    (different : other ≠ id) : ¬ graph.ReadOnlyBy [id] texture.id := by
  intro readOnly
  rcases takes.fed with ⟨edge, member, rfl, second⟩
  have within := (readOnly.2 edge member (takes.only edge member rfl second)).1
  exact different (List.mem_singleton.mp within)

namespace Inlines

theorem mem_edges_iff (inlines : Inlines graph middle [id] (some texture))
    (stays : ¬ graph.ReadOnlyBy [id] texture.id) (edge : Edge) :
    edge ∈ middle.edges ↔ edge.beforeInlining [id] ∈ graph.edges :=
  mem_edges_congr (inlines.edges edge fun unread => stays (unread_some_iff.mp unread).2)

/-- Inlining one height map changes nothing for another group. -/
theorem takesHeight (inlines : Inlines graph middle [id] (some texture))
    (different : id ≠ texture.id) {other : NodeId} (away : other ≠ id)
    (takes : graph.TakesHeight texture other) :
    middle.TakesHeight texture other := by
  have stays := takes.not_readOnlyBy away
  have kept : ∀ x, x ≠ id → middle.node? x = graph.node? x := by
    intro x xAway
    exact inlines.rest x (by simpa using xAway) fun unread => stays (unread_some_iff.mp unread).2
  have sameEdges : ∀ edge : Edge, edge.target = other →
      (edge ∈ middle.edges ↔ edge ∈ graph.edges) := by
    intro edge target
    rw [inlines.mem_edges_iff stays, Edge.beforeInlining_of_not_mem (by simpa [target] using away)]
  constructor
  case group =>
    rw [kept other away]
    exact takes.group
  case found => rw [kept texture.id different.symm, takes.found]
  case isTexture => exact takes.isTexture
  case fed =>
    rcases takes.fed with ⟨edge, member, target, second⟩
    exact ⟨edge, (sameEdges edge target).mpr member, target, second⟩
  case only =>
    intro edge member target
    exact takes.only edge ((sameEdges edge target).mp member) target

/-- A texture that stays is read by the other groups only, if all of them read it only. -/
theorem readOnlyBy_iff (inlines : Inlines graph middle [id] (some texture))
    (stays : ¬ graph.ReadOnlyBy [id] texture.id) (apart : id ∉ others) :
    middle.ReadOnlyBy others texture.id ↔ graph.ReadOnlyBy (id :: others) texture.id := by
  have edges := inlines.mem_edges_iff stays
  have kept : ∀ old ∈ graph.edges, ¬ (old.target = id ∧ old.inSocket = 1) →
      ∃ later ∈ middle.edges, later.beforeInlining [id] = old := by
    intro old member notDropped
    have elsewhere : old.target ∈ [id] → old.inSocket ≠ 1 := by simpa using notDropped
    rcases Edge.exists_beforeInlining elsewhere with ⟨later, rfl⟩
    exact ⟨later, (edges later).mpr member, rfl⟩
  constructor
  · rintro ⟨⟨edge, member, source⟩, readOnly⟩
    refine ⟨⟨edge.beforeInlining [id], (edges edge).mp member, by simpa using source⟩, ?_⟩
    intro old oldMember oldSource
    by_cases dropped : old.target = id ∧ old.inSocket = 1
    · exact ⟨by simp [dropped.1], dropped.2⟩
    · rcases kept old oldMember dropped with ⟨later, member, rfl⟩
      rw [Edge.source_beforeInlining] at oldSource
      rcases readOnly later member oldSource with ⟨within, second⟩
      have away : later.target ≠ id := fun same => apart (same ▸ within)
      rw [Edge.beforeInlining_of_not_mem (by simpa using away)]
      exact ⟨List.mem_cons_of_mem id within, second⟩
  · rintro ⟨feeds, readOnly⟩
    constructor
    · by_contra none
      refine stays ⟨feeds, fun old member source => ?_⟩
      by_contra notDropped
      rcases kept old member (by simpa using notDropped) with ⟨later, laterMember, rfl⟩
      exact none ⟨later, laterMember, by simpa using source⟩
    · intro edge member source
      rcases readOnly _ ((edges edge).mp member) (by simpa using source) with ⟨within, second⟩
      rw [Edge.target_beforeInlining] at within
      have away : edge.target ≠ id := fun same =>
        Edge.inSocket_beforeInlining_ne (by simpa using same) second
      rw [Edge.beforeInlining_of_not_mem (by simpa using away)] at second
      exact ⟨(List.mem_cons.mp within).resolve_left away, second⟩

/-- Dropping one input and then others drops all of them. -/
theorem cons (first : Inlines graph middle [id] (some texture))
    (later : Inlines middle result others (some texture))
    (stays : ¬ graph.ReadOnlyBy [id] texture.id) (apart : id ∉ others)
    (different : id ≠ texture.id) :
    Inlines graph result (id :: others) (some texture) := by
  have firstUnread : ∀ x, ¬ graph.Unread [id] (some texture) x :=
    fun x unread => stays (unread_some_iff.mp unread).2
  have unread : ∀ x, middle.Unread others (some texture) x ↔
      graph.Unread (id :: others) (some texture) x := by
    intro x
    rw [unread_some_iff, unread_some_iff, first.readOnlyBy_iff stays apart]
  constructor
  case groups =>
    intro x within node found
    rcases List.mem_cons.mp within with rfl | within
    · rw [later.rest x apart fun unread => different (unread_some_iff.mp unread).1]
      exact first.groups x (List.mem_singleton_self x) node found
    · have away : x ≠ id := fun same => apart (same ▸ within)
      rw [← first.rest x (by simpa using away) (firstUnread x)] at found
      exact later.groups x within node found
  case gone => exact fun x isUnread => later.gone x ((unread x).mpr isUnread)
  case rest =>
    intro x outside stays
    have away : x ≠ id := List.ne_of_not_mem_cons outside
    have outsideOthers : x ∉ others := List.not_mem_of_not_mem_cons outside
    rw [later.rest x outsideOthers (mt (unread x).mp stays),
      first.rest x (by simpa using away) (firstUnread x)]
  case edges =>
    intro edge stays
    rw [later.edges edge (mt (unread _).mp stays), first.edges _ (firstUnread _),
      Edge.beforeInlining_cons apart]
  case cut => exact fun edge isUnread => later.cut edge ((unread _).mpr isUnread)
  case output =>
    intro x
    rw [later.output, first.output, unread, and_iff_left (firstUnread x)]
  case nextId => rw [later.nextId, first.nextId]

/-- Inlining at no node leaves the graph as it is. -/
theorem refl (graph : Graph) (texture : Node) : Inlines graph graph [] (some texture) := by
  have unread : ∀ x, ¬ graph.Unread [] (some texture) x := by
    rintro x ⟨-, ⟨edge, member, source⟩, readOnly⟩
    exact List.not_mem_nil (readOnly edge member source).1
  constructor
  case groups => exact fun x within => absurd within List.not_mem_nil
  case gone => exact fun x isUnread => absurd isUnread (unread x)
  case rest => exact fun x _ _ => rfl
  case edges =>
    intro edge _
    rw [Edge.beforeInlining_of_not_mem List.not_mem_nil]
  case cut => exact fun edge isUnread => absurd isUnread (unread _)
  case output => exact fun x => (and_iff_left (unread x)).symm
  case nextId => rfl

/-- The order of the nodes does not matter. -/
theorem congr (inlines : Inlines graph result ids texture?) (same : ∀ x, x ∈ others ↔ x ∈ ids) :
    Inlines graph result others texture? := by
  have readOnlyBy : ∀ x, graph.ReadOnlyBy others x ↔ graph.ReadOnlyBy ids x := by
    intro x
    simp only [ReadOnlyBy, same]
  have unread : ∀ x, graph.Unread others texture? x ↔ graph.Unread ids texture? x := by
    intro x
    rw [Unread, Unread, readOnlyBy]
  have before : ∀ edge : Edge, edge.beforeInlining others = edge.beforeInlining ids := by
    intro edge
    simp only [Edge.beforeInlining, same]
  constructor
  case groups => simpa only [same] using inlines.groups
  case gone => simpa only [unread] using inlines.gone
  case rest => simpa only [same, unread] using inlines.rest
  case edges => simpa only [unread, before] using inlines.edges
  case cut => simpa only [unread] using inlines.cut
  case output => simpa only [unread] using inlines.output
  case nextId => exact inlines.nextId

/-- What is left is determined by the nodes and the texture. -/
theorem unique (first : Inlines graph result ids texture?)
    (second : Inlines graph middle ids texture?)
    (present : ∀ x ∈ ids, ∃ node, graph.node? x = some node) : result = middle := by
  apply eq_of_lookups
  · intro x
    by_cases within : x ∈ ids
    · rcases present x within with ⟨node, found⟩
      rw [first.groups x within node found, second.groups x within node found]
    · by_cases unread : graph.Unread ids texture? x
      · rw [first.gone x unread, second.gone x unread]
      · rw [first.rest x within unread, second.rest x within unread]
  · intro edge
    by_cases unread : graph.Unread ids texture? edge.target
    · rw [first.cut edge unread, second.cut edge unread]
    · rw [first.edges edge unread, second.edges edge unread]
  · rw [first.nextId, second.nextId]
  · ext x
    exact (first.output x).trans (second.output x).symm

end Inlines

/-- Height maps that come from one texture are all inlined. -/
theorem inlines_inlineHeights (distinct : ids.Nodup)
    (takes : ∀ id ∈ ids, graph.TakesHeight texture id) :
    ∃ result, inlineHeights ids graph = (result, none) ∧
      Inlines graph result ids (some texture) := by
  induction ids generalizing graph with
  | nil => exact ⟨graph, rfl, Inlines.refl graph texture⟩
  | cons id others induction =>
      rcases List.nodup_cons.mp distinct with ⟨apart, othersDistinct⟩
      have takesHere := takes id List.mem_cons_self
      rcases takesHere.inlineHeight with ⟨middle, done, inlines⟩
      have away : ∀ other ∈ others, other ≠ id := fun other within same => apart (same ▸ within)
      rcases induction othersDistinct fun other within =>
          inlines.takesHeight takesHere.ne (away other within)
            (takes other (List.mem_cons_of_mem id within)) with
        ⟨result, run, inlinesOthers⟩
      refine ⟨result, by simp only [inlineHeights, done, run], ?_⟩
      by_cases readOnly : graph.ReadOnlyBy [id] texture.id
      · -- No other group reads the texture then.
        have noOthers : others = [] := by
          rw [List.eq_nil_iff_forall_not_mem]
          intro other within
          have takesOther := takes other (List.mem_cons_of_mem id within)
          exact takesOther.not_readOnlyBy (away other within) readOnly
        subst noOthers
        simp only [inlineHeights, Prod.mk.injEq, and_true] at run
        exact run ▸ inlines
      · exact inlines.cons inlinesOthers readOnly apart takesHere.ne

/--
Inlining the height map of a parallax group drops its second input and nothing else, and is refused
for groups that something other than a texture feeds first.  Groups that one texture feeds all take
it over, and they can be treated in any order.
-/
theorem inlineHeights_drop_heights (graph : Graph) :
    (∀ group, graph.node? group.id = some group → group.kind = .group .parallax →
      2 ≤ group.inputs.length → graph.InlinesHeight group) ∧
    ∀ texture ids, ids.Nodup → (∀ id ∈ ids, graph.TakesHeight texture id) →
      ∃ result, Inlines graph result ids (some texture) ∧
        ∀ order, order.Perm ids → inlineHeights order graph = (result, none) := by
  constructor
  · intro group found kind several
    exact inlinesHeight_of_parallax found kind several
  · intro texture ids distinct takes
    rcases inlines_inlineHeights distinct takes with ⟨result, -, inlines⟩
    refine ⟨result, inlines, fun order reordered => ?_⟩
    rcases inlines_inlineHeights (reordered.nodup_iff.mpr distinct)
        fun id within => takes id (reordered.mem_iff.mp within) with
      ⟨other, run, otherInlines⟩
    have present : ∀ id ∈ ids, ∃ node, graph.node? id = some node := by
      intro id within
      rcases (takes id within).group with ⟨node, found, -⟩
      exact ⟨node, found⟩
    have same : other = result :=
      (otherInlines.congr fun id => reordered.mem_iff.symm).unique inlines present
    rw [run, same]

/-- A texture with the heights of a wall. -/
def wallHeights : Node where
  kind := .texture .color 1
  name := "Heights"
  outputs := [.titled "Color" true .zero, .titled "Value" true .zero]
  params := [⟨"heights", none⟩]
  data := some (.texture "heights" { name := "wall" })

/-- A parallax group with an input behind its height. -/
def wallParallax : Node where
  kind := .group .parallax
  name := "Parallax"
  inputs := [.titled "UV" true .zero, .titled "Height" true .zero, .titled "Scale" true .zero]
  outputs := [.titled "UV" true .zero]
  params := [⟨"own", none⟩, ⟨"steps", none⟩]

/-- Two groups with one texture, which is the scale of the second one too. -/
def wall : Graph :=
  (((Graph.empty.withNode wallHeights).withNode wallParallax).withNode wallParallax).addEdges
    [⟨0, 1, 0, 1⟩, ⟨0, 1, 1, 1⟩, ⟨0, 2, 1, 1⟩, ⟨0, 2, 0, 2⟩, ⟨0, 2, 0, 2⟩, ⟨1, 2, 0, 0⟩]

/-- Two parallax groups read one texture, which also feeds the second of them elsewhere. -/
theorem inlineHeights_drop_heights_wall :
    [1, 2].Nodup ∧ (∀ id ∈ [1, 2], wall.TakesHeight wallHeights id) ∧
      wall.InlinesHeight { wallParallax with id := 2 } ∧
      ∃ result, Inlines wall result [1, 2] (some wallHeights) ∧
        result.edges = [⟨0, 2, 0, 1⟩, ⟨0, 2, 0, 1⟩, ⟨1, 2, 0, 0⟩] ∧
        ∀ order, order.Perm [1, 2] → inlineHeights order wall = (result, none) := by
  have takes : ∀ id ∈ [1, 2], wall.TakesHeight wallHeights id := by
    intro id within
    have place : id = 1 ∨ id = 2 := by simpa using within
    rcases place with rfl | rfl
    · exact ⟨⟨{ wallParallax with id := 1 }, by decide +kernel⟩, by decide +kernel,
        rfl, by decide +kernel, by decide +kernel⟩
    · exact ⟨⟨{ wallParallax with id := 2 }, by decide +kernel⟩, by decide +kernel,
        rfl, by decide +kernel, by decide +kernel⟩
  have distinct : [1, 2].Nodup := by decide
  rcases (inlineHeights_drop_heights wall).2 wallHeights [1, 2] distinct takes with
    ⟨result, inlines, run⟩
  refine ⟨distinct, takes, ?_, result, inlines, ?_, run⟩
  · apply (inlineHeights_drop_heights wall).1
    · decide +kernel
    · rfl
    · decide
  · have ran : (inlineHeights [1, 2] wall).1 = result := by rw [run [1, 2] (.refl _)]
    rw [← ran]
    decide +kernel

end Graph

end NodeMaterial
