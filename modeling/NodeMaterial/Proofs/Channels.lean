import NodeMaterial.Pass.Channels
import NodeMaterial.Proofs.SharedTextures

/-!
# Handing out channels keeps graphs sound

An accessor that hands out channels takes the place of its splitters.  Each of its
new edges shortens a path through a splitter, so no cycle comes about.  All sockets
exist, unless one splitter of the accessor reads another: then the new edge leads to
a node that has been removed.
-/

namespace NodeMaterial.Graph

open Relation

variable {excused : Kind → Prop} {graph : Graph}

/-! ## Removing several nodes -/

/-- Removing nodes one by one removes them all, and no others. -/
theorem node?_withoutNodes (graph : Graph) (ids : List NodeId) (id : NodeId) :
    (ids.foldl withoutNode graph).node? id = if id ∈ ids then none else graph.node? id := by
  induction ids generalizing graph with
  | nil => rfl
  | cons first others induction =>
      rw [List.foldl_cons, induction]
      by_cases same : id = first
      · simp [same]
      · simp [same, node?_withoutNode_of_ne graph same]

/-- Removing the first of several nodes leaves the others. -/
theorem present_withoutNode {first : NodeId} {others : List NodeId}
    (present : ∀ id ∈ first :: others, graph.contains id = true)
    (distinct : (first :: others).Nodup) :
    ∀ id ∈ others, (graph.withoutNode first).contains id = true := by
  intro id member
  refine contains_withoutNode.mpr ⟨?_, present id (List.mem_cons_of_mem _ member)⟩
  rintro rfl
  exact (List.nodup_cons.mp distinct).1 member

/-- With nodes go the edges that touch them. -/
theorem mem_edges_withoutNodes
    {ids : List NodeId} {edge : Edge}
    (present : ∀ id ∈ ids, graph.contains id = true) (distinct : ids.Nodup) :
    edge ∈ (ids.foldl withoutNode graph).edges ↔
      edge ∈ graph.edges ∧ edge.source ∉ ids ∧ edge.target ∉ ids := by
  induction ids generalizing graph with
  | nil => simp
  | cons first others induction =>
      rw [List.foldl_cons, induction (present_withoutNode present distinct) distinct.of_cons,
        mem_edges_withoutNode (present first List.mem_cons_self)]
      simp only [List.mem_cons, not_or]
      tauto

theorem output_withoutNodes
    {ids : List NodeId} (kept : ∀ id ∈ ids, graph.output ≠ some id) :
    (ids.foldl withoutNode graph).output = graph.output := by
  induction ids generalizing graph with
  | nil => rfl
  | cons id others induction =>
      have unchanged := output_withoutNode_of_ne (kept id List.mem_cons_self)
      rw [List.foldl_cons, induction, unchanged]
      intro other member
      rw [unchanged]
      exact kept other (List.mem_cons_of_mem _ member)

/-- With nodes go all occurrences of the edges that touch them. -/
theorem multiplicity_withoutNodes {ids : List NodeId}
    (present : ∀ id ∈ ids, graph.contains id = true) (distinct : ids.Nodup) (edge : Edge) :
    (ids.foldl withoutNode graph).multiplicity edge =
      if edge.source ∈ ids ∨ edge.target ∈ ids then 0 else graph.multiplicity edge := by
  induction ids generalizing graph with
  | nil => simp
  | cons first others induction =>
      rw [List.foldl_cons, induction (present_withoutNode present distinct) distinct.of_cons,
        multiplicity_withoutNode (present first List.mem_cons_self)]
      simp only [Edge.touches, Bool.or_eq_true, beq_iff_eq, List.mem_cons]
      grind

/-- The output stays unless it is among the nodes that are removed. -/
theorem output_withoutNodes_eq_some_iff {ids : List NodeId} {id : NodeId}
    (present : ∀ id ∈ ids, graph.contains id = true) (distinct : ids.Nodup) :
    (ids.foldl withoutNode graph).output = some id ↔ graph.output = some id ∧ id ∉ ids := by
  induction ids generalizing graph with
  | nil => simp
  | cons first others induction =>
      rw [List.foldl_cons, induction (present_withoutNode present distinct) distinct.of_cons,
        output_withoutNode, present first List.mem_cons_self, List.mem_cons]
      grind

theorem nextId_withoutNodes (graph : Graph) (ids : List NodeId) :
    (ids.foldl withoutNode graph).nextId = graph.nextId := by
  induction ids generalizing graph with
  | nil => rfl
  | cons first others induction => rw [List.foldl_cons, induction, nextId_withoutNode]

/-! ## What an accessor hands out -/

/-- An accessor is read by splitters alone, and channels are read from these. -/
structure Splits (graph : Graph) (accessor : Node) (splitters : List NodeId) : Prop where
  found : graph.node? accessor.id = some accessor
  kind : accessor.kind = .geometry .vertexColor
  distinct : splitters.Nodup
  readers : ∀ id, id ∈ splitters ↔
    ∃ edge ∈ graph.edges, edge.source = accessor.id ∧ edge.target = id
  splitter : ∀ id ∈ splitters, ∃ node, graph.node? id = some node ∧ node.kind = .separateRgb
  read : graph.channelReads splitters ≠ []

/-- The channels that an accessor will hand out. -/
def exposed (graph : Graph) (splitters : List NodeId) : List Nat :=
  channelsRead (graph.channelReads splitters)

/-- A channel is read at one of the first three outputs of a splitter. -/
theorem mem_channelReads {splitters : List NodeId} {edge : Edge} :
    edge ∈ graph.channelReads splitters ↔
      edge ∈ graph.edges ∧ edge.source ∈ splitters ∧ edge.outSocket < 3 := by
  simp only [channelReads, List.mem_filter, List.mem_flatMap, mem_outEdges,
    decide_eq_true_eq]
  constructor
  · rintro ⟨⟨id, member, edgeMember, rfl⟩, inRange⟩
    exact ⟨edgeMember, member, inRange⟩
  · rintro ⟨edgeMember, member, inRange⟩
    exact ⟨⟨edge.source, member, edgeMember, rfl⟩, inRange⟩

theorem mem_exposed {splitters : List NodeId} {channel : Nat} :
    channel ∈ graph.exposed splitters ↔
      channel < 3 ∧ ∃ read ∈ graph.channelReads splitters, read.outSocket = channel := by
  simp [exposed, channelsRead, channelNames]

theorem outSocket_mem_exposed {splitters : List NodeId} {read : Edge}
    (member : read ∈ graph.channelReads splitters) :
    read.outSocket ∈ graph.exposed splitters :=
  mem_exposed.mpr ⟨(mem_channelReads.mp member).2.2, read, member, rfl⟩

section Exposing

variable {accessor : Node} {splitters : List NodeId}

theorem Splits.present
    (splits : graph.Splits accessor splitters) (id : NodeId) (member : id ∈ splitters) :
    graph.contains id = true := by
  rcases splits.splitter id member with ⟨node, found, -⟩
  exact contains_of_node? found

/-- A splitter is none of the nodes of another kind. -/
theorem Splits.not_mem_of_kind
    (splits : graph.Splits accessor splitters) {node : Node} {id : NodeId}
    (found : graph.node? id = some node) (kind : node.kind ≠ .separateRgb) :
    id ∉ splitters := by
  intro member
  rcases splits.splitter id member with ⟨splitter, splitterFound, splitterKind⟩
  rw [found, Option.some.injEq] at splitterFound
  exact kind (splitterFound ▸ splitterKind)

theorem Splits.accessor_not_mem (splits : graph.Splits accessor splitters) :
    accessor.id ∉ splitters := by
  apply splits.not_mem_of_kind splits.found
  rw [splits.kind]
  exact Kind.noConfusion

/-- The accessor takes the exposed channels as its outputs. -/
theorem node?_expose_accessor (splits : graph.Splits accessor splitters) :
    (graph.expose accessor.id splitters).node? accessor.id =
      some (withChannels (graph.exposed splitters) accessor) := by
  have remains : (((splitters.foldl withoutNode graph).addEdges
      ((graph.channelReads splitters).map
        (readDirectly accessor.id (graph.exposed splitters))))).node? accessor.id =
      some accessor := by
    rw [node?_addEdges, node?_withoutNodes, if_neg splits.accessor_not_mem, splits.found]
  exact node?_modifyNode_self _ remains

theorem node?_expose_of_ne {id : NodeId} (different : id ≠ accessor.id) :
    (graph.expose accessor.id splitters).node? id =
      if id ∈ splitters then none else graph.node? id := by
  rw [expose, node?_modifyNode_of_ne _ _ different, node?_addEdges, node?_withoutNodes]

theorem contains_expose {id : NodeId} :
    (graph.expose accessor.id splitters).contains id = true ↔
      id ∉ splitters ∧ graph.contains id = true := by
  rw [expose, contains_modifyNode, contains_addEdges, contains_iff, contains_iff,
    node?_withoutNodes]
  split <;> simp [*]

/-- Every edge is an old one that touches no splitter, or reads a channel directly. -/
theorem mem_edges_expose
    (splits : graph.Splits accessor splitters) {edge : Edge} :
    edge ∈ (graph.expose accessor.id splitters).edges ↔
      (edge ∈ graph.edges ∧ edge.source ∉ splitters ∧ edge.target ∉ splitters) ∨
        ∃ read ∈ graph.channelReads splitters,
          readDirectly accessor.id (graph.exposed splitters) read = edge := by
  rw [expose, edges_modifyNode, mem_edges_addEdges,
    mem_edges_withoutNodes splits.present splits.distinct, List.mem_map]
  rfl

theorem output_expose (graph : Graph) (accessor : NodeId) (splitters : List NodeId) :
    (graph.expose accessor splitters).output = (splitters.foldl withoutNode graph).output :=
  output_addEdges ..

/-- An output that is no splitter stays the output. -/
theorem output_expose_of_not_mem
    {accessor output : NodeId} {splitters : List NodeId}
    (isOutput : graph.output = some output) (kept : output ∉ splitters) :
    (graph.expose accessor splitters).output = some output := by
  rw [output_expose, output_withoutNodes, isOutput]
  intro id member removed
  rw [isOutput, Option.some.injEq] at removed
  exact kept (removed ▸ member)

/-! ## Exposing channels keeps a graph sound -/

theorem Splits.handsOn
    (splits : graph.Splits accessor splitters) : accessor.kind.handsOn = true := by
  rw [splits.kind]
  rfl

/-- An edge that touches no splitter does not leave the accessor either. -/
theorem Splits.source_ne_accessor
    (splits : graph.Splits accessor splitters) {edge : Edge}
    (member : edge ∈ graph.edges) (away : edge.target ∉ splitters) :
    edge.source ≠ accessor.id :=
  fun source => away ((splits.readers edge.target).mpr ⟨edge, member, source, rfl⟩)

theorem Lands.expose
    {edge : Edge} (lands : graph.Lands edge) (splits : graph.Splits accessor splitters)
    (away : edge.target ∉ splitters) :
    (graph.expose accessor.id splitters).Lands edge := by
  rcases lands with ⟨node, found, inRange⟩
  by_cases atAccessor : edge.target = accessor.id
  · have same : node = accessor := by
      rw [atAccessor, splits.found, Option.some.injEq] at found
      exact found.symm
    refine ⟨withChannels (graph.exposed splitters) accessor, ?_, same ▸ inRange⟩
    rw [atAccessor, node?_expose_accessor splits]
  · refine ⟨node, ?_, inRange⟩
    rw [node?_expose_of_ne atAccessor, if_neg away, found]

/-- No edge ends at a vertex colour, which has no inputs. -/
theorem Unfed.target_ne_accessor
    (unfed : graph.Unfed) (splits : graph.Splits accessor splitters) {edge : Edge}
    (member : edge ∈ graph.edges) :
    edge.target ≠ accessor.id := by
  intro target
  refine unfed.target_not_geometry member (target ▸ splits.found) ?_
  simp [isGeometry, splits.kind]

/-- Edges may miss only where one splitter of the accessor reads another. -/
theorem Sound.expose
    (sound : graph.Sound excused) (splits : graph.Splits accessor splitters)
    (strict : ∀ kind : Kind, kind.handsOn = true → ¬ excused kind)
    (chained : ∀ read ∈ graph.edges, read.source ∈ splitters → read.target ∈ splitters →
      ∀ count, excused (.vertexChannels count)) :
    (graph.expose accessor.id splitters).Sound excused := by
  have accessorStrict : ¬ excused accessor.kind := strict _ splits.handsOn
  have exposed := node?_expose_accessor splits
  constructor
  · intro edge member
    rcases (mem_edges_expose splits).mp member with
      ⟨old, sourceAway, targetAway⟩ | ⟨read, readMember, rfl⟩
    · rcases sound.starts edge old with ⟨node, found, inRange⟩
      refine ⟨node, ?_, inRange⟩
      rw [node?_expose_of_ne (splits.source_ne_accessor old targetAway),
        if_neg sourceAway, found]
    · refine ⟨_, exposed, ?_⟩
      have handedOut := outSocket_mem_exposed readMember
      simpa [readDirectly, withChannels] using List.idxOf_lt_length_of_mem handedOut
  · intro edge member
    rcases (mem_edges_expose splits).mp member with
      ⟨old, sourceAway, targetAway⟩ | ⟨read, readMember, rfl⟩
    · rcases sound.lands edge old with ⟨node, found, nodeExcused⟩ | lands
      · refine Or.inl ⟨node, ?_, nodeExcused⟩
        rw [node?_expose_of_ne (splits.source_ne_accessor old targetAway),
          if_neg sourceAway, found]
      · exact Or.inr (lands.expose splits targetAway)
    · rcases mem_channelReads.mp readMember with ⟨readEdge, fromSplitter, -⟩
      by_cases chain : read.target ∈ splitters
      · exact Or.inl ⟨_, exposed, chained read readEdge fromSplitter chain _⟩
      · rcases splits.splitter read.source fromSplitter with ⟨splitter, found, kind⟩
        have splitterStrict : ¬ excused splitter.kind := strict _ (by rw [kind]; rfl)
        have lands := sound.lands_of_source readEdge found splitterStrict
        exact Or.inr (lands.expose splits chain)
  · intro id node found
    by_cases atAccessor : id = accessor.id
    · rw [atAccessor, exposed, Option.some.injEq] at found
      subst found
      constructor
      · intro geometry
        simp [isGeometry, withChannels] at geometry
      · intro texture
        simp [Kind.isTexture, withChannels] at texture
    · rw [node?_expose_of_ne atAccessor] at found
      split at found
      · simp at found
      · exact sound.shaped id node found

/-- An edge that reads a channel directly shortens a path through a splitter. -/
theorem Acyclic.expose
    (acyclic : graph.Acyclic) (splits : graph.Splits accessor splitters) :
    (graph.expose accessor.id splitters).Acyclic := by
  apply acyclic.of_shortcuts
  rintro first second ⟨firstPresent, secondPresent, edge, member, rfl, rfl⟩
  have firstOld := (contains_expose.mp firstPresent).2
  have secondOld := (contains_expose.mp secondPresent).2
  rcases (mem_edges_expose splits).mp member with ⟨old, -, -⟩ | ⟨read, readMember, rfl⟩
  · exact .single ⟨firstOld, secondOld, edge, old, rfl, rfl⟩
  · rcases mem_channelReads.mp readMember with ⟨readEdge, fromSplitter, -⟩
    have splitterPresent := splits.present read.source fromSplitter
    rcases (splits.readers read.source).mp fromSplitter with ⟨feed, feedMember, source, target⟩
    have into : graph.Step accessor.id read.source :=
      ⟨firstOld, splitterPresent, feed, feedMember, source, target⟩
    have onward : graph.Step read.source read.target :=
      ⟨splitterPresent, secondOld, read, readEdge, rfl, rfl⟩
    exact .tail (.single into) onward

end Exposing

/-! ## The whole pass -/

theorem mem_consumers {id consumer : NodeId} :
    consumer ∈ graph.consumers id ↔
      ∃ edge ∈ graph.edges, edge.source = id ∧ edge.target = consumer := by
  simp [consumers, and_assoc]

theorem nodup_consumers (graph : Graph) (id : NodeId) : (graph.consumers id).Nodup :=
  (NodeSet.ascending_ofList _).imp Nat.ne_of_lt

/-- An accessor is collapsed only if it splits, and then its channels are exposed. -/
theorem collapse?_eq_some
    {accessor : Node} {collapsed : Graph}
    (found : graph.node? accessor.id = some accessor)
    (kind : accessor.kind = .geometry .vertexColor)
    (result : graph.collapse? accessor.id = some collapsed) :
    ∃ splitters,
      graph.Splits accessor splitters ∧ collapsed = graph.expose accessor.id splitters := by
  simp only [collapse?, splitters?] at result
  by_cases readByOthers : ((graph.consumers accessor.id).isEmpty ||
      !(graph.consumers accessor.id).all graph.isSplitter) = true
  · simp [readByOthers] at result
  · simp only [readByOthers, Bool.false_eq_true, if_false] at result
    split at result
    · simp at result
    · rename_i read
      refine ⟨graph.consumers accessor.id, ?_, (Option.some.inj result).symm⟩
      simp only [Bool.or_eq_true, not_or, Bool.not_eq_true', Bool.not_eq_false,
        List.all_eq_true] at readByOthers
      exact
        { found
          kind
          distinct := graph.nodup_consumers accessor.id
          readers := fun id => mem_consumers
          splitter := by
            intro id member
            have splitter := readByOthers.2 id member
            simpa [isSplitter, Option.any_eq_true] using splitter
          read := by simpa using read }

/-- An accessor whose consumers all split it is collapsed. -/
theorem exists_collapse? {accessor : Node} {splitters : List NodeId}
    (splits : graph.Splits accessor splitters) :
    ∃ collapsed, graph.collapse? accessor.id = some collapsed := by
  have same : ∀ id, id ∈ graph.consumers accessor.id ↔ id ∈ splitters :=
    fun id => mem_consumers.trans (splits.readers id).symm
  have allSplit : (graph.consumers accessor.id).all graph.isSplitter = true := by
    rw [List.all_eq_true]
    intro id member
    simpa [isSplitter, Option.any_eq_true] using splits.splitter id ((same id).mp member)
  rcases List.exists_mem_of_ne_nil _ splits.read with ⟨read, member⟩
  rcases mem_channelReads.mp member with ⟨readEdge, fromSplitter, inRange⟩
  have isConsumer := (same read.source).mpr fromSplitter
  have someConsumer : graph.consumers accessor.id ≠ [] := List.ne_nil_of_mem isConsumer
  have someRead : graph.channelReads (graph.consumers accessor.id) ≠ [] :=
    List.ne_nil_of_mem (mem_channelReads.mpr ⟨readEdge, isConsumer, inRange⟩)
  simp [collapse?, splitters?, allSplit, someConsumer, someRead]

/--
What one accessor after the other keeps: those that do not split are passed over, and the
others hand out their channels.
-/
theorem collapseAll_induction {accessors : List Node} (Kept : List Node → Graph → Nat → Prop)
    (skips : ∀ seen (current : Graph) count accessor, seen ++ [accessor] <+: accessors →
      current.node? accessor.id = some accessor →
      (∀ splitters, ¬ current.Splits accessor splitters) →
      Kept seen current count → Kept (seen ++ [accessor]) current count)
    (exposes : ∀ seen (current : Graph) count accessor splitters,
      seen ++ [accessor] <+: accessors → current.Splits accessor splitters →
      Kept seen current count →
      Kept (seen ++ [accessor]) (current.expose accessor.id splitters) (count + 1))
    {seen others : List Node} {current : Graph} {count : Nat} (split : seen ++ others = accessors)
    (present : ∀ accessor ∈ others, current.node? accessor.id = some accessor)
    (kinds : ∀ accessor ∈ others, accessor.kind = .geometry .vertexColor)
    (distinct : (others.map (·.id)).Nodup)
    (start : Kept seen current count) :
    Kept accessors (collapseAll (others.map (·.id)) current).1
      (count + (collapseAll (others.map (·.id)) current).2) := by
  induction others generalizing seen current count with
  | nil =>
      rw [← split, List.append_nil]
      exact start
  | cons accessor others induction =>
      rcases List.nodup_cons.mp distinct with ⟨apart, distinctOthers⟩
      have next : (seen ++ [accessor]) ++ others = accessors := by simpa using split
      have found := present accessor List.mem_cons_self
      have kind := kinds accessor List.mem_cons_self
      have othersPresent : ∀ other ∈ others, current.node? other.id = some other :=
        fun other member => present other (List.mem_cons_of_mem _ member)
      have otherKinds : ∀ other ∈ others, other.kind = .geometry .vertexColor :=
        fun other member => kinds other (List.mem_cons_of_mem _ member)
      rw [List.map_cons, collapseAll]
      split
      · rename_i stays
        have noSplitters : ∀ splitters, ¬ current.Splits accessor splitters := by
          intro splitters splits
          rcases exists_collapse? splits with ⟨collapsed, result⟩
          rw [stays] at result
          cases result
        exact induction next othersPresent otherKinds distinctOthers
          (skips seen current count accessor ⟨others, next⟩ found noSplitters start)
      · rename_i collapsed result
        rcases collapse?_eq_some found kind result with ⟨splitters, splits, rfl⟩
        simp only
        rw [Nat.add_comm _ 1, ← Nat.add_assoc]
        refine induction next ?_ otherKinds distinctOthers
          (exposes seen current count accessor splitters ⟨others, next⟩ splits start)
        intro other member
        have different : other.id ≠ accessor.id := by
          intro equal
          exact apart (List.mem_map.mpr ⟨other, member, equal⟩)
        have otherFound := othersPresent other member
        have notSplitter : other.id ∉ splitters := by
          apply splits.not_mem_of_kind otherFound
          rw [otherKinds other member]
          exact Kind.noConfusion
        rw [node?_expose_of_ne different, if_neg notSplitter, otherFound]

/-- The accessors for vertex colours, in order. -/
def colorAccessors (graph : Graph) : List Node :=
  graph.nodes.filter (·.kind == .geometry .vertexColor)

theorem optimizeChannels_run (Kept : List Node → Graph → Nat → Prop)
    (start : Kept [] graph 0)
    (skips : ∀ seen (current : Graph) count accessor,
      seen ++ [accessor] <+: graph.colorAccessors → current.node? accessor.id = some accessor →
      (∀ splitters, ¬ current.Splits accessor splitters) →
      Kept seen current count → Kept (seen ++ [accessor]) current count)
    (exposes : ∀ seen (current : Graph) count accessor splitters,
      seen ++ [accessor] <+: graph.colorAccessors → current.Splits accessor splitters →
      Kept seen current count →
      Kept (seen ++ [accessor]) (current.expose accessor.id splitters) (count + 1)) :
    Kept graph.colorAccessors graph.optimizeChannels.1 graph.optimizeChannels.2 := by
  have run : Kept graph.colorAccessors graph.optimizeChannels.1 (0 + graph.optimizeChannels.2) := by
    apply collapseAll_induction Kept skips exposes (List.nil_append _)
    · intro accessor member
      exact node?_of_mem (List.mem_filter.mp member).1
    · intro accessor member
      simpa using (List.mem_filter.mp member).2
    · exact graph.nodup_nodeIds.sublist (List.filter_sublist.map _)
    · exact start
  rwa [Nat.zero_add] at run

/-- What every exposure keeps, the whole pass keeps. -/
theorem optimizeChannels_induction (Kept : Graph → Prop)
    (step : ∀ (current : Graph) (accessor : Node) (splitters : List NodeId),
      current.Splits accessor splitters → Kept current →
      Kept (current.expose accessor.id splitters))
    (start : Kept graph) :
    Kept graph.optimizeChannels.1 := by
  apply optimizeChannels_run fun _ current _ => Kept current
  · exact start
  · intro seen current count accessor _ _ _ kept
    exact kept
  · intro seen current count accessor splitters _ splits kept
    exact step current accessor splitters splits kept

/-! ## Splitters that read each other -/

/-- A node of the graph has a kind. -/
def HasKind (graph : Graph) (id : NodeId) (kind : Kind) : Prop :=
  ∃ node ∈ graph.node? id, node.kind = kind

instance (graph : Graph) (id : NodeId) (kind : Kind) : Decidable (graph.HasKind id kind) :=
  inferInstanceAs (Decidable (∃ node ∈ graph.node? id, node.kind = kind))

/-- No splitter of a vertex colour feeds another node that reads the same accessor. -/
def SplittersApart (graph : Graph) : Prop :=
  ∀ feed ∈ graph.edges, ∀ otherFeed ∈ graph.edges, ∀ link ∈ graph.edges,
    graph.HasKind feed.source (.geometry .vertexColor) →
    graph.HasKind feed.target .separateRgb →
    otherFeed.source = feed.source → link.source = feed.target →
    link.target = otherFeed.target → link.target = feed.target

instance (graph : Graph) : Decidable graph.SplittersApart :=
  inferInstanceAs (Decidable (∀ feed ∈ graph.edges, ∀ otherFeed ∈ graph.edges,
    ∀ link ∈ graph.edges,
      graph.HasKind feed.source (.geometry .vertexColor) →
      graph.HasKind feed.target .separateRgb →
      otherFeed.source = feed.source → link.source = feed.target →
      link.target = otherFeed.target → link.target = feed.target))

/-- All edges into one splitter leave one node. -/
def SplittersReadOne (graph : Graph) : Prop :=
  ∀ first ∈ graph.edges, ∀ second ∈ graph.edges,
    graph.HasKind first.target .separateRgb →
    second.target = first.target → second.source = first.source

instance (graph : Graph) : Decidable graph.SplittersReadOne :=
  inferInstanceAs (Decidable (∀ first ∈ graph.edges, ∀ second ∈ graph.edges,
    graph.HasKind first.target .separateRgb →
    second.target = first.target → second.source = first.source))

section Apart

variable {accessor : Node} {splitters : List NodeId}

/-- Splitters of one accessor do not read each other if none reads another. -/
theorem SplittersApart.not_chained
    (splittersApart : graph.SplittersApart) (acyclic : graph.Acyclic)
    (splits : graph.Splits accessor splitters) {read : Edge}
    (member : read ∈ graph.edges) (source : read.source ∈ splitters) :
    read.target ∉ splitters := by
  intro target
  have sourcePresent := splits.present read.source source
  rcases (splits.readers read.source).mp source with ⟨feed, feedMember, feedSource, feedTarget⟩
  rcases (splits.readers read.target).mp target with
    ⟨otherFeed, otherMember, otherSource, otherTarget⟩
  have loop : read.target = feed.target := by
    apply splittersApart feed feedMember otherFeed otherMember read member
    · rw [feedSource]
      exact ⟨accessor, splits.found, splits.kind⟩
    · rw [feedTarget]
      exact splits.splitter read.source source
    · rw [otherSource, feedSource]
    · exact feedTarget.symm
    · exact otherTarget.symm
  exact acyclic.source_ne_target member sourcePresent (loop.trans feedTarget).symm

/-- All edges into the splitters of an accessor come from it. -/
theorem SplittersReadOne.source_eq_accessor
    (readOne : graph.SplittersReadOne) (splits : graph.Splits accessor splitters)
    {edge : Edge} (member : edge ∈ graph.edges) (target : edge.target ∈ splitters) :
    edge.source = accessor.id := by
  rcases (splits.readers edge.target).mp target with ⟨feed, feedMember, source, feedTarget⟩
  rw [← source]
  apply readOne feed feedMember edge member
  · rw [feedTarget]
    exact splits.splitter edge.target target
  · exact feedTarget.symm

theorem SplittersReadOne.not_chained
    (readOne : graph.SplittersReadOne) (splits : graph.Splits accessor splitters)
    {read : Edge} (member : read ∈ graph.edges) (source : read.source ∈ splitters) :
    read.target ∉ splitters := by
  intro target
  have isAccessor := readOne.source_eq_accessor splits member target
  exact splits.accessor_not_mem (isAccessor ▸ source)

/-- Only the accessor has another kind than before. -/
theorem HasKind.of_expose
    (splits : graph.Splits accessor splitters) {id : NodeId} {kind : Kind}
    (has : (graph.expose accessor.id splitters).HasKind id kind)
    (noChannels : ∀ count, kind ≠ .vertexChannels count) :
    id ≠ accessor.id ∧ graph.HasKind id kind := by
  rcases has with ⟨node, found, rfl⟩
  rw [Option.mem_def] at found
  by_cases atAccessor : id = accessor.id
  · rw [atAccessor, node?_expose_accessor splits, Option.some.injEq] at found
    exact absurd (found ▸ rfl) (noChannels (graph.exposed splitters).length)
  · refine ⟨atAccessor, node, ?_, rfl⟩
    rw [node?_expose_of_ne atAccessor] at found
    split at found
    · simp at found
    · exact found

/-- Exposing channels makes no edges but those that leave the accessor. -/
theorem mem_edges_of_mem_edges_expose
    (splits : graph.Splits accessor splitters) {edge : Edge}
    (member : edge ∈ (graph.expose accessor.id splitters).edges)
    (different : edge.source ≠ accessor.id) :
    edge ∈ graph.edges := by
  rcases (mem_edges_expose splits).mp member with ⟨old, -, -⟩ | ⟨read, -, rfl⟩
  · exact old
  · exact absurd rfl different

theorem SplittersApart.expose
    (splittersApart : graph.SplittersApart) (splits : graph.Splits accessor splitters) :
    (graph.expose accessor.id splitters).SplittersApart := by
  intro feed feedMember otherFeed otherMember link linkMember sourceKind targetKind
    sameSource onward sameTarget
  rcases sourceKind.of_expose splits (fun _ => Kind.noConfusion) with
    ⟨notAccessor, oldSourceKind⟩
  rcases targetKind.of_expose splits (fun _ => Kind.noConfusion) with
    ⟨splitterNotAccessor, oldTargetKind⟩
  apply splittersApart feed (mem_edges_of_mem_edges_expose splits feedMember notAccessor)
    otherFeed ?_ link ?_ oldSourceKind oldTargetKind sameSource onward sameTarget
  · exact mem_edges_of_mem_edges_expose splits otherMember (sameSource ▸ notAccessor)
  · exact mem_edges_of_mem_edges_expose splits linkMember (onward ▸ splitterNotAccessor)

end Apart

/-- The pass keeps a graph sound if splitters are apart, or if collapsed accessors are excused. -/
theorem Sound.optimizeChannels
    (strict : ∀ kind : Kind, kind.handsOn = true → ¬ excused kind)
    (sound : graph.Sound excused) (acyclic : graph.Acyclic)
    (fits : (∀ count, excused (.vertexChannels count)) ∨ graph.SplittersApart) :
    graph.optimizeChannels.1.Sound excused ∧ graph.optimizeChannels.1.Acyclic := by
  have kept : (graph.optimizeChannels.1.Sound excused ∧ graph.optimizeChannels.1.Acyclic) ∧
      ((∀ count, excused (.vertexChannels count)) ∨
        graph.optimizeChannels.1.SplittersApart) := by
    apply optimizeChannels_induction fun current =>
      (current.Sound excused ∧ current.Acyclic) ∧
        ((∀ count, excused (.vertexChannels count)) ∨ current.SplittersApart)
    · rintro current accessor splitters splits ⟨⟨sound, acyclic⟩, fits⟩
      refine ⟨⟨?_, acyclic.expose splits⟩, ?_⟩
      · apply sound.expose splits strict
        intro read member source target
        rcases fits with excusesChannels | splittersApart
        · exact excusesChannels
        · exact absurd target (splittersApart.not_chained acyclic splits member source)
      · exact fits.imp_right fun splittersApart => splittersApart.expose splits
    · exact ⟨⟨sound, acyclic⟩, fits⟩
  exact kept.1

end NodeMaterial.Graph
