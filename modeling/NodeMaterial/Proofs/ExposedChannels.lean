import Mathlib.Algebra.BigOperators.Group.List.Basic
import Mathlib.Algebra.GroupWithZero.Nat
import NodeMaterial.Proofs.Channels

/-!
# Which channels are handed out, and to whom

A vertex-colour accessor hands out its channels if splitters alone read it and a channel
of one of them is read.  The outputs are the channels that are read, in order, and an
output has every edge that left its channel at one of the splitters, as often as it
occurred there.  Everything that touches no such splitter stays as it was.

Collapses run one after the other, so that each of them meets a graph that the ones
before it have changed.  They do not disturb each other if a splitter of an accessor has
no other edges into it: neither the edges that leave the next accessor nor those that
leave its splitters have changed.
-/

namespace NodeMaterial.Graph

variable {graph middle result : Graph} {opened : NodeId → Prop} {id : NodeId} {accessor : Node}
  {splitters : List NodeId} {kind : Kind} {edge : Edge}

/-! ## What is handed out -/

/-- An edge reads a channel from a node that reads an accessor. -/
def ChannelRead (graph : Graph) (id : NodeId) (channel : Nat) : Prop :=
  ∃ feed ∈ graph.edges, feed.source = id ∧
    ∃ read ∈ graph.edges, read.source = feed.target ∧ read.outSocket = channel

instance (graph : Graph) (id : NodeId) (channel : Nat) :
    Decidable (graph.ChannelRead id channel) :=
  inferInstanceAs (Decidable (∃ feed ∈ graph.edges, feed.source = id ∧
    ∃ read ∈ graph.edges, read.source = feed.target ∧ read.outSocket = channel))

/-- The channels that are read through an accessor, in order. -/
def channels (graph : Graph) (id : NodeId) : List Nat :=
  (List.range 3).filter fun channel => decide (graph.ChannelRead id channel)

/-- Every node that reads an accessor splits colours. -/
def SplitOnly (graph : Graph) (id : NodeId) : Prop :=
  ∀ feed ∈ graph.edges, feed.source = id → graph.HasKind feed.target .separateRgb

instance (graph : Graph) (id : NodeId) : Decidable (graph.SplitOnly id) :=
  inferInstanceAs (Decidable (∀ feed ∈ graph.edges, feed.source = id →
    graph.HasKind feed.target .separateRgb))

/-- A vertex colour is read by splitters alone, and channels are read from these. -/
def HandsOut (graph : Graph) (id : NodeId) : Prop :=
  graph.HasKind id (.geometry .vertexColor) ∧ graph.SplitOnly id ∧
    ∃ channel < 3, graph.ChannelRead id channel

instance (graph : Graph) (id : NodeId) : Decidable (graph.HandsOut id) :=
  inferInstanceAs (Decidable (graph.HasKind id (.geometry .vertexColor) ∧ graph.SplitOnly id ∧
    ∃ channel < 3, graph.ChannelRead id channel))

/-- A splitter that reads a vertex colour has no other edges into it. -/
def SplittersOwned (graph : Graph) : Prop :=
  ∀ feed ∈ graph.edges, ∀ other ∈ graph.edges,
    graph.HasKind feed.source (.geometry .vertexColor) →
    graph.HasKind feed.target .separateRgb →
    other.target = feed.target → other.source = feed.source

instance (graph : Graph) : Decidable graph.SplittersOwned :=
  inferInstanceAs (Decidable (∀ feed ∈ graph.edges, ∀ other ∈ graph.edges,
    graph.HasKind feed.source (.geometry .vertexColor) →
    graph.HasKind feed.target .separateRgb →
    other.target = feed.target → other.source = feed.source))

/-- A node reads an accessor that hands out its channels. -/
def Absorbed (graph : Graph) (opened : NodeId → Prop) (id : NodeId) : Prop :=
  ∃ feed ∈ graph.edges, opened feed.source ∧ feed.target = id

/-- How often an output of an accessor is read, counted at its splitters. -/
def timesRead (graph : Graph) (edge : Edge) : Nat :=
  match (graph.channels edge.source)[edge.outSocket]? with
  | none => 0
  | some channel =>
      ((graph.consumers edge.source).map fun splitter =>
        graph.multiplicity { edge with source := splitter, outSocket := channel }).sum

/-- A graph becomes another as some accessors hand out their channels. -/
structure Exposes (graph result : Graph) (opened : NodeId → Prop) : Prop where
  gone : ∀ id, graph.Absorbed opened id → result.node? id = none
  accessors : ∀ id, opened id → ∀ node, graph.node? id = some node →
    result.node? id = some
      { node with
        kind := .vertexChannels (graph.channels id).length
        outputs := ((graph.channels id).filterMap (["R", "G", "B"][·]?)).map fun title =>
          .titled title true .zero }
  others : ∀ id, ¬ opened id → ¬ graph.Absorbed opened id → result.node? id = graph.node? id
  reads : ∀ edge, opened edge.source → result.multiplicity edge = graph.timesRead edge
  edges : ∀ edge, ¬ opened edge.source → ¬ graph.Absorbed opened edge.source →
    ¬ graph.Absorbed opened edge.target → result.multiplicity edge = graph.multiplicity edge
  cut : ∀ edge, graph.Absorbed opened edge.source ∨ graph.Absorbed opened edge.target →
    result.multiplicity edge = 0
  output : ∀ id, result.output = some id ↔ graph.output = some id ∧ ¬ graph.Absorbed opened id
  nextId : result.nextId = graph.nextId

/-- A node has one kind. -/
theorem HasKind.unique {other : Kind} (has : graph.HasKind id kind)
    (hasOther : graph.HasKind id other) : kind = other := by
  rcases has with ⟨node, found, rfl⟩
  rcases hasOther with ⟨node', found', rfl⟩
  cases Option.mem_unique found found'
  rfl

theorem HasKind.not_separateRgb (color : graph.HasKind id (.geometry .vertexColor)) :
    ¬ graph.HasKind id .separateRgb :=
  fun splitter => Kind.noConfusion (color.unique splitter)

/-! ## One accessor -/

theorem mem_consumers_iff_absorbed {reader : NodeId} :
    reader ∈ graph.consumers id ↔ graph.Absorbed (· = id) reader :=
  mem_consumers

theorem Splits.perm_consumers (splits : graph.Splits accessor splitters) :
    splitters.Perm (graph.consumers accessor.id) := by
  rw [List.perm_ext_iff_of_nodup splits.distinct (graph.nodup_consumers accessor.id)]
  exact fun id => (splits.readers id).trans mem_consumers.symm

theorem Splits.mem_iff (splits : graph.Splits accessor splitters) :
    id ∈ splitters ↔ graph.Absorbed (· = accessor.id) id :=
  splits.perm_consumers.mem_iff.trans mem_consumers_iff_absorbed

/-- An accessor that is split hands its channels out. -/
theorem Splits.handsOut (splits : graph.Splits accessor splitters) :
    graph.HandsOut accessor.id := by
  refine ⟨⟨accessor, splits.found, splits.kind⟩, ?_, ?_⟩
  · intro feed member source
    exact splits.splitter feed.target (splits.mem_iff.mpr ⟨feed, member, source, rfl⟩)
  · rcases List.exists_mem_of_ne_nil _ splits.read with ⟨read, member⟩
    rcases mem_channelReads.mp member with ⟨readEdge, fromSplitter, inRange⟩
    rcases splits.mem_iff.mp fromSplitter with ⟨feed, feedMember, source, target⟩
    exact ⟨read.outSocket, inRange, feed, feedMember, source, read, readEdge, target.symm, rfl⟩

/-- An accessor that hands out its channels is one that the pass collapses. -/
theorem HandsOut.splits (handsOut : graph.HandsOut accessor.id)
    (found : graph.node? accessor.id = some accessor) :
    graph.Splits accessor (graph.consumers accessor.id) := by
  rcases handsOut with ⟨color, splitOnly, channel, inRange, feed, feedMember, source, read,
    readMember, fromTarget, rfl⟩
  constructor
  case found => exact found
  case kind =>
    rcases color with ⟨node, nodeFound, isColor⟩
    cases Option.mem_unique found nodeFound
    exact isColor
  case distinct => exact graph.nodup_consumers accessor.id
  case readers => exact fun id => mem_consumers
  case splitter =>
    intro id member
    rcases mem_consumers.mp member with ⟨into, intoMember, intoSource, rfl⟩
    exact splitOnly into intoMember intoSource
  case read =>
    refine List.ne_nil_of_mem (mem_channelReads.mpr ⟨readMember, mem_consumers.mpr ?_, inRange⟩)
    rw [fromTarget]
    exact ⟨feed, feedMember, source, rfl⟩

/-- The channels that splitters expose are those that are read of the accessor. -/
theorem Splits.exposed_eq (splits : graph.Splits accessor splitters) :
    graph.exposed splitters = graph.channels accessor.id := by
  rw [exposed, channelsRead, channels]
  refine List.filter_congr fun channel inRange => ?_
  have below : channel < 3 := List.mem_range.mp inRange
  rw [Bool.eq_iff_iff, List.any_eq_true, decide_eq_true_eq]
  constructor
  · rintro ⟨read, member, isChannel⟩
    rcases mem_channelReads.mp member with ⟨readEdge, fromSplitter, -⟩
    rcases splits.mem_iff.mp fromSplitter with ⟨feed, feedMember, source, target⟩
    exact ⟨feed, feedMember, source, read, readEdge, target.symm, beq_iff_eq.mp isChannel⟩
  · rintro ⟨feed, feedMember, source, read, readEdge, target, rfl⟩
    have fromSplitter : read.source ∈ splitters :=
      splits.mem_iff.mpr ⟨feed, feedMember, source, target.symm⟩
    exact ⟨read, mem_channelReads.mpr ⟨readEdge, fromSplitter, below⟩, beq_self_eq_true _⟩

theorem lt_of_mem_channels {channel : Nat} (member : channel ∈ graph.channels id) :
    channel < 3 :=
  List.mem_range.mp (List.mem_filter.mp member).1

/-- The new outputs are titled by their channels, linked, and worth zero. -/
theorem map_channelSocket {channels : List Nat} (inRange : ∀ channel ∈ channels, channel < 3) :
    channels.map channelSocket =
      (channels.filterMap (["R", "G", "B"][·]?)).map fun title => .titled title true .zero := by
  induction channels with
  | nil => rfl
  | cons first others induction =>
      have below : first < ["R", "G", "B"].length := inRange first List.mem_cons_self
      have othersBelow : ∀ channel ∈ others, channel < 3 :=
        fun channel member => inRange channel (List.mem_cons_of_mem _ member)
      rw [List.map_cons, List.filterMap_cons_some (List.getElem?_eq_getElem below),
        List.map_cons, induction othersBelow, channelSocket, channelNames,
        List.getElem?_eq_getElem below, Option.getD_some]

/-- A read becomes an edge exactly if it is at the channel of the output. -/
theorem readDirectly_eq_iff {read : Edge} {channel : Nat}
    (member : read ∈ graph.channelReads splitters)
    (isChannel : (graph.exposed splitters)[edge.outSocket]? = some channel)
    (source : edge.source = accessor.id) :
    readDirectly accessor.id (graph.exposed splitters) read = edge ↔
      { edge with source := read.source, outSocket := channel } = read := by
  have distinct : (graph.exposed splitters).Nodup := List.nodup_range.filter _
  have handedOut := outSocket_mem_exposed member
  have position : (graph.exposed splitters).idxOf read.outSocket = edge.outSocket ↔
      channel = read.outSocket := by
    constructor
    · intro atOutput
      rw [← atOutput, List.getElem?_idxOf handedOut, Option.some.injEq] at isChannel
      exact isChannel.symm
    · rintro rfl
      rcases List.getElem?_eq_some_iff.mp isChannel with ⟨below, isAt⟩
      rw [← isAt]
      exact distinct.idxOf_getElem _ below
  rcases edge with ⟨edgeSource, target, outSocket, inSocket⟩
  rcases read with ⟨readSource, readTarget, readOut, readIn⟩
  simp only [readDirectly, Edge.mk.injEq] at position source ⊢
  rw [position]
  grind

/-- An edge of the accessor stands for the reads of its channel at one splitter. -/
theorem countP_outEdges_readDirectly {splitter : NodeId} {channel : Nat}
    (within : splitter ∈ splitters)
    (isChannel : (graph.exposed splitters)[edge.outSocket]? = some channel)
    (source : edge.source = accessor.id) :
    ((graph.outEdges splitter).filter fun read => decide (read.outSocket < 3)).countP
        (fun read => readDirectly accessor.id (graph.exposed splitters) read == edge) =
      graph.multiplicity { edge with source := splitter, outSocket := channel } := by
  rw [List.countP_filter, outEdges_eq_filter, List.countP_filter, multiplicity_eq_count, List.count]
  refine List.countP_congr fun read member => ?_
  simp only [Bool.and_eq_true, beq_iff_eq, decide_eq_true_eq]
  constructor
  · rintro ⟨⟨becomes, inRange⟩, rfl⟩
    have isRead := mem_channelReads.mpr ⟨member, within, inRange⟩
    exact ((readDirectly_eq_iff isRead isChannel source).mp becomes).symm
  · rintro rfl
    have inRange : channel < 3 := (mem_exposed.mp (List.mem_of_getElem? isChannel)).1
    have isRead := mem_channelReads.mpr ⟨member, within, inRange⟩
    exact ⟨⟨(readDirectly_eq_iff isRead isChannel source).mpr rfl, inRange⟩, rfl⟩

/-- Of the new edges, those at an output are the edges at its channel. -/
theorem Splits.count_reads (splits : graph.Splits accessor splitters)
    (source : edge.source = accessor.id) :
    ((graph.channelReads splitters).map
      (readDirectly accessor.id (graph.exposed splitters))).count edge = graph.timesRead edge := by
  rw [timesRead, source, ← splits.exposed_eq]
  split
  · rename_i beyond
    rw [List.count_eq_zero, List.mem_map]
    rintro ⟨read, member, rfl⟩
    rw [readDirectly, List.getElem?_idxOf (outSocket_mem_exposed member)] at beyond
    cases beyond
  · rename_i channel isChannel
    rw [List.count, List.countP_map, channelReads, List.filter_flatMap, List.countP_flatMap,
      ← (splits.perm_consumers.map _).sum_eq]
    refine congrArg List.sum (List.map_congr_left fun splitter within => ?_)
    exact countP_outEdges_readDirectly within isChannel source

/-- Exposing drops the edges that touch splitters, and adds one for every read of a channel. -/
theorem multiplicity_expose (splits : graph.Splits accessor splitters) (edge : Edge) :
    (graph.expose accessor.id splitters).multiplicity edge =
      (if edge.source ∈ splitters ∨ edge.target ∈ splitters then 0
        else graph.multiplicity edge) +
      ((graph.channelReads splitters).map
        (readDirectly accessor.id (graph.exposed splitters))).count edge := by
  rw [← multiplicity_withoutNodes splits.present splits.distinct, ← multiplicity_addEdges]
  rfl

theorem nextId_expose (graph : Graph) (accessor : NodeId) (splitters : List NodeId) :
    (graph.expose accessor splitters).nextId = graph.nextId := by
  rw [← nextId_withoutNodes graph splitters]
  exact nextId_addEdges ..

/-- No edge into a splitter leaves another one. -/
theorem SplittersOwned.source_eq (owned : graph.SplittersOwned)
    (splits : graph.Splits accessor splitters) (member : edge ∈ graph.edges)
    (target : edge.target ∈ splitters) : edge.source = accessor.id := by
  rcases splits.mem_iff.mp target with ⟨feed, feedMember, source, feedTarget⟩
  rw [← source]
  apply owned feed feedMember edge member
  · rw [source]
    exact ⟨accessor, splits.found, splits.kind⟩
  · rw [feedTarget]
    exact splits.splitter edge.target target
  · exact feedTarget.symm

/-- One step exposes one accessor. -/
theorem exposes_expose (owned : graph.SplittersOwned)
    (splits : graph.Splits accessor splitters) :
    Exposes graph (graph.expose accessor.id splitters) (· = accessor.id) := by
  have absorbed : ∀ id, graph.Absorbed (· = accessor.id) id ↔ id ∈ splitters :=
    fun id => splits.mem_iff.symm
  have apart := splits.accessor_not_mem
  constructor
  case gone =>
    intro id isAbsorbed
    have within := (absorbed id).mp isAbsorbed
    have different : id ≠ accessor.id := fun same => apart (same ▸ within)
    rw [node?_expose_of_ne different, if_pos within]
  case accessors =>
    rintro id rfl node found
    cases splits.found.symm.trans found
    rw [node?_expose_accessor splits, splits.exposed_eq, withChannels,
      map_channelSocket fun channel => lt_of_mem_channels]
  case others =>
    intro id different stays
    rw [node?_expose_of_ne different, if_neg (mt (absorbed id).mpr stays)]
  case reads =>
    intro edge source
    rw [multiplicity_expose splits, splits.count_reads source, Nat.add_eq_right]
    split
    · rfl
    · rename_i away
      rw [multiplicity_eq_zero_iff]
      intro member
      exact away (Or.inr ((absorbed _).mp ⟨edge, member, source, rfl⟩))
  case edges =>
    intro edge different sourceStays targetStays
    have touches : ¬ (edge.source ∈ splitters ∨ edge.target ∈ splitters) := by
      rw [← absorbed, ← absorbed, not_or]
      exact ⟨sourceStays, targetStays⟩
    rw [multiplicity_expose splits, if_neg touches, Nat.add_eq_left, List.count_eq_zero,
      List.mem_map]
    rintro ⟨read, -, rfl⟩
    exact different rfl
  case cut =>
    intro edge touches
    simp only [absorbed] at touches
    rw [multiplicity_expose splits, if_pos touches, Nat.zero_add, List.count_eq_zero, List.mem_map]
    rintro ⟨read, isRead, rfl⟩
    rcases mem_channelReads.mp isRead with ⟨member, fromSplitter, -⟩
    rcases touches with source | target
    · exact apart source
    · exact apart (owned.source_eq splits member target ▸ fromSplitter)
  case output =>
    intro id
    rw [output_expose, output_withoutNodes_eq_some_iff splits.present splits.distinct, absorbed]
  case nextId => exact nextId_expose graph accessor.id splitters

/-- The splitters that are left have their owners still. -/
theorem SplittersOwned.expose (owned : graph.SplittersOwned)
    (splits : graph.Splits accessor splitters) :
    (graph.expose accessor.id splitters).SplittersOwned := by
  intro feed feedMember other otherMember color splitter sameTarget
  rcases color.of_expose splits (fun _ => Kind.noConfusion) with ⟨different, oldColor⟩
  rcases splitter.of_expose splits (fun _ => Kind.noConfusion) with ⟨-, oldSplitter⟩
  have oldFeed := mem_edges_of_mem_edges_expose splits feedMember different
  rcases (mem_edges_expose splits).mp otherMember with ⟨old, -, -⟩ | ⟨read, isRead, rfl⟩
  · exact owned feed oldFeed other old oldColor oldSplitter sameTarget
  · -- A splitter would read the vertex colour that another one reads.
    rcases mem_channelReads.mp isRead with ⟨old, fromSplitter, -⟩
    have source := owned feed oldFeed read old oldColor oldSplitter sameTarget
    rw [← source] at oldColor
    exact absurd (splits.splitter read.source fromSplitter) oldColor.not_separateRgb

/-! ## The surroundings of an accessor -/

/-- Two graphs agree on an accessor, on the nodes that read it and on what leaves splitters. -/
structure AgreeAround (graph middle : Graph) (id : NodeId) : Prop where
  node : middle.node? id = graph.node? id
  feeds : ∀ edge : Edge, edge.source = id → middle.multiplicity edge = graph.multiplicity edge
  kinds : ∀ feed ∈ graph.edges, feed.source = id →
    (middle.HasKind feed.target .separateRgb ↔ graph.HasKind feed.target .separateRgb)
  reads : ∀ feed ∈ graph.edges, feed.source = id → graph.HasKind feed.target .separateRgb →
    ∀ edge : Edge, edge.source = feed.target →
      middle.multiplicity edge = graph.multiplicity edge

namespace AgreeAround

theorem mem_feeds_iff (agree : AgreeAround graph middle id) (source : edge.source = id) :
    edge ∈ middle.edges ↔ edge ∈ graph.edges :=
  mem_edges_congr (agree.feeds edge source)

theorem absorbed_iff (agree : AgreeAround graph middle id) {reader : NodeId} :
    middle.Absorbed (· = id) reader ↔ graph.Absorbed (· = id) reader := by
  constructor
  · rintro ⟨feed, member, source, target⟩
    exact ⟨feed, (agree.mem_feeds_iff source).mp member, source, target⟩
  · rintro ⟨feed, member, source, target⟩
    exact ⟨feed, (agree.mem_feeds_iff source).mpr member, source, target⟩

/-- Whether an accessor is read by splitters only is seen around it. -/
theorem splitOnly_iff (agree : AgreeAround graph middle id) :
    middle.SplitOnly id ↔ graph.SplitOnly id := by
  constructor
  · intro splitOnly feed member source
    exact (agree.kinds feed member source).mp
      (splitOnly feed ((agree.mem_feeds_iff source).mpr member) source)
  · intro splitOnly feed member source
    have old := (agree.mem_feeds_iff source).mp member
    exact (agree.kinds feed old source).mpr (splitOnly feed old source)

theorem channelRead_iff (agree : AgreeAround graph middle id) (splitOnly : graph.SplitOnly id)
    {channel : Nat} : middle.ChannelRead id channel ↔ graph.ChannelRead id channel := by
  constructor
  · rintro ⟨feed, member, source, read, readMember, fromReader, isChannel⟩
    have old := (agree.mem_feeds_iff source).mp member
    have same := agree.reads feed old source (splitOnly feed old source) read fromReader
    exact ⟨feed, old, source, read, (mem_edges_congr same).mp readMember, fromReader, isChannel⟩
  · rintro ⟨feed, member, source, read, readMember, fromReader, isChannel⟩
    have same := agree.reads feed member source (splitOnly feed member source) read fromReader
    exact ⟨feed, (agree.mem_feeds_iff source).mpr member, source, read,
      (mem_edges_congr same).mpr readMember, fromReader, isChannel⟩

theorem channels_eq (agree : AgreeAround graph middle id) (splitOnly : graph.SplitOnly id) :
    middle.channels id = graph.channels id := by
  simp only [channels, agree.channelRead_iff splitOnly]

theorem handsOut_iff (agree : AgreeAround graph middle id) :
    middle.HandsOut id ↔ graph.HandsOut id := by
  rw [HandsOut, HandsOut, HasKind, HasKind, agree.node, agree.splitOnly_iff]
  refine and_congr_right' (and_congr_right fun splitOnly => ?_)
  simp only [agree.channelRead_iff splitOnly]

theorem perm_consumers (agree : AgreeAround graph middle id) :
    (middle.consumers id).Perm (graph.consumers id) := by
  rw [List.perm_ext_iff_of_nodup (middle.nodup_consumers id) (graph.nodup_consumers id)]
  intro reader
  rw [mem_consumers_iff_absorbed, mem_consumers_iff_absorbed,
    agree.absorbed_iff]

/-- How often a channel is read is seen around the accessor. -/
theorem timesRead_eq (agree : AgreeAround graph middle id) (splitOnly : graph.SplitOnly id)
    (source : edge.source = id) :
    middle.timesRead edge = graph.timesRead edge := by
  rw [timesRead, timesRead, source, agree.channels_eq splitOnly]
  split
  · rfl
  · rename_i channel isChannel
    rw [(agree.perm_consumers.map _).sum_eq]
    refine congrArg List.sum (List.map_congr_left fun splitter isConsumer => ?_)
    rcases mem_consumers.mp isConsumer with ⟨feed, member, fromAccessor, rfl⟩
    exact agree.reads feed member fromAccessor (splitOnly feed member fromAccessor) _ rfl

end AgreeAround

/-! ## One accessor after the other -/

theorem Absorbed.separateRgb (absorbed : graph.Absorbed opened id)
    (opens : ∀ id, opened id → graph.HandsOut id) : graph.HasKind id .separateRgb := by
  rcases absorbed with ⟨feed, member, isOpened, rfl⟩
  exact (opens feed.source isOpened).2.1 feed member rfl

/-- All edges into a splitter that goes away leave accessors that hand out their channels. -/
theorem SplittersOwned.opened_source (owned : graph.SplittersOwned)
    (opens : ∀ id, opened id → graph.HandsOut id) (absorbed : graph.Absorbed opened id)
    (member : edge ∈ graph.edges) (target : edge.target = id) : opened edge.source := by
  have splitter := absorbed.separateRgb opens
  rcases absorbed with ⟨feed, feedMember, isOpened, rfl⟩
  rw [owned feed feedMember edge member (opens feed.source isOpened).1 splitter target]
  exact isOpened

/-- Nothing is read from an accessor into a splitter that goes away. -/
theorem SplittersOwned.timesRead_eq_zero (owned : graph.SplittersOwned)
    (opens : ∀ id, opened id → graph.HandsOut id) (splitOnly : graph.SplitOnly edge.source)
    (absorbed : graph.Absorbed opened edge.target) : graph.timesRead edge = 0 := by
  rw [timesRead]
  split
  · rfl
  · refine List.sum_eq_zero fun count counted => ?_
    rcases List.mem_map.mp counted with ⟨splitter, isConsumer, rfl⟩
    rw [multiplicity_eq_zero_iff]
    intro member
    have color := (opens splitter (owned.opened_source opens absorbed member rfl)).1
    rcases mem_consumers.mp isConsumer with ⟨feed, feedMember, source, rfl⟩
    exact color.not_separateRgb (splitOnly feed feedMember source)

namespace Exposes

/-- A graph in which nothing is opened stays as it is. -/
theorem refl (graph : Graph) : Exposes graph graph fun _ => False := by
  have stays : ∀ id, ¬ graph.Absorbed (fun _ => False) id := by
    rintro id ⟨feed, -, opened, -⟩
    exact opened
  constructor
  case gone => exact fun id absorbed => absurd absorbed (stays id)
  case accessors => exact fun id opened => opened.elim
  case others => exact fun id _ _ => rfl
  case reads => exact fun edge opened => opened.elim
  case edges => exact fun edge _ _ _ => rfl
  case cut =>
    rintro edge (absorbed | absorbed)
    · exact absurd absorbed (stays _)
    · exact absurd absorbed (stays _)
  case output => exact fun id => (and_iff_left (stays id)).symm
  case nextId => rfl

/-- Edges change only where they leave an accessor or a splitter. -/
theorem multiplicity_eq (exposes : Exposes graph middle opened)
    (opens : ∀ id, opened id → graph.HandsOut id) (owned : graph.SplittersOwned)
    (unopened : ¬ opened edge.source) (stays : ¬ graph.Absorbed opened edge.source) :
    middle.multiplicity edge = graph.multiplicity edge := by
  by_cases absorbed : graph.Absorbed opened edge.target
  · have absent : edge ∉ graph.edges :=
      fun member => unopened (owned.opened_source opens absorbed member rfl)
    rw [exposes.cut edge (Or.inr absorbed), multiplicity_eq_zero_iff.mpr absent]
  · exact exposes.edges edge unopened stays absorbed

/-- The surroundings of an accessor that has not handed out its channels are as they were. -/
theorem agreeAround (exposes : Exposes graph middle opened)
    (opens : ∀ id, opened id → graph.HandsOut id) (owned : graph.SplittersOwned)
    (color : graph.HasKind id (.geometry .vertexColor)) (unopened : ¬ opened id) :
    AgreeAround graph middle id := by
  have stays : ¬ graph.Absorbed opened id :=
    fun absorbed => color.not_separateRgb (absorbed.separateRgb opens)
  have targetStays : ∀ feed ∈ graph.edges, feed.source = id →
      ¬ graph.Absorbed opened feed.target := by
    rintro feed member rfl absorbed
    exact unopened (owned.opened_source opens absorbed member rfl)
  constructor
  case node => exact exposes.others id unopened stays
  case feeds =>
    rintro edge rfl
    exact exposes.multiplicity_eq opens owned unopened stays
  case kinds =>
    intro feed member source
    by_cases isOpened : opened feed.target
    · have oldColor := (opens feed.target isOpened).1
      rcases oldColor with ⟨node, found, isColor⟩
      have changed := exposes.accessors feed.target isOpened node found
      simp only [HasKind, changed, Option.mem_def.mp found, Option.mem_some_iff]
      simp [isColor]
    · rw [HasKind, HasKind, exposes.others feed.target isOpened (targetStays feed member source)]
  case reads =>
    intro feed member source splitter edge fromTarget
    apply exposes.multiplicity_eq opens owned
    · intro isOpened
      exact (opens _ isOpened).1.not_separateRgb (fromTarget ▸ splitter)
    · rw [fromTarget]
      exact targetStays feed member source

/-- One more accessor hands out its channels. -/
theorem step (exposes : Exposes graph middle opened) (later : Exposes middle result (· = id))
    (opens : ∀ id, opened id → graph.HandsOut id) (owned : graph.SplittersOwned)
    (handsOut : graph.HandsOut id) (unopened : ¬ opened id) :
    Exposes graph result fun other => opened other ∨ other = id := by
  have agree := exposes.agreeAround opens owned handsOut.1 unopened
  have splitOnly := handsOut.2.1
  have onlyOpens : ∀ other, other = id → graph.HandsOut other := by
    rintro other rfl
    exact handsOut
  have absorbed : ∀ other, graph.Absorbed (fun other => opened other ∨ other = id) other ↔
      graph.Absorbed opened other ∨ middle.Absorbed (· = id) other := by
    intro other
    rw [agree.absorbed_iff]
    simp only [Absorbed, or_and_right, and_or_left, exists_or]
  have stays : ¬ graph.Absorbed opened id :=
    fun isAbsorbed => handsOut.1.not_separateRgb (isAbsorbed.separateRgb opens)
  have apart : ∀ other, graph.HasKind other (.geometry .vertexColor) →
      ¬ middle.Absorbed (· = id) other := by
    intro other color isAbsorbed
    exact color.not_separateRgb ((agree.absorbed_iff.mp isAbsorbed).separateRgb onlyOpens)
  have different : ∀ other, opened other → other ≠ id := by
    rintro other isOpened rfl
    exact unopened isOpened
  constructor
  case gone =>
    intro other isAbsorbed
    by_cases absorbedLater : middle.Absorbed (· = id) other
    · exact later.gone other absorbedLater
    · have absorbedFirst := ((absorbed other).mp isAbsorbed).resolve_right absorbedLater
      have away : other ≠ id := fun same => stays (same ▸ absorbedFirst)
      rw [later.others other away absorbedLater, exposes.gone other absorbedFirst]
  case accessors =>
    rintro other (isOpened | rfl) node found
    · rw [later.others other (different other isOpened) (apart other (opens other isOpened).1),
        exposes.accessors other isOpened node found]
    · rw [← agree.channels_eq splitOnly]
      exact later.accessors other rfl node (agree.node.trans found)
  case others =>
    intro other unopenedOther staysOther
    rw [absorbed, not_or] at staysOther
    rw [not_or] at unopenedOther
    rw [later.others other unopenedOther.2 staysOther.2,
      exposes.others other unopenedOther.1 staysOther.1]
  case reads =>
    rintro edge (isOpened | source)
    · have handsOutSource := opens edge.source isOpened
      by_cases absorbedLater : middle.Absorbed (· = id) edge.target
      · rw [later.cut edge (Or.inr absorbedLater)]
        symm
        exact owned.timesRead_eq_zero onlyOpens handsOutSource.2.1
          (agree.absorbed_iff.mp absorbedLater)
      · rw [later.edges edge (different _ isOpened) (apart _ handsOutSource.1) absorbedLater,
          exposes.reads edge isOpened]
    · rw [later.reads edge source, agree.timesRead_eq splitOnly source]
  case edges =>
    intro edge unopenedSource sourceStays targetStays
    rw [absorbed, not_or] at sourceStays targetStays
    rw [not_or] at unopenedSource
    rw [later.edges edge unopenedSource.2 sourceStays.2 targetStays.2,
      exposes.edges edge unopenedSource.1 sourceStays.1 targetStays.1]
  case cut =>
    intro edge touches
    by_cases touchesLater :
        middle.Absorbed (· = id) edge.source ∨ middle.Absorbed (· = id) edge.target
    · exact later.cut edge touchesLater
    · have touchesFirst :
          graph.Absorbed opened edge.source ∨ graph.Absorbed opened edge.target := by
        rw [absorbed, absorbed] at touches
        tauto
      rw [not_or] at touchesLater
      by_cases source : edge.source = id
      · have target := touchesFirst.resolve_left (source ▸ stays)
        rw [later.reads edge source, agree.timesRead_eq splitOnly source]
        exact owned.timesRead_eq_zero opens (source ▸ splitOnly) target
      · rw [later.edges edge source touchesLater.1 touchesLater.2, exposes.cut edge touchesFirst]
  case output =>
    intro other
    rw [later.output, exposes.output, absorbed, not_or, and_assoc]
  case nextId => rw [later.nextId, exposes.nextId]

end Exposes

/-! ## The whole pass -/

/-- What has been done when some of the accessors have been looked at. -/
structure ExposesSeen (graph : Graph) (seen : List Node) (current : Graph) (count : Nat) :
    Prop where
  owned : current.SplittersOwned
  exposes : Exposes graph current fun id => id ∈ seen.map (·.id) ∧ graph.HandsOut id
  count : count = seen.countP fun node => decide (graph.HandsOut node.id)

theorem exposesSeen_start (owned : graph.SplittersOwned) :
    graph.ExposesSeen [] graph 0 := by
  refine ⟨owned, ?_, rfl⟩
  simpa using Exposes.refl graph

theorem mem_colorAccessors {node : Node} :
    node ∈ graph.colorAccessors ↔ node ∈ graph.nodes ∧ node.kind = .geometry .vertexColor := by
  simp [colorAccessors]

section Steps

variable {seen : List Node} {current : Graph} {count : Nat}

theorem next_colorAccessor (next : seen ++ [accessor] <+: graph.colorAccessors) :
    graph.HasKind accessor.id (.geometry .vertexColor) ∧ accessor.id ∉ seen.map (·.id) := by
  have member : accessor ∈ graph.colorAccessors := next.subset (by simp)
  rcases mem_colorAccessors.mp member with ⟨present, isColor⟩
  have distinct : ((seen ++ [accessor]).map (·.id)).Nodup :=
    graph.nodup_nodeIds.sublist ((next.sublist.trans List.filter_sublist).map _)
  rw [List.map_append, List.nodup_append] at distinct
  refine ⟨⟨accessor, node?_of_mem present, isColor⟩, fun within => ?_⟩
  exact distinct.2.2 _ within _ (List.mem_map_of_mem (List.mem_singleton_self accessor)) rfl

/-- Around an accessor that is still to come, the graph is as it was. -/
theorem ExposesSeen.agreeAround (exposed : graph.ExposesSeen seen current count)
    (owned : graph.SplittersOwned) (next : seen ++ [accessor] <+: graph.colorAccessors) :
    AgreeAround graph current accessor.id := by
  rcases next_colorAccessor next with ⟨color, unseen⟩
  apply exposed.exposes.agreeAround (fun id isOpened => isOpened.2) owned color
  exact fun isOpened => unseen isOpened.1

/-- An accessor that is not split is passed over, and hands nothing out. -/
theorem ExposesSeen.skip (exposed : graph.ExposesSeen seen current count)
    (owned : graph.SplittersOwned) (next : seen ++ [accessor] <+: graph.colorAccessors)
    (found : current.node? accessor.id = some accessor)
    (noSplitters : ∀ splitters, ¬ current.Splits accessor splitters) :
    graph.ExposesSeen (seen ++ [accessor]) current count := by
  have keeps : ¬ graph.HandsOut accessor.id := by
    intro handsOut
    have here := (exposed.agreeAround owned next).handsOut_iff.mpr handsOut
    exact noSplitters _ (here.splits found)
  refine ⟨exposed.owned, ?_, ?_⟩
  · have same : (fun id => id ∈ (seen ++ [accessor]).map (·.id) ∧ graph.HandsOut id) =
        fun id => id ∈ seen.map (·.id) ∧ graph.HandsOut id := by
      ext id
      rw [List.map_append, List.mem_append, List.map_singleton, List.mem_singleton]
      grind
    rw [same]
    exact exposed.exposes
  · rw [exposed.count, List.countP_append, List.countP_singleton, decide_eq_false keeps]
    rfl

/-- An accessor that is split is exposed on top of those before. -/
theorem ExposesSeen.expose (exposed : graph.ExposesSeen seen current count)
    (owned : graph.SplittersOwned)
    (next : seen ++ [accessor] <+: graph.colorAccessors)
    (splits : current.Splits accessor splitters) :
    graph.ExposesSeen (seen ++ [accessor]) (current.expose accessor.id splitters) (count + 1) := by
  have handsOut : graph.HandsOut accessor.id :=
    (exposed.agreeAround owned next).handsOut_iff.mp splits.handsOut
  refine ⟨exposed.owned.expose splits, ?_, ?_⟩
  · have same : (fun id => id ∈ (seen ++ [accessor]).map (·.id) ∧ graph.HandsOut id) =
        fun id => (id ∈ seen.map (·.id) ∧ graph.HandsOut id) ∨ id = accessor.id := by
      ext id
      rw [List.map_append, List.mem_append, List.map_singleton, List.mem_singleton]
      grind
    rw [same]
    apply exposed.exposes.step (exposes_expose exposed.owned splits)
      (fun id isOpened => isOpened.2) owned handsOut
    exact fun isOpened => (next_colorAccessor next).2 isOpened.1
  · rw [exposed.count, List.countP_append, List.countP_singleton, decide_eq_true handsOut]
    rfl

end Steps

/--
Exactly the vertex colours hand out channels that splitters alone read and from which a channel is
read, and the pass counts them.
-/
theorem optimizeChannels_exposes (owned : graph.SplittersOwned) :
    Exposes graph graph.optimizeChannels.1 graph.HandsOut ∧
      graph.optimizeChannels.2 = graph.nodeIds.countP fun id => decide (graph.HandsOut id) := by
  have run : graph.ExposesSeen graph.colorAccessors graph.optimizeChannels.1
      graph.optimizeChannels.2 := by
    apply optimizeChannels_run graph.ExposesSeen
    · exact exposesSeen_start owned
    · intro seen current count accessor next found noSplitters exposed
      exact exposed.skip owned next found noSplitters
    · intro seen current count accessor splitters next splits exposed
      exact exposed.expose owned next splits
  constructor
  · have all : (fun id => id ∈ graph.colorAccessors.map (·.id) ∧ graph.HandsOut id) =
        graph.HandsOut := by
      ext id
      refine and_iff_right_of_imp fun handsOut => ?_
      rcases handsOut.1 with ⟨node, found, isColor⟩
      have member := mem_colorAccessors.mpr ⟨mem_nodes_of_node? found, isColor⟩
      exact List.mem_map.mpr ⟨node, member, id_of_node? found⟩
    have exposes := run.exposes
    rwa [all] at exposes
  · rw [run.count, colorAccessors, List.countP_filter, nodeIds, List.countP_map]
    refine List.countP_congr fun node member => ?_
    simp only [Function.comp_apply, Bool.and_eq_true, decide_eq_true_eq, beq_iff_eq]
    refine and_iff_left_of_imp fun handsOut => ?_
    rcases handsOut.1 with ⟨found, isFound, isColor⟩
    cases Option.mem_unique (node?_of_mem member) isFound
    exact isColor

/-- An accessor for vertex colours. -/
def vertexColors : Node where
  kind := .geometry .vertexColor
  name := "Geometry"
  outputs := [.titled "Vertex Color" true .zero]

/-- A node that splits colours. -/
def separate : Node where
  kind := .separateRgb
  name := "Separate"
  inputs := [.titled "Image" true .zero]
  outputs := ["R", "G", "B"].map fun title => .titled title true .zero

/--
Two splitters read the first accessor and one the second, where a channel is split again; the output
reads the third accessor directly too.
-/
def stainedGlass : Graph :=
  let colors : Graph :=
    ((Graph.empty.withNode vertexColors).withNode vertexColors).withNode vertexColors
  let splits : Graph :=
    ((((colors.withNode separate).withNode separate).withNode separate).withNode separate).withNode
      separate
  (splits.withNode { kind := .output, name := "Output" }).addEdges
    [⟨0, 3, 0, 0⟩, ⟨0, 4, 0, 0⟩, ⟨3, 8, 0, 0⟩, ⟨3, 8, 2, 1⟩, ⟨4, 8, 2, 1⟩, ⟨4, 8, 2, 1⟩,
      ⟨1, 5, 0, 0⟩, ⟨5, 6, 1, 0⟩, ⟨6, 8, 2, 2⟩, ⟨2, 7, 0, 0⟩, ⟨7, 8, 0, 3⟩, ⟨2, 8, 0, 3⟩]

/-- Two of the vertex colours are exposed; the third is read by something else as well. -/
theorem optimizeChannels_exposes_stainedGlass :
    stainedGlass.Closed ∧ stainedGlass.SplittersOwned ∧
      stainedGlass.optimizeChannels.1.edges =
        [⟨0, 8, 0, 0⟩, ⟨0, 8, 1, 1⟩, ⟨0, 8, 1, 1⟩, ⟨0, 8, 1, 1⟩, ⟨1, 6, 0, 0⟩, ⟨2, 7, 0, 0⟩,
          ⟨2, 8, 0, 3⟩, ⟨6, 8, 2, 2⟩, ⟨7, 8, 0, 3⟩] ∧
      stainedGlass.optimizeChannels.2 = 2 ∧
      Exposes stainedGlass stainedGlass.optimizeChannels.1 stainedGlass.HandsOut := by
  have closed : stainedGlass.Closed := by decide +kernel
  have owned : stainedGlass.SplittersOwned := by decide +kernel
  refine ⟨closed, owned, ?_, ?_, (optimizeChannels_exposes owned).1⟩
  · decide +kernel
  · rw [(optimizeChannels_exposes owned).2]
    decide +kernel

end NodeMaterial.Graph
