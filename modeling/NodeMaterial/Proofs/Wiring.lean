import NodeMaterial.Proofs.Composition

/-!
# What a composed graph is wired to

An instruction is set up from the link flags of its node alone.  Then edges are
followed, source by source in the order of the nodes and for one source in the order
of edges.  An output keeps the name that it gets first, so every input that takes it
over carries the name that the output has in the end; an input keeps the name that the
last edge into it brings.
-/

namespace NodeMaterial

open NodeMaterial.Graph

/-! ## Names of sockets -/

/-- The instruction of a node, where instructions stand in an order of nodes. -/
def instructionAt (order : List NodeId) (instructions : List Instruction) (id : NodeId) :
    Option Instruction :=
  instructions[order.idxOf id]?

/-- The name that an output of a node carries. -/
def nameOfOutput (find : NodeId → Option Instruction) (output : NodeId × Nat) : Option String :=
  (find output.1).bind fun instruction => instruction.outputs[output.2]?.join

/-- The name that an input of a node carries. -/
def nameOfInput (find : NodeId → Option Instruction) (input : NodeId × Nat) : Option String :=
  (find input.1).bind fun instruction => instruction.inputs[input.2]?.bind (·.name)

/-- The literal that an input of a node is given. -/
def literalOfInput (find : NodeId → Option Instruction) (input : NodeId × Nat) : Option String :=
  (find input.1).bind fun instruction => instruction.inputs[input.2]?.bind (·.literal)

namespace Wiring

variable {graph : Graph} {wiring next final : Wiring} {edge : Edge} {edges : List Edge}

/-! ## Following an edge -/

/-- What an edge that brings a name makes of the instruction of a node. -/
def connected (edge : Edge) (name : String) (id : NodeId) (instruction : Instruction) :
    Instruction :=
  let named := if id = edge.source then instruction.setOutput edge.outSocket name else instruction
  if id = edge.target then named.setInput edge.inSocket name else named

theorem record?_connect (wiring : Wiring) (edge : Edge) (name : String) (id : NodeId) :
    (wiring.connect edge name).record? id =
      (wiring.record? id).map (connected edge name id) := by
  rw [connect, record?_modify, record?_modify, Option.map_map]
  rfl

theorem outputs_connected (edge : Edge) (name : String) (id : NodeId) (instruction : Instruction) :
    (connected edge name id instruction).outputs =
      if id = edge.source then instruction.outputs.set edge.outSocket (some name)
      else instruction.outputs := by
  unfold connected
  split <;> split <;> rfl

theorem inputs_connected (edge : Edge) (name : String) (id : NodeId) (instruction : Instruction) :
    (connected edge name id instruction).inputs =
      if id = edge.target then
        instruction.inputs.modify edge.inSocket fun operand => { operand with name := some name }
      else instruction.inputs := by
  unfold connected
  split <;> split <;> rfl

/-- A connection names the output that it starts at and no other. -/
theorem nameOfOutput_connect
    {producer : Instruction} (record : wiring.record? edge.source = some producer)
    (inRange : edge.outSocket < producer.outputs.length) (name : String) (output : NodeId × Nat) :
    nameOfOutput (wiring.connect edge name).record? output =
      if output = edge.start then some name else nameOfOutput wiring.record? output := by
  rcases output with ⟨id, place⟩
  simp only [nameOfOutput, record?_connect, Option.bind_map, Function.comp_def,
    outputs_connected]
  by_cases source : id = edge.source
  · subst source
    by_cases socket : place = edge.outSocket
    · subst socket
      simp [record, Edge.start, inRange]
    · simp [record, Edge.start, socket, Ne.symm socket]
  · simp [source, Edge.start]

/-- A connection names the input that it ends at and no other. -/
theorem nameOfInput_connect
    (lands : wiring.hasInput edge.target edge.inSocket = true) (name : String)
    (input : NodeId × Nat) :
    nameOfInput (wiring.connect edge name).record? input =
      if input = edge.finish then some name else nameOfInput wiring.record? input := by
  rcases input with ⟨id, place⟩
  rw [hasInput, Option.any_eq_true] at lands
  rcases lands with ⟨consumer, record, inRange⟩
  have inRange : edge.inSocket < consumer.inputs.length := of_decide_eq_true inRange
  simp only [nameOfInput, record?_connect, Option.bind_map, Function.comp_def, inputs_connected]
  by_cases target : id = edge.target
  · subst target
    by_cases socket : place = edge.inSocket
    · subst socket
      simp [record, Edge.finish, inRange]
    · simp [record, Edge.finish, socket, Ne.symm socket]
  · simp [target, Edge.finish]

/-- A connection leaves all literals as they are. -/
theorem literalOfInput_connect
    (wiring : Wiring) (edge : Edge) (name : String) (input : NodeId × Nat) :
    literalOfInput (wiring.connect edge name).record? input =
      literalOfInput wiring.record? input := by
  rcases input with ⟨id, place⟩
  simp only [literalOfInput, record?_connect, Option.bind_map, Function.comp_def,
    inputs_connected]
  congr 1
  funext instruction
  split
  · rw [List.getElem?_modify]
    cases instruction.inputs[place]? with
    | none => rfl
    | some operand => by_cases socket : edge.inSocket = place <;> simp [socket]
  · rfl

/-- The base of the names of an output. -/
def outputBase? (graph : Graph) (output : NodeId × Nat) : Option String :=
  (graph.node? output.1).bind fun node =>
    node.outputs[output.2]?.map (Instruction.outputBase node.kind.tag)

/--
A followed edge brings one name to the output at its start and to the input at its end.  It
is the name that the output has, or a new one if it has none.
-/
structure Brings (graph : Graph) (wiring : Wiring) (edge : Edge) (next : Wiring) (name : String) :
    Prop where
  output : ∀ output, nameOfOutput next.record? output =
    if output = edge.start then some name else nameOfOutput wiring.record? output
  input : ∀ input, nameOfInput next.record? input =
    if input = edge.finish then some name else nameOfInput wiring.record? input
  literal : ∀ input, literalOfInput next.record? input = literalOfInput wiring.record? input
  drawn :
    nameOfOutput wiring.record? edge.start = some name ∧ next.names = wiring.names ∨
    nameOfOutput wiring.record? edge.start = none ∧
      ∃ base, outputBase? graph edge.start = some base ∧
        wiring.names.issue base = (name, next.names)

/-- An output that has a name keeps it. -/
theorem Brings.name_eq
    {name old : String} (brings : Brings graph wiring edge next name)
    (named : nameOfOutput wiring.record? edge.start = some old) : name = old := by
  rcases brings.drawn with ⟨isName, -⟩ | ⟨unnamed, -⟩
  · rw [isName, Option.some.injEq] at named
    exact named
  · rw [unnamed] at named
    cases named

theorem Fits.startSocket
    (fits : wiring.Fits graph) {producer : Instruction}
    (record : wiring.record? edge.source = some producer)
    {socket : Socket} (found : startSocket? graph edge = some socket) :
    edge.outSocket < producer.outputs.length ∧
      outputBase? graph edge.start = some (Instruction.outputBase producer.tag socket) := by
  rw [startSocket?, Option.bind_eq_some_iff] at found
  rcases found with ⟨node, nodeFound, socketFound⟩
  rcases fits.record?_of_node? nodeFound with ⟨instruction, same, outline⟩
  rw [record] at same
  cases same
  constructor
  · rw [length_outputs_of_outline outline]
    exact (List.getElem?_eq_some_iff.mp socketFound).1
  · rw [outputBase?, Edge.start, nodeFound, Option.bind_some, socketFound, Option.map_some,
      ← tag_of_outline outline]

/-- Following an edge brings one name to both of its ends. -/
theorem Fits.brings (fits : wiring.Fits graph) (followed : follow graph wiring edge = .ok next) :
    ∃ name, Brings graph wiring edge next name := by
  rcases follow_eq_ok followed with ⟨producer, socket, record, socketFound, lands, rfl⟩
  rcases fits.startSocket record socketFound with ⟨inRange, base⟩
  refine ⟨_, nameOfOutput_connect record inRange _, nameOfInput_connect lands _,
    literalOfInput_connect _ edge _, ?_⟩
  rw [nameOfOutput, Edge.start, record, Option.bind_some, List.getElem?_eq_getElem inRange,
    outputName, List.getElem?_eq_getElem inRange]
  cases producer.outputs[edge.outSocket] with
  | none => exact Or.inr ⟨rfl, _, base, rfl⟩
  | some old => exact Or.inl ⟨rfl, rfl⟩

/-! ## Following all edges -/

/-- Edges are followed one after another. -/
theorem followAll_append
    {before after : List Edge} (done : followAll graph (before ++ after) wiring = .ok final) :
    ∃ middle, followAll graph before wiring = .ok middle ∧
      followAll graph after middle = .ok final := by
  induction before generalizing wiring with
  | nil => exact ⟨wiring, rfl, done⟩
  | cons edge others induction =>
      rw [List.cons_append, followAll] at done
      split at done
      · cases done
      · rename_i next followed
        rcases induction done with ⟨middle, first, second⟩
        refine ⟨middle, ?_, second⟩
        rw [followAll, followed]
        exact first

theorem Fits.followAll
    (fits : wiring.Fits graph) (done : followAll graph edges wiring = .ok final) :
    final.Fits graph :=
  fits.of_outlines (outlines_followAll done)

/-- What each followed edge keeps, by the name it brings, is kept by all of them together. -/
theorem Fits.followAll_induction
    (fits : wiring.Fits graph) (Kept : Wiring → Prop)
    (step : ∀ current edge next name, edge ∈ edges →
      Brings graph current edge next name → Kept current → Kept next)
    (start : Kept wiring) (done : Wiring.followAll graph edges wiring = .ok final) :
    Kept final := by
  refine (Wiring.followAll_induction (fun current => current.Fits graph ∧ Kept current) ?_
    ⟨fits, start⟩ done).2
  rintro current edge next member followed ⟨currentFits, kept⟩
  rcases currentFits.brings followed with ⟨name, brings⟩
  exact ⟨currentFits.of_outlines (outlines_follow followed),
    step current edge next name member brings kept⟩

/-- An output keeps its name. -/
theorem Fits.nameOfOutput_followAll
    (fits : wiring.Fits graph) (done : Wiring.followAll graph edges wiring = .ok final)
    {output : NodeId × Nat} {name : String}
    (named : nameOfOutput wiring.record? output = some name) :
    nameOfOutput final.record? output = some name := by
  refine fits.followAll_induction
    (fun current => nameOfOutput current.record? output = some name) ?_ named done
  intro current edge next brought _ brings kept
  rw [brings.output]
  split
  · rename_i start
    rw [brings.name_eq (start ▸ kept)]
  · exact kept

/-- An input into which no edge is followed keeps its name. -/
theorem Fits.nameOfInput_followAll
    (fits : wiring.Fits graph) (done : Wiring.followAll graph edges wiring = .ok final)
    {input : NodeId × Nat} (unfed : ∀ edge ∈ edges, edge.finish ≠ input) :
    nameOfInput final.record? input = nameOfInput wiring.record? input := by
  refine fits.followAll_induction
    (fun current => nameOfInput current.record? input = nameOfInput wiring.record? input)
    ?_ rfl done
  intro current edge next name member brings kept
  rw [brings.input, if_neg (unfed edge member).symm, kept]

/-- Following edges changes no literals. -/
theorem Fits.literalOfInput_followAll
    (fits : wiring.Fits graph) (done : Wiring.followAll graph edges wiring = .ok final)
    (input : NodeId × Nat) :
    literalOfInput final.record? input = literalOfInput wiring.record? input := by
  refine fits.followAll_induction
    (fun current => literalOfInput current.record? input = literalOfInput wiring.record? input)
    ?_ rfl done
  intro current edge next name _ brings kept
  rw [brings.literal, kept]

/-- The state in which an edge is followed, and the one in which it leaves the others. -/
theorem Fits.followAll_at
    (fits : wiring.Fits graph) {before after : List Edge}
    (done : Wiring.followAll graph (before ++ edge :: after) wiring = .ok final) :
    ∃ (current next : Wiring) (name : String), Brings graph current edge next name ∧
      next.Fits graph ∧ Wiring.followAll graph after next = .ok final := by
  rcases followAll_append done with ⟨current, first, rest⟩
  have currentFits := fits.followAll first
  rw [Wiring.followAll] at rest
  split at rest
  · cases rest
  · rename_i next followed
    rcases currentFits.brings followed with ⟨name, brings⟩
    exact ⟨current, next, name, brings, currentFits.of_outlines (outlines_follow followed), rest⟩

/-- The last edge into an input leaves it with the name of the output where the edge starts. -/
theorem Fits.nameOfInput_last
    (fits : wiring.Fits graph) {before after : List Edge}
    (done : Wiring.followAll graph (before ++ edge :: after) wiring = .ok final)
    (last : ∀ other ∈ after, other.finish ≠ edge.finish) :
    nameOfInput final.record? edge.finish = nameOfOutput final.record? edge.start := by
  rcases fits.followAll_at done with ⟨current, next, name, brings, nextFits, rest⟩
  have output : nameOfOutput final.record? edge.start = some name :=
    nextFits.nameOfOutput_followAll rest (by rw [brings.output, if_pos rfl])
  rw [nextFits.nameOfInput_followAll rest last, brings.input, if_pos rfl, output]

/-- An output has a name in the end if it had one before or an edge starts there. -/
theorem Fits.isSome_nameOfOutput_followAll
    (fits : wiring.Fits graph) (done : Wiring.followAll graph edges wiring = .ok final)
    (output : NodeId × Nat) :
    (nameOfOutput final.record? output).isSome = true ↔
      (nameOfOutput wiring.record? output).isSome = true ∨
        ∃ edge ∈ edges, edge.start = output := by
  constructor
  · intro named
    refine or_iff_not_imp_right.mpr fun unused => ?_
    have kept : nameOfOutput final.record? output = nameOfOutput wiring.record? output := by
      refine fits.followAll_induction (fun current =>
        nameOfOutput current.record? output = nameOfOutput wiring.record? output) ?_ rfl done
      intro current edge next name member brings kept
      rw [brings.output, if_neg fun start => unused ⟨edge, member, start.symm⟩, kept]
    rw [← kept, named]
  · rintro (named | ⟨edge, member, rfl⟩)
    · rcases Option.isSome_iff_exists.mp named with ⟨name, found⟩
      rw [fits.nameOfOutput_followAll done found]
      rfl
    · rcases List.append_of_mem member with ⟨before, after, rfl⟩
      rcases fits.followAll_at done with ⟨current, next, name, brings, nextFits, rest⟩
      rw [nextFits.nameOfOutput_followAll rest (by rw [brings.output, if_pos rfl])]
      rfl

/-! ## Setting up -/

/-- Inputs that are not linked get a name and the literal of their default. -/
theorem getElem?_nameInputs
    (tag : String) (sockets : List Socket) (names : NameSupply) {place : Nat} {socket : Socket}
    (found : sockets[place]? = some socket) :
    ∃ operand, (Instruction.nameInputs tag sockets names).1[place]? = some operand ∧
      operand.name.isSome = !socket.isLinked ∧
      operand.literal =
        if socket.isLinked then none else some (Shader.literal 0 socket.defaultValue) := by
  induction sockets generalizing names place with
  | nil => simp at found
  | cons head others induction =>
      rw [Instruction.nameInputs]
      cases place with
      | zero =>
          rw [List.getElem?_cons_zero, Option.some.injEq] at found
          subst found
          split <;> simp_all
      | succ place =>
          rw [List.getElem?_cons_succ] at found
          split
          · exact induction names found
          · exact induction _ found

/-- Outputs that are not linked get a name. -/
theorem getElem?_nameOutputs
    (tag : String) (sockets : List Socket) (names : NameSupply) {place : Nat} {socket : Socket}
    (found : sockets[place]? = some socket) :
    ∃ name, (Instruction.nameOutputs tag sockets names).1[place]? = some name ∧
      name.isSome = !socket.isLinked := by
  induction sockets generalizing names place with
  | nil => simp at found
  | cons head others induction =>
      rw [Instruction.nameOutputs]
      cases place with
      | zero =>
          rw [List.getElem?_cons_zero, Option.some.injEq] at found
          subst found
          split <;> simp_all
      | succ place =>
          rw [List.getElem?_cons_succ] at found
          split
          · exact induction names found
          · exact induction _ found

/-- Every node has an instruction before edges are followed. -/
theorem record?_setUp
    {nodes : List Node} (names : NameSupply) {id : NodeId} {node : Node}
    (found : nodes.find? (·.id == id) = some node) :
    ∃ supply, (setUp nodes names).record? id = some (Instruction.ofNode node supply).1 := by
  induction nodes generalizing names with
  | nil => cases found
  | cons head others induction =>
      rw [setUp, record?]
      by_cases same : head.id = id
      · rw [List.find?_cons_of_pos (by simpa using same), Option.some.injEq] at found
        subst found
        refine ⟨names, ?_⟩
        rw [List.find?_cons_of_pos (by simpa using same)]
        rfl
      · rw [List.find?_cons_of_neg (by simpa using same)] at found ⊢
        exact induction _ found

section SetUp

variable {order : List NodeId} (complete : ∀ id, graph.contains id = true → id ∈ order)
  {node : Node} (member : node ∈ graph.nodes) {place : Nat} {socket : Socket}

include complete member

theorem record?_setUp_of_mem :
    ∃ supply, (setUp (order.filterMap graph.node?) {}).record? node.id =
      some (Instruction.ofNode node supply).1 := by
  apply record?_setUp
  rw [find?_filterMap_node? complete]
  exact node?_of_mem member

theorem input_setUp (found : node.inputs[place]? = some socket) :
    (nameOfInput (setUp (order.filterMap graph.node?) {}).record? (node.id, place)).isSome =
        !socket.isLinked ∧
      literalOfInput (setUp (order.filterMap graph.node?) {}).record? (node.id, place) =
        if socket.isLinked then none else some (Shader.literal 0 socket.defaultValue) := by
  rcases record?_setUp_of_mem complete member with ⟨supply, record⟩
  rcases getElem?_nameInputs node.kind.tag node.inputs supply found with
    ⟨operand, operandFound, named, literal⟩
  have inputs : (Instruction.ofNode node supply).1.inputs[place]? = some operand := operandFound
  rw [nameOfInput, literalOfInput, record, Option.bind_some, Option.bind_some, inputs,
    Option.bind_some, Option.bind_some]
  exact ⟨named, literal⟩

theorem output_setUp (found : node.outputs[place]? = some socket) :
    (nameOfOutput (setUp (order.filterMap graph.node?) {}).record? (node.id, place)).isSome =
      !socket.isLinked := by
  rcases record?_setUp_of_mem complete member with ⟨supply, record⟩
  rcases getElem?_nameOutputs node.kind.tag node.outputs
      (Instruction.nameInputs node.kind.tag node.inputs supply).2 found with
    ⟨name, nameFound, named⟩
  have outputs : (Instruction.ofNode node supply).1.outputs[place]? = some name := nameFound
  rw [nameOfOutput, record, Option.bind_some, outputs, Option.join_some]
  exact named

end SetUp

end Wiring

namespace Graph

variable {graph : Graph} {order : List NodeId} {instructions : List Instruction}

/-! ## The order in which edges are followed -/

/-- Edges are followed by the place of their source, and for one source in their own order. -/
def FollowedBefore (order : List NodeId) (first second : Edge) : Prop :=
  order.idxOf first.source < order.idxOf second.source ∨
    first.source = second.source ∧ first.before second = true

/-- Edges are followed in the order of their sources, and at one source in their own. -/
theorem pairwise_flatMap_outEdges (graph : Graph) (nodup : order.Nodup) :
    (order.flatMap graph.outEdges).Pairwise fun first second =>
      first = second ∨ FollowedBefore order first second := by
  rw [List.pairwise_flatMap]
  constructor
  · intro id _
    rw [outEdges, EdgeBag.leaving_eq_filter]
    have ascending := (EdgeBag.occurrences_ascending graph.bag).filter (·.source == id)
    refine ascending.imp_of_mem fun {first second} firstMember secondMember => ?_
    have firstSource : first.source = id := by simpa using (List.mem_filter.mp firstMember).2
    have secondSource : second.source = id := by simpa using (List.mem_filter.mp secondMember).2
    rintro (same | before)
    · exact Or.inl same
    · exact Or.inr (Or.inr ⟨firstSource.trans secondSource.symm, before⟩)
  · rw [List.pairwise_iff_getElem]
    intro i j iBound jBound less first firstMember second secondMember
    refine Or.inr (Or.inl ?_)
    rw [(mem_outEdges.mp firstMember).2, (mem_outEdges.mp secondMember).2,
      nodup.idxOf_getElem i iBound, nodup.idxOf_getElem j jBound]
    exact less

/-- A list has a last member with a property that one of its members has. -/
theorem exists_last_mem {edges : List Edge} (p : Edge → Bool) (some_mem : ∃ edge ∈ edges, p edge) :
    ∃ before last after, edges = before ++ last :: after ∧ p last = true ∧
      ∀ other ∈ after, p other = false := by
  have isSome : (edges.reverse.find? p).isSome = true := by simpa using some_mem
  rcases Option.isSome_iff_exists.mp isSome with ⟨last, found⟩
  rcases List.find?_eq_some_iff_append.mp found with ⟨holds, after, before, split, none⟩
  refine ⟨before.reverse, last, after.reverse, ?_, holds, ?_⟩
  · rw [← List.reverse_reverse edges, split]
    simp
  · simpa using none

/-! ## The sockets of a composed graph -/

/-- The sockets of instructions carry what the flags and the edges of a graph ask for. -/
structure Wired (graph : Graph) (order : List NodeId) (find : NodeId → Option Instruction) :
    Prop where
  /-- An input takes the name that the last edge into it brings. -/
  fed : ∀ edge ∈ graph.edges, ∃ last ∈ graph.edges, last.finish = edge.finish ∧
    (∀ other ∈ graph.edges, other.finish = edge.finish →
      other = last ∨ FollowedBefore order other last) ∧
    nameOfInput find edge.finish = nameOfOutput find last.start
  unfed : ∀ node ∈ graph.nodes, ∀ place socket, node.inputs[place]? = some socket →
    (∀ edge ∈ graph.edges, edge.finish ≠ (node.id, place)) →
    ((nameOfInput find (node.id, place)).isSome = true ↔ socket.isLinked = false)
  outputs : ∀ node ∈ graph.nodes, ∀ place socket, node.outputs[place]? = some socket →
    ((nameOfOutput find (node.id, place)).isSome = true ↔
      socket.isLinked = false ∨ ∃ edge ∈ graph.edges, edge.start = (node.id, place))
  literals : ∀ node ∈ graph.nodes, ∀ place socket, node.inputs[place]? = some socket →
    literalOfInput find (node.id, place) =
      if socket.isLinked then none else some (Shader.literal 0 socket.defaultValue)

theorem instructionAt_records (wiring : Wiring) :
    instructionAt (wiring.records.map (·.1)) (wiring.records.map (·.2)) = wiring.record? := by
  funext id
  rw [instructionAt, Wiring.record?]
  induction wiring.records with
  | nil => rfl
  | cons head others induction =>
      rw [List.map_cons, List.map_cons]
      by_cases same : head.1 = id
      · rw [List.find?_cons_of_pos (by simpa using same), ← same, List.idxOf_cons_self]
        rfl
      · rw [List.find?_cons_of_neg (by simpa using same), List.idxOf_cons_ne _ same,
          List.getElem?_cons_succ]
        exact induction

/-- The nodes of a topological order. -/
theorem map_node?_order (perm : order.Perm graph.nodeIds) :
    order.map graph.node? = (order.filterMap graph.node?).map some ∧
      (order.filterMap graph.node?).map (·.id) = order := by
  have present : ∀ id ∈ order, ∃ node, graph.node? id = some node ∧ node.id = id := by
    intro id placed
    have contained := mem_nodeIds.mp (perm.mem_iff.mp placed)
    rcases contains_iff.mp contained with ⟨node, found⟩
    exact ⟨node, found, id_of_node? found⟩
  clear perm
  induction order with
  | nil => exact ⟨rfl, rfl⟩
  | cons id others induction =>
      rcases present id List.mem_cons_self with ⟨node, found, same⟩
      rcases induction fun other later => present other (List.mem_cons_of_mem _ later) with
        ⟨nodes, ids⟩
      rw [List.filterMap_cons_some found, List.map_cons, List.map_cons, List.map_cons, found,
        nodes, ids, same]
      exact ⟨rfl, rfl⟩

/-- Following edges changes names only. -/
theorem map_outline_compose
    {final : Wiring} {edges : List Edge} (perm : order.Perm graph.nodeIds)
    (done : Wiring.followAll graph edges (Wiring.setUp (order.filterMap graph.node?) {}) =
      .ok final) :
    final.records.map (·.1) = order ∧
      (final.records.map (·.2)).map Instruction.outline =
        (order.filterMap graph.node?).map Node.outline := by
  have kept := (Wiring.outlines_followAll done).trans (Wiring.outlines_setUp _ _)
  have ids := congrArg (List.map (·.1)) kept
  have outlines := congrArg (List.map (·.2)) kept
  rw [Wiring.outlines, List.map_map, List.map_map] at ids outlines
  constructor
  · rw [← (map_node?_order perm).2]
    exact ids
  · rw [List.map_map]
    exact outlines

/-- Composing a closed graph wires it. -/
theorem Closed.wired
    (closed : graph.Closed) {final : Wiring} (perm : order.Perm graph.nodeIds)
    (done : Wiring.followAll graph (order.flatMap graph.outEdges)
      (Wiring.setUp (order.filterMap graph.node?) {}) = .ok final) :
    graph.Wired order final.record? := by
  have placed := placed_of_perm perm
  have fits := Wiring.fits_setUp placed {}
  have followed : ∀ {edge}, edge ∈ order.flatMap graph.outEdges ↔ edge ∈ graph.edges :=
    fun {edge} => mem_flatMap_outEdges.trans
      ⟨And.left, fun member => ⟨member, placed _ (closed.sources edge member)⟩⟩
  constructor
  · intro edge member
    rcases exists_last_mem (fun other => decide (other.finish = edge.finish))
        ⟨edge, followed.mpr member, by simp⟩ with ⟨before, last, after, split, same, none⟩
    have same : last.finish = edge.finish := by simpa using same
    have none : ∀ other ∈ after, other.finish ≠ edge.finish := by simpa using none
    refine ⟨last, followed.mp (by simp [split]), same, ?_, ?_⟩
    · intro other otherMember otherSame
      have inOrder := pairwise_flatMap_outEdges graph
        (perm.nodup_iff.mpr graph.nodup_nodeIds)
      rw [split, List.pairwise_append] at inOrder
      have place := followed.mpr otherMember
      rw [split, List.mem_append, List.mem_cons] at place
      rcases place with earlier | isLast | later
      · exact inOrder.2.2 other earlier last List.mem_cons_self
      · exact Or.inl isLast
      · exact absurd otherSame (none other later)
    · rw [split] at done
      rw [← same]
      exact fits.nameOfInput_last done fun other later => same ▸ none other later
  · intro node member place socket found unfed
    rw [fits.nameOfInput_followAll done fun edge later => unfed edge (followed.mp later),
      (Wiring.input_setUp placed member found).1, Bool.not_eq_true']
  · intro node member place socket found
    rw [fits.isSome_nameOfOutput_followAll done, Wiring.output_setUp placed member found,
      Bool.not_eq_true']
    simp only [followed]
  · intro node member place socket found
    rw [fits.literalOfInput_followAll done, (Wiring.input_setUp placed member found).2]

/-! ## Flags that agree with the edges -/

/-- Sockets are flagged as linked exactly where an edge starts or ends. -/
structure Flagged (graph : Graph) : Prop where
  inputs : ∀ node ∈ graph.nodes, ∀ place socket, node.inputs[place]? = some socket →
    (socket.isLinked = true ↔ ∃ edge ∈ graph.edges, edge.finish = (node.id, place))
  outputs : ∀ node ∈ graph.nodes, ∀ place socket, node.outputs[place]? = some socket →
    (socket.isLinked = true ↔ ∃ edge ∈ graph.edges, edge.start = (node.id, place))

instance (graph : Graph) : Decidable graph.Flagged :=
  decidable_of_iff
    ((∀ node ∈ graph.nodes, ∀ entry ∈ node.inputs.zipIdx,
        (entry.1.isLinked = true ↔ ∃ edge ∈ graph.edges, edge.finish = (node.id, entry.2))) ∧
      ∀ node ∈ graph.nodes, ∀ entry ∈ node.outputs.zipIdx,
        (entry.1.isLinked = true ↔ ∃ edge ∈ graph.edges, edge.start = (node.id, entry.2)))
    ⟨fun ⟨inputs, outputs⟩ =>
      ⟨fun node member place socket found =>
          inputs node member (socket, place) (List.mk_mem_zipIdx_iff_getElem?.mpr found),
        fun node member place socket found =>
          outputs node member (socket, place) (List.mk_mem_zipIdx_iff_getElem?.mpr found)⟩,
      fun flagged =>
        ⟨fun node member entry found =>
            flagged.inputs node member entry.2 entry.1 (List.mk_mem_zipIdx_iff_getElem?.mp found),
          fun node member entry found =>
            flagged.outputs node member entry.2 entry.1
              (List.mk_mem_zipIdx_iff_getElem?.mp found)⟩⟩

variable {find : NodeId → Option Instruction}

/-- Where flags tell the truth, every output has a name. -/
theorem Wired.isSome_nameOfOutput
    (wired : graph.Wired order find) (flagged : graph.Flagged) {node : Node}
    (member : node ∈ graph.nodes) {place : Nat} (inRange : place < node.outputs.length) :
    (nameOfOutput find (node.id, place)).isSome = true := by
  have found : node.outputs[place]? = some node.outputs[place] :=
    List.getElem?_eq_getElem inRange
  rw [wired.outputs node member place _ found, ← flagged.outputs node member place _ found]
  cases node.outputs[place].isLinked <;> simp

/-- An input is named, and if it is given no literal then an output before it has the name. -/
theorem Wired.nameOfInput
    (wired : graph.Wired order find) (flagged : graph.Flagged) (closed : graph.Closed)
    (ordered : graph.topologicalOrder = .ok order)
    (starts : ∀ edge ∈ graph.edges, graph.Starts edge) {node : Node}
    (member : node ∈ graph.nodes) {place : Nat} (inRange : place < node.inputs.length) :
    ∃ name, nameOfInput find (node.id, place) = some name ∧
      (literalOfInput find (node.id, place) = none → ∃ output : NodeId × Nat,
        order.idxOf output.1 < order.idxOf node.id ∧ nameOfOutput find output = some name) := by
  have found : node.inputs[place]? = some node.inputs[place] := List.getElem?_eq_getElem inRange
  cases linked : node.inputs[place].isLinked with
  | false =>
      have unfed : ∀ edge ∈ graph.edges, edge.finish ≠ (node.id, place) := by
        intro edge edgeMember finish
        have flag := (flagged.inputs node member place _ found).mpr ⟨edge, edgeMember, finish⟩
        simp [linked] at flag
      have named := (wired.unfed node member place _ found unfed).mpr linked
      rcases Option.isSome_iff_exists.mp named with ⟨name, isName⟩
      refine ⟨name, isName, ?_⟩
      rw [wired.literals node member place _ found, linked]
      simp
  | true =>
      rcases (flagged.inputs node member place _ found).mp linked with ⟨edge, edgeMember, finish⟩
      rcases wired.fed edge edgeMember with ⟨last, lastMember, sameFinish, -, sameName⟩
      rcases starts last lastMember with ⟨source, sourceFound, lastInRange⟩
      have named := wired.isSome_nameOfOutput flagged (mem_nodes_of_node? sourceFound) lastInRange
      rw [id_of_node? sourceFound] at named
      rcases Option.isSome_iff_exists.mp named with ⟨name, isName⟩
      refine ⟨name, ?_, fun _ => ⟨last.start, ?_, isName⟩⟩
      · rw [← finish, sameName]
        exact isName
      · have target : last.target = node.id := congrArg Prod.fst (sameFinish.trans finish)
        rw [← target]
        have placed := (closed.topologicalOrder_perm ordered).mem_iff.mpr
          (mem_nodeIds.mpr (closed.targets last lastMember))
        exact (forward_of_ordered ordered lastMember placed).2

/--
Every socket is named.  An input that is given no literal has a name that an instruction
before it writes.
-/
structure Readable (instructions : List Instruction) : Prop where
  inputs : ∀ (place : Nat) (instruction : Instruction),
    instructions[place]? = some instruction →
    ∀ operand ∈ instruction.inputs, ∃ name, operand.name = some name ∧
      (operand.literal = none → ∃ (earlier : Nat) (producer : Instruction), earlier < place ∧
        instructions[earlier]? = some producer ∧ some name ∈ producer.outputs)
  outputs : ∀ instruction ∈ instructions, ∀ name ∈ instruction.outputs, name.isSome = true

/-- The node of an instruction, found at its place in the order. -/
theorem exists_node_of_getElem?
    (perm : order.Perm graph.nodeIds)
    (outlines : instructions.map Instruction.outline =
      (order.filterMap graph.node?).map Node.outline)
    {place : Nat} {instruction : Instruction} (found : instructions[place]? = some instruction) :
    ∃ node ∈ graph.nodes, order.idxOf node.id = place ∧
      instructionAt order instructions node.id = some instruction ∧
      instruction.outline = node.outline := by
  have outline := congrArg (·[place]?) outlines
  simp only [List.getElem?_map, found, Option.map_some] at outline
  rcases Option.map_eq_some_iff.mp outline.symm with ⟨node, nodeFound, same⟩
  have member : node ∈ graph.nodes :=
    (filterMap_node?_perm perm).mem_iff.mp (List.mem_of_getElem? nodeFound)
  have placed : order[place]? = some node.id := by
    conv_lhs => rw [← (map_node?_order perm).2]
    rw [List.getElem?_map, nodeFound, Option.map_some]
  have nodup : order.Nodup := perm.nodup_iff.mpr graph.nodup_nodeIds
  rcases List.getElem?_eq_some_iff.mp placed with ⟨inRange, isId⟩
  have atPlace : order.idxOf node.id = place := by rw [← isId, nodup.idxOf_getElem]
  refine ⟨node, member, atPlace, ?_, same.symm⟩
  rw [instructionAt, atPlace, found]

/-- Every instruction reads names that an earlier one has written. -/
theorem Wired.readable
    (wired : graph.Wired order (instructionAt order instructions)) (flagged : graph.Flagged)
    (closed : graph.Closed) (ordered : graph.topologicalOrder = .ok order)
    (starts : ∀ edge ∈ graph.edges, graph.Starts edge)
    (outlines : instructions.map Instruction.outline =
      (order.filterMap graph.node?).map Node.outline) :
    Readable instructions where
  inputs := by
    intro place instruction found operand member
    rcases exists_node_of_getElem? (closed.topologicalOrder_perm ordered) outlines found with
      ⟨node, inGraph, atPlace, isAt, outline⟩
    rcases List.mem_iff_getElem?.mp member with ⟨socket, socketFound⟩
    have inRange : socket < node.inputs.length := by
      rw [← length_inputs_of_outline outline]
      exact (List.getElem?_eq_some_iff.mp socketFound).1
    rcases wired.nameOfInput flagged closed ordered starts inGraph inRange with
      ⟨name, isName, written⟩
    rw [NodeMaterial.nameOfInput, isAt, Option.bind_some, socketFound, Option.bind_some] at isName
    refine ⟨name, isName, fun noLiteral => ?_⟩
    rw [literalOfInput, isAt, Option.bind_some, socketFound, Option.bind_some] at written
    rcases written noLiteral with ⟨⟨source, outSocket⟩, earlier, outputName⟩
    rw [nameOfOutput, Option.bind_eq_some_iff] at outputName
    rcases outputName with ⟨producer, producerFound, writes⟩
    refine ⟨order.idxOf source, producer, atPlace ▸ earlier, producerFound, ?_⟩
    exact List.mem_of_getElem? (Option.join_eq_some_iff.mp writes)
  outputs := by
    intro instruction member name output
    rcases List.mem_iff_getElem?.mp member with ⟨place, found⟩
    rcases exists_node_of_getElem? (closed.topologicalOrder_perm ordered) outlines found with
      ⟨node, inGraph, -, isAt, outline⟩
    rcases List.mem_iff_getElem?.mp output with ⟨socket, socketFound⟩
    have inRange : socket < node.outputs.length := by
      rw [← length_outputs_of_outline outline]
      exact (List.getElem?_eq_some_iff.mp socketFound).1
    have named := wired.isSome_nameOfOutput flagged inGraph inRange
    rw [nameOfOutput, isAt, Option.bind_some, socketFound] at named
    exact named

/-! ## Composition -/

/-- A closed graph composes exactly if it has no cycle and its edges connect sockets. -/
theorem Closed.compose_isOk_iff (closed : graph.Closed) :
    (∃ instructions, graph.compose = .ok instructions) ↔
      graph.Acyclic ∧ ∀ edge ∈ graph.edges, graph.Starts edge ∧ graph.Lands edge := by
  constructor
  · rintro ⟨instructions, composed⟩
    rcases compose_eq_ok composed with ⟨order, -, ordered, -⟩
    have acyclic := closed.acyclic_iff_exists_order.mpr ⟨order, ordered⟩
    rcases acyclic.compose_cases closed.sources with ⟨-, -, find⟩ | ⟨edge, -, -, failed⟩
    · exact ⟨acyclic, find⟩
    · rw [composed] at failed
      cases failed
  · rintro ⟨acyclic, find⟩
    rcases acyclic.compose_cases closed.sources with
      ⟨instructions, composed, -⟩ | ⟨edge, member, misses, -⟩
    · exact ⟨instructions, composed⟩
    · exact absurd (find edge member) misses

/--
Composition succeeds exactly on graphs without a cycle whose edges find their sockets.  It
gives one instruction for each node, in topological order, with the names and literals that
edges and flags ask for.  Where flags and edges agree nothing stays open.
-/
theorem composition_wires_sockets (closed : graph.Closed) :
    ((∃ instructions, graph.compose = .ok instructions) ↔
      graph.Acyclic ∧ ∀ edge ∈ graph.edges, graph.Starts edge ∧ graph.Lands edge) ∧
    ∀ instructions, graph.compose = .ok instructions →
      ∃ (order : List NodeId) (nodes : List Node),
      graph.topologicalOrder = .ok order ∧ order.map graph.node? = nodes.map some ∧
      instructions.map Instruction.outline = nodes.map Node.outline ∧
      graph.Wired order (instructionAt order instructions) ∧
      (graph.Flagged → Readable instructions) := by
  refine ⟨closed.compose_isOk_iff, fun instructions composed => ?_⟩
  have find := (closed.compose_isOk_iff.mp ⟨instructions, composed⟩).2
  rcases compose_eq_ok composed with ⟨order, final, ordered, perm, followed, rfl⟩
  rcases map_outline_compose perm followed with ⟨ids, outlines⟩
  have wired : graph.Wired order (instructionAt order (final.records.map (·.2))) := by
    have lookup := instructionAt_records final
    rw [ids] at lookup
    rw [lookup]
    exact closed.wired perm followed
  refine ⟨order, order.filterMap graph.node?, ordered, (map_node?_order perm).1, outlines,
    wired, fun flagged => ?_⟩
  exact wired.readable flagged closed ordered (fun edge member => (find edge member).1) outlines

/-- Two values are both linked to the first input of a sum; its other input reads as zero. -/
def doubleFed : Graph :=
  let free (name : String) : Socket := { name, identifier := name }
  let linked (name : String) : Socket := { free name with isLinked := true }
  let value (name : String) : Node := { kind := .value, name, outputs := [linked "Value"] }
  let sum : Node :=
    { kind := .math .add, name := "sum", inputs := [linked "Value", free "Value_001"],
      outputs := [linked "Value"] }
  let output : Node := { kind := .output, name := "out", inputs := [linked "Color"] }
  (([output, value "first", value "second", sum].foldl withNode empty).addEdges
    [⟨1, 3, 0, 0⟩, ⟨2, 3, 0, 0⟩, ⟨3, 0, 0, 0⟩]).setOutput 0

/-- Of the two values that feed one input, the later one gives the name. -/
theorem composition_wires_doubleFed :
    doubleFed.Closed ∧ doubleFed.Flagged ∧
    ∃ instructions, doubleFed.compose = .ok instructions ∧ Readable instructions ∧
      doubleFed.Wired [1, 2, 3, 0] (instructionAt [1, 2, 3, 0] instructions) ∧
      nameOfInput (instructionAt [1, 2, 3, 0] instructions) (3, 0) = some "out_VALUE_Value1" := by
  have closed : doubleFed.Closed := by decide +kernel
  have flagged : doubleFed.Flagged := by decide +kernel
  have finds : doubleFed.Acyclic ∧
      ∀ edge ∈ doubleFed.edges, doubleFed.Starts edge ∧ doubleFed.Lands edge := by
    decide +kernel
  rcases (composition_wires_sockets closed).1.mpr finds with ⟨instructions, composed⟩
  rcases (composition_wires_sockets closed).2 instructions composed with
    ⟨order, nodes, ordered, -, -, wired, readable⟩
  have isOrder : doubleFed.topologicalOrder = .ok [1, 2, 3, 0] := by decide +kernel
  have named : doubleFed.compose.toOption.map
      (fun result => nameOfInput (instructionAt [1, 2, 3, 0] result) (3, 0)) =
        some (some "out_VALUE_Value1") := by
    decide +kernel
  rw [isOrder, Except.ok.injEq] at ordered
  subst ordered
  rw [composed] at named
  exact ⟨closed, flagged, instructions, composed, readable flagged, wired,
    Option.some.inj named⟩

end Graph

end NodeMaterial
