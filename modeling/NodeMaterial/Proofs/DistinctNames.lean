import Mathlib.Data.List.Sigma
import NodeMaterial.Compilation
import NodeMaterial.Proofs.NameSupply
import NodeMaterial.Proofs.Wiring

/-!
# When the names of a composed graph differ

Composition asks a new supply for one name per socket: for inputs and outputs that are
not flagged as linked, and for outputs that edges start at.  A ledger lists these
sockets with their bases in the order in which they ask.  The names of a composed graph
are what the supply answers to its ledger, so they differ exactly if the bases are
separate.
-/

namespace NodeMaterial

open NodeMaterial.Graph

/-- A socket of a node: the number of the node, and the place among its inputs or outputs. -/
inductive Port where
  | input (socket : NodeId × Nat)
  | output (socket : NodeId × Nat)
  deriving DecidableEq, Repr

/-- Sockets in the order in which they ask for names, each with the base of its name. -/
abbrev Ledger := List (Port × String)

namespace Ledger

variable {ledger : Ledger} {port : Port} {name : String}

/-- The bases for which names were asked, in order. -/
def bases (ledger : Ledger) : List String :=
  ledger.map (·.2)

theorem getElem?_bases {place : Nat} {base : String}
    (found : ledger[place]? = some (port, base)) : ledger.bases[place]? = some base := by
  rw [bases, List.getElem?_map, found, Option.map_some]

/-- What a supply answers to a ledger. -/
def answers (supply : NameSupply) (ledger : Ledger) : List (Port × String) :=
  (ledger.map (·.1)).zip (supply.issueAll ledger.bases).1

/-- From one supply to another the sockets of a ledger get names. -/
structure Issues (names : NameSupply) (ledger : Ledger) (labels : List (Port × String))
    (rest : NameSupply) : Prop where
  labels : labels = answers names ledger
  rest : rest = (names.issueAll ledger.bases).2

/-- Two ledgers one after the other are issued from the same supply. -/
theorem Issues.append
    {names middle rest : NameSupply} {first second : Ledger}
    {firstLabels secondLabels : List (Port × String)}
    (left : Issues names first firstLabels middle)
    (right : Issues middle second secondLabels rest) :
    Issues names (first ++ second) (firstLabels ++ secondLabels) rest := by
  have bases : (first ++ second).bases = first.bases ++ second.bases := List.map_append
  have lengths : (first.map (·.1)).length = (names.issueAll first.bases).1.length := by
    simp [NameSupply.length_issueAll, Ledger.bases]
  constructor
  · rw [answers, bases, List.map_append, NameSupply.issueAll_append, List.zip_append lengths,
      left.labels, right.labels, left.rest]
    rfl
  · rw [bases, NameSupply.issueAll_append, right.rest, left.rest]

/-- The answers of a ledger are the names that are issued for its bases, place by place. -/
theorem mem_answers {supply : NameSupply} :
    (port, name) ∈ answers supply ledger ↔
      ∃ (place : Nat) (base : String), ledger[place]? = some (port, base) ∧
        (supply.issueAll ledger.bases).1[place]? = some name := by
  rw [answers, List.mem_iff_getElem?]
  simp only [List.getElem?_zip_eq_some, List.getElem?_map, Option.map_eq_some_iff]
  constructor
  · rintro ⟨place, ⟨⟨_, base⟩, found, rfl⟩, answered⟩
    exact ⟨place, base, found, answered⟩
  · rintro ⟨place, base, found, answered⟩
    exact ⟨place, ⟨(port, base), found, rfl⟩, answered⟩

/-- Every port that asks is answered. -/
theorem exists_mem_answers_iff (supply : NameSupply) :
    (∃ name, (port, name) ∈ answers supply ledger) ↔ ∃ base, (port, base) ∈ ledger := by
  constructor
  · rintro ⟨name, member⟩
    rcases mem_answers.mp member with ⟨place, base, found, -⟩
    exact ⟨base, List.mem_of_getElem? found⟩
  · rintro ⟨base, member⟩
    rcases List.mem_iff_getElem?.mp member with ⟨place, found⟩
    have inRange : place < (supply.issueAll ledger.bases).1.length := by
      rw [NameSupply.length_issueAll, bases, List.length_map]
      exact (List.getElem?_eq_some_iff.mp found).1
    exact ⟨_, mem_answers.mpr ⟨place, base, found, List.getElem?_eq_getElem inRange⟩⟩

end Ledger

/-! ## The ledger of a set-up -/

/-- The sockets that take names, with their bases. -/
def asking (port : Nat → Port) (base : Socket → String) (asks : Socket → Nat → Bool)
    (start : Nat) (sockets : List Socket) : Ledger :=
  (sockets.zipIdx start).filterMap fun entry =>
    if asks entry.1 entry.2 then some (port entry.2, base entry.1) else none

/-- The sockets that ask are those of a list which pass the test. -/
theorem mem_asking {port : Nat → Port} {base : Socket → String} {asks : Socket → Nat → Bool}
    {sockets : List Socket} {entry : Port × String} :
    entry ∈ asking port base asks 0 sockets ↔
      ∃ (place : Nat) (socket : Socket), sockets[place]? = some socket ∧
        asks socket place = true ∧ (port place, base socket) = entry := by
  simp only [asking, List.mem_filterMap, Option.ite_none_right_eq_some, Option.some.injEq]
  constructor
  · rintro ⟨⟨socket, place⟩, member, asked, isEntry⟩
    exact ⟨place, socket, List.mk_mem_zipIdx_iff_getElem?.mp member, asked, isEntry⟩
  · rintro ⟨place, socket, found, asked, isEntry⟩
    exact ⟨(socket, place), List.mk_mem_zipIdx_iff_getElem?.mpr found, asked, isEntry⟩

/-- Names with the sockets that carry them. -/
def labelled (port : Nat → Port) (start : Nat) (names : List (Option String)) :
    List (Port × String) :=
  (names.zipIdx start).filterMap fun entry => entry.1.map (port entry.2, ·)

theorem mem_labelled {port : Nat → Port} {names : List (Option String)} {entry : Port × String} :
    entry ∈ labelled port 0 names ↔
      ∃ (place : Nat), names[place]? = some (some entry.2) ∧ port place = entry.1 := by
  simp only [labelled, List.mem_filterMap, Option.map_eq_some_iff]
  constructor
  · rintro ⟨⟨_, place⟩, member, name, rfl, rfl⟩
    exact ⟨place, List.mk_mem_zipIdx_iff_getElem?.mp member, rfl⟩
  · rintro ⟨place, found, isPort⟩
    exact ⟨(some entry.2, place), List.mk_mem_zipIdx_iff_getElem?.mpr found, entry.2, rfl,
      by rw [isPort]⟩

/-- Names the sockets that are not linked. -/
def nameFree (base : Socket → String) :
    List Socket → NameSupply → List (Option String) × NameSupply
  | [], names => ([], names)
  | socket :: sockets, names =>
      if socket.isLinked then
        (none :: (nameFree base sockets names).1, (nameFree base sockets names).2)
      else
        (some (names.issue (base socket)).1 ::
            (nameFree base sockets (names.issue (base socket)).2).1,
          (nameFree base sockets (names.issue (base socket)).2).2)

theorem nameInputs_eq (tag : String) (sockets : List Socket) (names : NameSupply) :
    ((Instruction.nameInputs tag sockets names).1.map (·.name),
      (Instruction.nameInputs tag sockets names).2) =
        nameFree (Instruction.inputBase tag) sockets names := by
  induction sockets generalizing names with
  | nil => rfl
  | cons socket others induction =>
      rw [Instruction.nameInputs, nameFree]
      split
      · rw [← induction names]
        rfl
      · rw [← induction (names.issue _).2]
        rfl

theorem nameOutputs_eq (tag : String) (sockets : List Socket) (names : NameSupply) :
    Instruction.nameOutputs tag sockets names =
      nameFree (Instruction.outputBase tag) sockets names := by
  induction sockets generalizing names with
  | nil => rfl
  | cons socket others induction =>
      rw [Instruction.nameOutputs, nameFree]
      split
      · rw [← induction names]
      · rw [← induction (names.issue _).2]

/-- Sockets that are not linked. -/
def isFree (socket : Socket) (_place : Nat) : Bool :=
  !socket.isLinked

/-- The free sockets of a node are named in order, with no names in between. -/
theorem issues_nameFree
    (port : Nat → Port) (base : Socket → String) (start : Nat) (sockets : List Socket)
    (names : NameSupply) :
    Ledger.Issues names (asking port base isFree start sockets)
      (labelled port start (nameFree base sockets names).1) (nameFree base sockets names).2 := by
  induction sockets generalizing names start with
  | nil => exact ⟨rfl, rfl⟩
  | cons socket others induction =>
      rw [nameFree]
      split
      · rename_i linked
        have asked : asking port base isFree start (socket :: others) =
            asking port base isFree (start + 1) others := by
          simp [asking, isFree, linked]
        rw [asked]
        exact induction (start + 1) names
      · rename_i free
        have asked : asking port base isFree start (socket :: others) =
            [(port start, base socket)] ++ asking port base isFree (start + 1) others := by
          simp [asking, isFree, free]
        have first : Ledger.Issues names [(port start, base socket)]
            [(port start, (names.issue (base socket)).1)] (names.issue (base socket)).2 :=
          ⟨rfl, rfl⟩
        rw [asked]
        exact first.append (induction (start + 1) _)

/-- The inputs of a node that are not linked, and the outputs that ask for a name. -/
def askingSockets (asks : Node → Socket → Nat → Bool) (node : Node) : Ledger :=
  asking (fun place => .input (node.id, place)) (Instruction.inputBase node.kind.tag) isFree 0
      node.inputs ++
    asking (fun place => .output (node.id, place)) (Instruction.outputBase node.kind.tag)
      (asks node) 0 node.outputs

/-- The sockets of a node that are not linked. -/
def freeSockets : Node → Ledger :=
  askingSockets fun _ => isFree

/-- The names that an instruction carries. -/
def labels (entry : NodeId × Instruction) : List (Port × String) :=
  labelled (fun place => .input (entry.1, place)) 0 (entry.2.inputs.map (·.name)) ++
    labelled (fun place => .output (entry.1, place)) 0 entry.2.outputs

theorem issues_ofNode (node : Node) (names : NameSupply) :
    Ledger.Issues names (freeSockets node) (labels (node.id, (Instruction.ofNode node names).1))
      (Instruction.ofNode node names).2 := by
  have inputs := issues_nameFree (fun place => .input (node.id, place))
    (Instruction.inputBase node.kind.tag) 0 node.inputs names
  rw [← nameInputs_eq] at inputs
  have outputs := issues_nameFree (fun place => .output (node.id, place))
    (Instruction.outputBase node.kind.tag) 0 node.outputs
    (Instruction.nameInputs node.kind.tag node.inputs names).2
  rw [← nameOutputs_eq] at outputs
  exact inputs.append outputs

namespace Wiring

variable {graph : Graph} {wiring next final : Wiring} {edge : Edge} {edges : List Edge}

/-- Setting up the instructions issues names for the free sockets of all nodes. -/
theorem issues_setUp (nodes : List Node) (names : NameSupply) :
    Ledger.Issues names (nodes.flatMap freeSockets)
      ((setUp nodes names).records.flatMap labels) (setUp nodes names).names := by
  induction nodes generalizing names with
  | nil => exact ⟨rfl, rfl⟩
  | cons node others induction =>
      exact (issues_ofNode node names).append (induction (Instruction.ofNode node names).2)

/-- With distinct numbers, the instruction of a node is the one that is recorded for it. -/
theorem record?_eq_some_iff
    (nodup : (wiring.records.map (·.1)).Nodup) {id : NodeId} {instruction : Instruction} :
    wiring.record? id = some instruction ↔ (id, instruction) ∈ wiring.records := by
  rw [record?, Option.map_eq_some_iff]
  constructor
  · rintro ⟨entry, found, rfl⟩
    have same : entry.1 = id := by simpa using List.find?_some found
    rw [← same]
    exact List.mem_of_find?_eq_some found
  · intro member
    obtain ⟨entry, found⟩ : ∃ entry, wiring.records.find? (·.1 == id) = some entry := by
      rw [← Option.isSome_iff_exists, List.find?_isSome]
      exact ⟨(id, instruction), member, by simp⟩
    have same : entry.1 = id := by simpa using List.find?_some found
    have isEntry := List.inj_on_of_nodup_map nodup (List.mem_of_find?_eq_some found) member same
    exact ⟨entry, found, by rw [isEntry]⟩

theorem mem_labels_output
    (nodup : (wiring.records.map (·.1)).Nodup) {output : NodeId × Nat} {name : String} :
    (.output output, name) ∈ wiring.records.flatMap labels ↔
      nameOfOutput wiring.record? output = some name := by
  simp only [List.mem_flatMap, labels, List.mem_append, mem_labelled, nameOfOutput,
    Option.bind_eq_some_iff, Option.join_eq_some_iff, record?_eq_some_iff nodup]
  constructor
  · rintro ⟨⟨id, instruction⟩, member, ⟨place, -, isInput⟩ | ⟨place, found, isOutput⟩⟩
    · cases isInput
    · cases isOutput
      exact ⟨instruction, member, found⟩
  · rintro ⟨instruction, member, found⟩
    exact ⟨(output.1, instruction), member, Or.inr ⟨output.2, found, rfl⟩⟩

theorem mem_labels_input
    (nodup : (wiring.records.map (·.1)).Nodup) {input : NodeId × Nat} {name : String} :
    (.input input, name) ∈ wiring.records.flatMap labels ↔
      nameOfInput wiring.record? input = some name := by
  simp only [List.mem_flatMap, labels, List.mem_append, mem_labelled, nameOfInput,
    Option.bind_eq_some_iff, record?_eq_some_iff nodup, List.getElem?_map, Option.map_eq_some_iff]
  constructor
  · rintro ⟨⟨id, instruction⟩, member, ⟨place, found, isInput⟩ | ⟨place, -, isOutput⟩⟩
    · cases isInput
      exact ⟨instruction, member, found⟩
    · cases isOutput
  · rintro ⟨instruction, member, found⟩
    exact ⟨(input.1, instruction), member, Or.inl ⟨input.2, found, rfl⟩⟩

/-! ## The ledger of a composition -/

/-- The base of the names of an input. -/
def inputBase? (graph : Graph) (input : NodeId × Nat) : Option String :=
  (graph.node? input.1).bind fun node =>
    node.inputs[input.2]?.map (Instruction.inputBase node.kind.tag)

/-- The base of the names of a socket. -/
def base? (graph : Graph) : Port → Option String
  | .input input => inputBase? graph input
  | .output output => outputBase? graph output

/--
A ledger holds each socket once, with its base.  The outputs have the names that a new
supply answers to it, and so had the inputs in the beginning.
-/
structure Books (graph : Graph) (first wiring : Wiring) (ledger : Ledger) : Prop where
  nodup : (ledger.map (·.1)).Nodup
  bases : ∀ entry ∈ ledger, base? graph entry.1 = some entry.2
  supply : wiring.names = (NameSupply.issueAll {} ledger.bases).2
  outputs : ∀ output name, nameOfOutput wiring.record? output = some name ↔
    (.output output, name) ∈ Ledger.answers {} ledger
  inputs : ∀ input name, nameOfInput first.record? input = some name ↔
    (.input input, name) ∈ Ledger.answers {} ledger

variable {first : Wiring} {ledger : Ledger}

/-- An output that gets a name is entered last. -/
theorem Books.enter
    (books : Books graph first wiring ledger) {name base : String}
    (brings : Brings graph wiring edge next name)
    (unnamed : nameOfOutput wiring.record? edge.start = none)
    (isBase : outputBase? graph edge.start = some base)
    (issued : wiring.names.issue base = (name, next.names)) :
    Books graph first next (ledger ++ [(.output edge.start, base)]) := by
  have absent : .output edge.start ∉ ledger.map (·.1) := by
    intro member
    rcases List.mem_map.mp member with ⟨⟨_, old⟩, entered, rfl⟩
    rcases (Ledger.exists_mem_answers_iff {}).mpr ⟨old, entered⟩ with ⟨oldName, answered⟩
    rw [(books.outputs _ _).mpr answered] at unnamed
    cases unnamed
  have before : Ledger.Issues {} ledger (Ledger.answers {} ledger) wiring.names :=
    ⟨rfl, books.supply⟩
  have last : Ledger.Issues wiring.names [(.output edge.start, base)]
      [(.output edge.start, name)] next.names := by
    have isName : (wiring.names.issue base).1 = name := congrArg Prod.fst issued
    have isRest : (wiring.names.issue base).2 = next.names := congrArg Prod.snd issued
    rw [← isName, ← isRest]
    exact ⟨rfl, rfl⟩
  have both := before.append last
  constructor
  · rw [List.map_append]
    refine books.nodup.append (List.nodup_singleton _) ?_
    simpa using absent
  · intro entry member
    rcases List.mem_append.mp member with old | new
    · exact books.bases entry old
    · rw [List.mem_singleton.mp new]
      exact isBase
  · exact both.rest
  · intro output other
    rw [← both.labels, List.mem_append, ← books.outputs, brings.output]
    by_cases start : output = edge.start
    · subst start
      simp [unnamed, eq_comm]
    · simp [start]
  · intro input other
    rw [← both.labels, List.mem_append, ← books.inputs]
    simp

/-- Following an edge adds at most one entry to the books. -/
theorem Books.follow
    (books : Books graph first wiring ledger) {name : String}
    (brings : Brings graph wiring edge next name) :
    ∃ ledger, Books graph first next ledger := by
  rcases brings.drawn with ⟨named, names⟩ | ⟨unnamed, base, isBase, issued⟩
  · refine ⟨ledger, books.nodup, books.bases, names ▸ books.supply, ?_, books.inputs⟩
    intro output other
    rw [← books.outputs, brings.output]
    split
    · rename_i start
      rw [start, named]
    · rfl
  · exact ⟨_, books.enter brings unnamed isBase issued⟩

end Wiring

/-! ## The sockets that ask for names -/

section Asking

variable {asks : Node → Socket → Nat → Bool} {nodes : List Node} {base : String}

theorem mem_flatMap_input {id : NodeId} {place : Nat} :
    (.input (id, place), base) ∈ nodes.flatMap (askingSockets asks) ↔
      ∃ node ∈ nodes, node.id = id ∧ ∃ socket, node.inputs[place]? = some socket ∧
        socket.isLinked = false ∧ Instruction.inputBase node.kind.tag socket = base := by
  simp only [List.mem_flatMap, askingSockets, List.mem_append, mem_asking, isFree,
    Bool.not_eq_true', Prod.mk.injEq, Port.input.injEq, reduceCtorEq, false_and, and_false,
    exists_false, or_false]
  constructor
  · rintro ⟨node, member, _, socket, found, free, ⟨isId, rfl⟩, isBase⟩
    exact ⟨node, member, isId, socket, found, free, isBase⟩
  · rintro ⟨node, member, isId, socket, found, free, isBase⟩
    exact ⟨node, member, place, socket, found, free, ⟨isId, rfl⟩, isBase⟩

theorem mem_flatMap_output {id : NodeId} {place : Nat} :
    (.output (id, place), base) ∈ nodes.flatMap (askingSockets asks) ↔
      ∃ node ∈ nodes, node.id = id ∧ ∃ socket, node.outputs[place]? = some socket ∧
        asks node socket place = true ∧ Instruction.outputBase node.kind.tag socket = base := by
  simp only [List.mem_flatMap, askingSockets, List.mem_append, mem_asking, Prod.mk.injEq,
    Port.output.injEq, reduceCtorEq, false_and, and_false, exists_false, false_or]
  constructor
  · rintro ⟨node, member, _, socket, found, asked, ⟨isId, rfl⟩, isBase⟩
    exact ⟨node, member, isId, socket, found, asked, isBase⟩
  · rintro ⟨node, member, isId, socket, found, asked, isBase⟩
    exact ⟨node, member, place, socket, found, asked, ⟨isId, rfl⟩, isBase⟩

/-- No port asks twice for sockets of one side. -/
theorem nodup_asking {port : Nat → Port} (injective : Function.Injective port)
    (base : Socket → String) (asks : Socket → Nat → Bool) (sockets : List Socket) :
    ((asking port base asks 0 sockets).map (·.1)).Nodup := by
  have places := List.pairwise_map.mp (List.nodup_zipIdx_map_snd sockets)
  rw [List.Nodup, List.pairwise_map, asking, List.pairwise_filterMap]
  refine places.imp fun {first second} different entry isEntry other isOther same => different ?_
  rw [Option.ite_none_right_eq_some, Option.some.injEq] at isEntry isOther
  rw [← isEntry.2, ← isOther.2] at same
  exact injective same

/-- The node of a socket. -/
def Port.node : Port → NodeId
  | .input socket => socket.1
  | .output socket => socket.1

theorem node_of_mem_askingSockets
    {node : Node} {port : Port} (member : port ∈ (askingSockets asks node).map (·.1)) :
    port.node = node.id := by
  rw [askingSockets, List.map_append, List.mem_append, List.mem_map, List.mem_map] at member
  rcases member with ⟨entry, asked, rfl⟩ | ⟨entry, asked, rfl⟩ <;>
    rcases mem_asking.mp asked with ⟨place, socket, -, -, rfl⟩ <;> rfl

/-- No port asks twice, for nodes have distinct numbers. -/
theorem nodup_askingSockets (distinct : (nodes.map (·.id)).Nodup) :
    ((nodes.flatMap (askingSockets asks)).map (·.1)).Nodup := by
  rw [List.map_flatMap, List.nodup_flatMap]
  constructor
  · intro node _
    rw [askingSockets, List.map_append]
    refine List.Nodup.append ?_ ?_ ?_
    · exact nodup_asking (fun first second same => by simpa using same) _ _ _
    · exact nodup_asking (fun first second same => by simpa using same) _ _ _
    · intro port input output
      rcases List.mem_map.mp input with ⟨entry, asked, rfl⟩
      rcases List.mem_map.mp output with ⟨other, otherAsked, same⟩
      rcases mem_asking.mp asked with ⟨_, _, -, -, rfl⟩
      rcases mem_asking.mp otherAsked with ⟨_, _, -, -, rfl⟩
      cases same
  · refine (List.pairwise_map.mp distinct).imp fun different port first second => different ?_
    rw [← node_of_mem_askingSockets first, ← node_of_mem_askingSockets second]

end Asking

namespace Wiring

variable {graph : Graph} {final : Wiring} {edges : List Edge} {order : List NodeId}
  {first wiring : Wiring} {ledger : Ledger}

theorem inputBase?_eq_some_iff {input : NodeId × Nat} {base : String} :
    inputBase? graph input = some base ↔
      ∃ node ∈ graph.nodes, node.id = input.1 ∧ ∃ socket, node.inputs[input.2]? = some socket ∧
        Instruction.inputBase node.kind.tag socket = base := by
  simp only [inputBase?, Option.bind_eq_some_iff, node?_eq_some_iff, Option.map_eq_some_iff,
    and_assoc]

theorem outputBase?_eq_some_iff {output : NodeId × Nat} {base : String} :
    outputBase? graph output = some base ↔
      ∃ node ∈ graph.nodes, node.id = output.1 ∧ ∃ socket, node.outputs[output.2]? = some socket ∧
        Instruction.outputBase node.kind.tag socket = base := by
  simp only [outputBase?, Option.bind_eq_some_iff, node?_eq_some_iff, Option.map_eq_some_iff,
    and_assoc]

/-- A port asks for the base that the graph gives it. -/
theorem base?_of_mem
    {asks : Node → Socket → Nat → Bool} {nodes : List Node} {entry : Port × String}
    (inGraph : ∀ node ∈ nodes, node ∈ graph.nodes)
    (member : entry ∈ nodes.flatMap (askingSockets asks)) :
    base? graph entry.1 = some entry.2 := by
  rcases entry with ⟨⟨id, place⟩ | ⟨id, place⟩, base⟩
  · rcases mem_flatMap_input.mp member with ⟨node, listed, isId, socket, found, -, isBase⟩
    exact inputBase?_eq_some_iff.mpr ⟨node, inGraph node listed, isId, socket, found, isBase⟩
  · rcases mem_flatMap_output.mp member with ⟨node, listed, isId, socket, found, -, isBase⟩
    exact outputBase?_eq_some_iff.mpr ⟨node, inGraph node listed, isId, socket, found, isBase⟩

/-- The books open with the free sockets of all nodes. -/
theorem books_setUp (perm : order.Perm graph.nodeIds) :
    Books graph (setUp (order.filterMap graph.node?) {}) (setUp (order.filterMap graph.node?) {})
      ((order.filterMap graph.node?).flatMap freeSockets) := by
  have issues := issues_setUp (order.filterMap graph.node?) {}
  have distinct : order.Nodup :=
    perm.nodup_iff.mpr graph.nodup_nodeIds
  have ids : ((setUp (order.filterMap graph.node?) {}).records.map (·.1)).Nodup := by
    have nothing : followAll graph [] (setUp (order.filterMap graph.node?) {}) =
        .ok (setUp (order.filterMap graph.node?) {}) := rfl
    rw [(map_outline_compose perm nothing).1]
    exact distinct
  constructor
  · apply nodup_askingSockets
    rw [(map_node?_order perm).2]
    exact distinct
  · intro entry member
    exact base?_of_mem (fun node => (filterMap_node?_perm perm).mem_iff.mp) member
  · exact issues.rest
  · intro output name
    rw [← issues.labels, mem_labels_output ids]
  · intro input name
    rw [← issues.labels, mem_labels_input ids]

/-- The books can be kept up to the end. -/
theorem Fits.books_followAll
    (fits : wiring.Fits graph) (books : Books graph first wiring ledger)
    (done : Wiring.followAll graph edges wiring = .ok final) :
    ∃ ledger, Books graph first final ledger := by
  refine fits.followAll_induction (fun current => ∃ ledger, Books graph first current ledger)
    ?_ ⟨ledger, books⟩ done
  rintro current edge next name - brings ⟨before, currentBooks⟩
  exact currentBooks.follow brings

theorem Books.mem_iff (books : Books graph first wiring ledger) {port : Port} {base : String} :
    (port, base) ∈ ledger ↔ base? graph port = some base ∧
      ∃ name, (port, name) ∈ Ledger.answers {} ledger := by
  rw [Ledger.exists_mem_answers_iff]
  constructor
  · intro member
    exact ⟨books.bases _ member, base, member⟩
  · rintro ⟨isBase, other, member⟩
    rw [books.bases _ member, Option.some.injEq] at isBase
    rwa [← isBase]

end Wiring

namespace Graph

open NodeMaterial.NameSupply

variable {graph : Graph} {order : List NodeId} {instructions : List Instruction}

/-- The sockets that ask for a name: those that are not linked, and outputs where edges start. -/
def drawn (graph : Graph) : Ledger :=
  graph.nodes.flatMap (askingSockets fun node socket place =>
    !socket.isLinked || graph.edges.any fun edge => edge.start == (node.id, place))

/-- The name that was made for a socket; an input that edges enter takes one over instead. -/
def madeName (graph : Graph) (find : NodeId → Option Instruction) : Port → Option String
  | .input input =>
      if graph.edges.any fun edge => edge.finish == input then none else nameOfInput find input
  | .output output => nameOfOutput find output

/-- No two sockets have had the same name made. -/
def NamesApart (graph : Graph) (find : NodeId → Option Instruction) : Prop :=
  ∀ first second name, graph.madeName find first = some name →
    graph.madeName find second = some name → first = second

/-- No edge enters an input that is not flagged as linked. -/
def FlagsInputs (graph : Graph) : Prop :=
  ∀ edge ∈ graph.edges, ∀ node ∈ graph.nodes, node.id = edge.target →
    ∀ socket ∈ node.inputs[edge.inSocket]?, socket.isLinked = true

instance (graph : Graph) : Decidable graph.FlagsInputs := by
  unfold FlagsInputs
  infer_instance

section Final

variable {final : Wiring} {ledger : Ledger} (perm : order.Perm graph.nodeIds)
  (done : Wiring.followAll graph (order.flatMap graph.outEdges)
    (Wiring.setUp (order.filterMap graph.node?) {}) = .ok final)
  (books : Wiring.Books graph (Wiring.setUp (order.filterMap graph.node?) {}) final ledger)

include perm done

/-- An output gets a name if it is free or if an edge starts at it. -/
theorem named_output_iff
    {node : Node} (member : node ∈ graph.nodes) {place : Nat} {socket : Socket}
    (found : node.outputs[place]? = some socket) :
    (∃ name, nameOfOutput final.record? (node.id, place) = some name) ↔
      (!socket.isLinked || graph.edges.any fun edge => edge.start == (node.id, place)) = true := by
  have fits := Wiring.fits_setUp (placed_of_perm perm) {}
  have present : node.id ∈ order :=
    placed_of_perm perm _ (contains_of_node? (node?_of_mem member))
  rw [← Option.isSome_iff_exists, fits.isSome_nameOfOutput_followAll done,
    Wiring.output_setUp (placed_of_perm perm) member found, Bool.or_eq_true, List.any_eq_true]
  refine or_congr_right ⟨?_, ?_⟩
  · rintro ⟨edge, followed, start⟩
    exact ⟨edge, (mem_flatMap_outEdges.mp followed).1, by simpa using start⟩
  · rintro ⟨edge, edgeMember, start⟩
    have start : edge.start = (node.id, place) := by simpa using start
    have source : edge.source = node.id := congrArg Prod.fst start
    exact ⟨edge, mem_flatMap_outEdges.mpr ⟨edgeMember, source ▸ present⟩, start⟩

include books

/-- The sockets of the ledger are those that ask for a name. -/
theorem perm_drawn : ledger.Perm graph.drawn := by
  have drawnNodup : (graph.drawn.map (·.1)).Nodup := nodup_askingSockets graph.nodup_nodeIds
  refine (List.perm_ext_iff_of_nodup books.nodup.of_map drawnNodup.of_map).mpr ?_
  rintro ⟨⟨id, place⟩ | ⟨id, place⟩, base⟩
  · rw [books.mem_iff, drawn, mem_flatMap_input, Wiring.base?, Wiring.inputBase?_eq_some_iff]
    simp only [← books.inputs, ← Option.isSome_iff_exists]
    constructor
    · rintro ⟨⟨node, member, rfl, socket, found, isBase⟩, named⟩
      rw [(Wiring.input_setUp (placed_of_perm perm) member found).1, Bool.not_eq_true'] at named
      exact ⟨node, member, rfl, socket, found, named, isBase⟩
    · rintro ⟨node, member, rfl, socket, found, free, isBase⟩
      refine ⟨⟨node, member, rfl, socket, found, isBase⟩, ?_⟩
      rw [(Wiring.input_setUp (placed_of_perm perm) member found).1, free]
      rfl
  · rw [books.mem_iff, drawn, mem_flatMap_output, Wiring.base?, Wiring.outputBase?_eq_some_iff]
    simp only [← books.outputs]
    constructor
    · rintro ⟨⟨node, member, rfl, socket, found, isBase⟩, named⟩
      exact ⟨node, member, rfl, socket, found,
        (named_output_iff perm done member found).mp named, isBase⟩
    · rintro ⟨node, member, rfl, socket, found, asked, isBase⟩
      exact ⟨⟨node, member, rfl, socket, found, isBase⟩,
        (named_output_iff perm done member found).mpr asked⟩

/-- An input that no edge ends at is named for its own sake. -/
theorem madeName_input {input : NodeId × Nat} (unfed : ∀ edge ∈ graph.edges, edge.finish ≠ input) :
    ∀ name, graph.madeName final.record? (.input input) = some name ↔
      (.input input, name) ∈ Ledger.answers {} ledger := by
  intro name
  have fits := Wiring.fits_setUp (placed_of_perm perm) {}
  have none : (graph.edges.any fun edge => edge.finish == input) = false := by
    simpa using unfed
  rw [madeName, none, if_neg Bool.false_ne_true, ← books.inputs,
    fits.nameOfInput_followAll done fun edge followed =>
      unfed edge (mem_flatMap_outEdges.mp followed).1]

/-- Names that were made are answers to the ledger. -/
theorem mem_answers_of_madeName {port : Port} {name : String}
    (made : graph.madeName final.record? port = some name) :
    (port, name) ∈ Ledger.answers {} ledger := by
  cases port with
  | output output => exact (books.outputs output name).mp made
  | input input =>
      have unfed : ∀ edge ∈ graph.edges, edge.finish ≠ input := by
        intro edge member finish
        have fed : (graph.edges.any fun edge => edge.finish == input) = true :=
          List.any_eq_true.mpr ⟨edge, member, by simpa using finish⟩
        rw [madeName, fed, if_pos rfl] at made
        cases made
      exact (madeName_input perm done books unfed name).mp made

/-- A name is made twice only for different bases one of which extends the other. -/
theorem extends_of_madeName {first second : Port} {name : String}
    (firstMade : graph.madeName final.record? first = some name)
    (secondMade : graph.madeName final.record? second = some name) (different : first ≠ second) :
    ∃ firstBase secondBase, Wiring.base? graph first = some firstBase ∧
      Wiring.base? graph second = some secondBase ∧ firstBase ≠ secondBase ∧
      (Extends firstBase secondBase ∨ Extends secondBase firstBase) := by
  rcases Ledger.mem_answers.mp (mem_answers_of_madeName perm done books firstMade) with
    ⟨firstPlace, firstBase, firstFound, firstName⟩
  rcases Ledger.mem_answers.mp (mem_answers_of_madeName perm done books secondMade) with
    ⟨secondPlace, secondBase, secondFound, secondName⟩
  have firstAt := Ledger.getElem?_bases firstFound
  have secondAt := Ledger.getElem?_bases secondFound
  refine ⟨firstBase, secondBase, books.bases _ (List.mem_of_getElem? firstFound),
    books.bases _ (List.mem_of_getElem? secondFound), ?_, ?_⟩
  · rintro rfl
    have same := eq_of_issueAll_eq firstAt secondAt (firstName.trans secondName.symm)
    rw [same, secondFound] at firstFound
    cases firstFound
    exact different rfl
  · rw [getElem?_issueAll_empty firstAt] at firstName
    rw [getElem?_issueAll_empty secondAt] at secondName
    exact extends_of_spell_eq (Option.some.inj (firstName.trans secondName.symm))

/-- Separate bases lead to names that are apart. -/
theorem namesApart_of_separate (separate : Separate graph.drawn.bases) :
    graph.NamesApart final.record? := by
  have nodup : (issueAll {} ledger.bases).1.Nodup := by
    rw [nodup_issueAll_iff]
    exact separate.perm ((perm_drawn perm done books).map _).symm
  intro first second name firstMade secondMade
  rcases Ledger.mem_answers.mp (mem_answers_of_madeName perm done books firstMade) with
    ⟨firstPlace, firstBase, firstFound, firstName⟩
  rcases Ledger.mem_answers.mp (mem_answers_of_madeName perm done books secondMade) with
    ⟨secondPlace, secondBase, secondFound, secondName⟩
  have same := (List.getElem?_inj (List.getElem?_eq_some_iff.mp firstName).1 nodup).mp
    (firstName.trans secondName.symm)
  rw [same, secondFound] at firstFound
  cases firstFound
  rfl

/-- Unless an edge has taken an input over, answers to the ledger are names that were made. -/
theorem madeName_of_mem_answers (flags : graph.FlagsInputs) {port : Port} {name : String}
    (answered : (port, name) ∈ Ledger.answers {} ledger) :
    graph.madeName final.record? port = some name := by
  cases port with
  | output output => exact (books.outputs output name).mpr answered
  | input input =>
      refine (madeName_input perm done books ?_ name).mpr answered
      rintro edge member rfl
      rcases (Ledger.exists_mem_answers_iff {}).mp ⟨name, answered⟩ with ⟨base, entered⟩
      have asked := (perm_drawn perm done books).mem_iff.mp entered
      rcases mem_flatMap_input.mp asked with ⟨node, inGraph, isTarget, socket, found, free, -⟩
      rw [flags edge member node inGraph isTarget socket found] at free
      cases free

/-- Names that are apart come from separate bases. -/
theorem separate_of_namesApart (flags : graph.FlagsInputs)
    (apart : graph.NamesApart final.record?) : Separate graph.drawn.bases := by
  refine Separate.perm ((perm_drawn perm done books).map _) ?_
  change Separate ledger.bases
  rw [← nodup_issueAll_iff, List.nodup_iff_getElem?_ne_getElem?]
  intro first second less inRange same
  have secondName := List.getElem?_eq_getElem inRange
  have firstName := same.trans secondName
  rw [length_issueAll, Ledger.bases, List.length_map] at inRange
  have firstFound := List.getElem?_eq_getElem (Nat.lt_trans less inRange)
  have secondFound := List.getElem?_eq_getElem inRange
  have samePort := apart _ _ _
    (madeName_of_mem_answers perm done books flags
      (Ledger.mem_answers.mpr ⟨first, _, firstFound, firstName⟩))
    (madeName_of_mem_answers perm done books flags
      (Ledger.mem_answers.mpr ⟨second, _, secondFound, secondName⟩))
  have nodup := books.nodup
  rw [List.nodup_iff_getElem?_ne_getElem?] at nodup
  apply nodup first second less (by simpa using inRange)
  rw [List.getElem?_map, List.getElem?_map, firstFound, secondFound]
  exact congrArg some samePort

end Final

/--
Two sockets of a composed graph have had one name made only if their bases differ and one
extends the other.  All names that were made differ if the bases are separate; where no
edge has taken over an input that had a name, they differ only then.
-/
theorem composed_names_apart {instructions : List Instruction}
    (composed : graph.compose = .ok instructions) :
    ∃ order, graph.topologicalOrder = .ok order ∧
      (∀ first second name, first ≠ second →
        graph.madeName (instructionAt order instructions) first = some name →
        graph.madeName (instructionAt order instructions) second = some name →
        ∃ firstBase secondBase, Wiring.base? graph first = some firstBase ∧
          Wiring.base? graph second = some secondBase ∧ firstBase ≠ secondBase ∧
          (Extends firstBase secondBase ∨ Extends secondBase firstBase)) ∧
      (Separate graph.drawn.bases → graph.NamesApart (instructionAt order instructions)) ∧
      (graph.FlagsInputs → graph.NamesApart (instructionAt order instructions) →
        Separate graph.drawn.bases) := by
  rcases compose_eq_ok composed with ⟨order, final, ordered, perm, done, rfl⟩
  have fits := Wiring.fits_setUp (placed_of_perm perm) {}
  rcases fits.books_followAll (Wiring.books_setUp perm) done with ⟨ledger, books⟩
  have lookup := instructionAt_records final
  rw [(map_outline_compose perm done).1] at lookup
  refine ⟨order, ordered, ?_⟩
  rw [lookup]
  refine ⟨?_, ?_, ?_⟩
  · intro first second name different firstMade secondMade
    exact extends_of_madeName perm done books firstMade secondMade different
  · exact namesApart_of_separate perm done books
  · exact separate_of_namesApart perm done books

/-- Two values of one base feed a sum, and two more sockets ask for names. -/
theorem composed_names_apart_doubleFed :
    ∃ instructions, doubleFed.compose = .ok instructions ∧ doubleFed.FlagsInputs ∧
      doubleFed.drawn.bases =
        ["out_VALUE_Value", "out_VALUE_Value", "in_MATH_ADD_Value_001", "out_MATH_ADD_Value"] ∧
      Separate doubleFed.drawn.bases ∧
      doubleFed.NamesApart (instructionAt [1, 2, 3, 0] instructions) := by
  have composes : ∃ instructions, doubleFed.compose = .ok instructions := by
    cases composed : doubleFed.compose with
    | ok instructions => exact ⟨instructions, rfl⟩
    | error violation =>
        have succeeds : doubleFed.compose.isOk = true := by decide +kernel
        rw [composed] at succeeds
        cases succeeds
  rcases composes with ⟨instructions, composed⟩
  have separate : Separate doubleFed.drawn.bases := by decide +kernel
  rcases composed_names_apart composed with ⟨order, ordered, -, apart, -⟩
  have isOrder : doubleFed.topologicalOrder = .ok [1, 2, 3, 0] := by decide +kernel
  rw [isOrder, Except.ok.injEq] at ordered
  subst ordered
  exact ⟨instructions, composed, by decide +kernel, by decide +kernel, separate, apart separate⟩

end Graph

/-- Two inputs without links whose identifiers differ in a blank and a slash. -/
def blankAndSlash : Authored.Tree :=
  { nodes :=
      [{ name := "Out", type := "OUTPUT",
         inputs := [.titled "Base Color" false .zero, .titled "Base/Color" false .zero] }] }

/-- Both inputs get the same name. -/
theorem blankAndSlash_share_name :
    (blankAndSlash.compile {}).1.map (fun graph => (graph.edges, graph.compose)) =
      .ok ([], .ok
        [{ tag := "OUTPUT"
           inputs :=
             [⟨some "in_OUTPUT_Base_Color0", some "0.0"⟩,
              ⟨some "in_OUTPUT_Base_Color0", some "0.0"⟩]
           outputs := []
           params := []
           vertexParams := [] }]) := by
  decide +kernel

end NodeMaterial
