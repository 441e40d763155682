/-!
# Edges and bags of edges

An edge leads from an output socket of one node to an input socket of another.
The same edge may occur several times, so a graph holds a bag of edges: a list of
distinct edges in order, each with the number of its occurrences.

The order compares sources, then targets, then output sockets, then input
sockets.  The edges that leave a node therefore stand next to each other.  A bag
carries the proof that it is in order and that every edge in it occurs.
-/

namespace NodeMaterial

/-- Nodes are known by the number under which they were added. -/
abbrev NodeId := Nat

/-- An edge from an output socket of a node to an input socket of a node. -/
structure Edge where
  source : NodeId
  target : NodeId
  outSocket : Nat
  inSocket : Nat
  deriving DecidableEq, Repr

namespace Edge

/-- The strict order of edges. -/
def before (first second : Edge) : Bool :=
  decide (first.source < second.source) ||
  (first.source == second.source &&
    (decide (first.target < second.target) ||
    (first.target == second.target &&
      (decide (first.outSocket < second.outSocket) ||
      (first.outSocket == second.outSocket && decide (first.inSocket < second.inSocket))))))

/-- Whether a node is at one of the ends of an edge. -/
def touches (edge : Edge) (node : NodeId) : Bool :=
  edge.source == node || edge.target == node

/-- An edge in writing, such as `n0[1] -> n2[0]`. -/
def text (edge : Edge) : String :=
  "n" ++ toString edge.source ++ "[" ++ toString edge.outSocket ++ "] -> n" ++
    toString edge.target ++ "[" ++ toString edge.inSocket ++ "]"

/-- The order of edges is that of four numbers compared one after the other. -/
theorem before_trans
    {first second third : Edge}
    (left : first.before second) (right : second.before third) :
    first.before third := by
  simp only [before, Bool.or_eq_true, Bool.and_eq_true, decide_eq_true_eq, beq_iff_eq] at *
  lia

/-- Of two different edges one is before the other. -/
theorem before_of_not_before
    {first second : Edge}
    (different : first ≠ second) (notBefore : ¬ first.before second) :
    second.before first := by
  cases first
  cases second
  grind [before]

/-- Entries in ascending order of their edges. -/
abbrev Ascending (entries : List (Edge × Nat)) : Prop :=
  entries.Pairwise fun first second => first.1.before second.1

/-- Entries that occur. -/
abbrev Positive (entries : List (Edge × Nat)) : Prop :=
  ∀ entry ∈ entries, 0 < entry.2

end Edge

/-- Distinct edges in ascending order with positive numbers of occurrences. -/
structure EdgeBag where
  entries : List (Edge × Nat)
  ascending : Edge.Ascending entries
  positive : Edge.Positive entries
  deriving DecidableEq, Repr

namespace EdgeBag

/-- The bag without edges. -/
def empty : EdgeBag := ⟨[], .nil, by simp⟩

/-- Adds an occurrence of an edge to ordered entries. -/
def addTo (edge : Edge) : List (Edge × Nat) → List (Edge × Nat)
  | [] => [(edge, 1)]
  | (other, count) :: entries =>
      if edge = other then
        (other, count + 1) :: entries
      else if edge.before other then
        (edge, 1) :: (other, count) :: entries
      else
        (other, count) :: addTo edge entries

/-- Takes an occurrence of an edge out of entries. -/
def removeFrom (edge : Edge) : List (Edge × Nat) → List (Edge × Nat)
  | [] => []
  | (other, count) :: entries =>
      if edge = other then
        if 1 < count then (other, count - 1) :: entries else entries
      else
        (other, count) :: removeFrom edge entries

/-- An entry after an addition is the added edge or was there before. -/
theorem fst_mem_addTo
    {edge : Edge} {entries : List (Edge × Nat)} {entry : Edge × Nat}
    (member : entry ∈ addTo edge entries) :
    entry.1 = edge ∨ ∃ old ∈ entries, old.1 = entry.1 := by
  induction entries with
  | nil =>
      simp only [addTo, List.mem_singleton] at member
      exact Or.inl (congrArg Prod.fst member)
  | cons head rest induction =>
      simp only [addTo] at member
      split at member
      · rcases List.mem_cons.mp member with same | later
        · exact Or.inr ⟨head, by simp, by simp [same]⟩
        · exact Or.inr ⟨entry, by simp [later], rfl⟩
      · split at member
        · rcases List.mem_cons.mp member with same | later
          · exact Or.inl (congrArg Prod.fst same)
          · exact Or.inr ⟨entry, later, rfl⟩
        · rcases List.mem_cons.mp member with same | later
          · exact Or.inr ⟨head, by simp, by simp [same]⟩
          · rcases induction later with new | ⟨old, oldMember, oldEdge⟩
            · exact Or.inl new
            · exact Or.inr ⟨old, by simp [oldMember], oldEdge⟩

/-- Adding an occurrence keeps the entries in ascending order. -/
theorem ascending_addTo
    (edge : Edge) {entries : List (Edge × Nat)}
    (ascending : Edge.Ascending entries) :
    Edge.Ascending (addTo edge entries) := by
  induction entries with
  | nil => simp [addTo]
  | cons head rest induction =>
      obtain ⟨headFirst, restAscending⟩ := List.pairwise_cons.mp ascending
      simp only [addTo]
      split
      · exact List.pairwise_cons.mpr ⟨headFirst, restAscending⟩
      · rename_i different
        split
        · rename_i earlier
          refine List.pairwise_cons.mpr ⟨fun entry member => ?_, ascending⟩
          rcases List.mem_cons.mp member with same | later
          · simpa [same] using earlier
          · exact Edge.before_trans earlier (headFirst entry later)
        · rename_i notEarlier
          refine List.pairwise_cons.mpr
            ⟨fun entry member => ?_, induction restAscending⟩
          rcases fst_mem_addTo member with new | ⟨old, oldMember, oldEdge⟩
          · rw [new]
            exact Edge.before_of_not_before different notEarlier
          · rw [← oldEdge]
            exact headFirst old oldMember

/-- Adding an occurrence leaves no entry that occurs zero times. -/
theorem positive_addTo
    (edge : Edge) {entries : List (Edge × Nat)}
    (positive : Edge.Positive entries) :
    Edge.Positive (addTo edge entries) := by
  induction entries with
  | nil => simp [addTo, Edge.Positive]
  | cons head rest induction =>
      obtain ⟨headPositive, restPositive⟩ := List.forall_mem_cons.mp positive
      simp only [addTo]
      split
      · exact List.forall_mem_cons.mpr ⟨Nat.succ_pos _, restPositive⟩
      · split
        · exact List.forall_mem_cons.mpr ⟨Nat.one_pos, positive⟩
        · exact List.forall_mem_cons.mpr ⟨headPositive, induction restPositive⟩

/-- What is left after a removal was there before. -/
theorem fst_mem_removeFrom
    {edge : Edge} {entries : List (Edge × Nat)} {entry : Edge × Nat}
    (member : entry ∈ removeFrom edge entries) :
    ∃ old ∈ entries, old.1 = entry.1 := by
  induction entries with
  | nil => simp [removeFrom] at member
  | cons head rest induction =>
      simp only [removeFrom] at member
      split at member
      · split at member
        · rcases List.mem_cons.mp member with same | later
          · exact ⟨head, by simp, by simp [same]⟩
          · exact ⟨entry, by simp [later], rfl⟩
        · exact ⟨entry, by simp [member], rfl⟩
      · rcases List.mem_cons.mp member with same | later
        · exact ⟨head, by simp, by simp [same]⟩
        · obtain ⟨old, oldMember, oldEdge⟩ := induction later
          exact ⟨old, by simp [oldMember], oldEdge⟩

/-- Removing an occurrence keeps the entries in ascending order. -/
theorem ascending_removeFrom
    (edge : Edge) {entries : List (Edge × Nat)}
    (ascending : Edge.Ascending entries) :
    Edge.Ascending (removeFrom edge entries) := by
  induction entries with
  | nil => simp [removeFrom]
  | cons head rest induction =>
      obtain ⟨headFirst, restAscending⟩ := List.pairwise_cons.mp ascending
      simp only [removeFrom]
      split
      · split
        · exact List.pairwise_cons.mpr ⟨headFirst, restAscending⟩
        · exact restAscending
      · refine List.pairwise_cons.mpr
          ⟨fun entry member => ?_, induction restAscending⟩
        obtain ⟨old, oldMember, oldEdge⟩ := fst_mem_removeFrom member
        rw [← oldEdge]
        exact headFirst old oldMember

/-- Removing an occurrence drops an entry rather than let it occur zero times. -/
theorem positive_removeFrom
    (edge : Edge) {entries : List (Edge × Nat)}
    (positive : Edge.Positive entries) :
    Edge.Positive (removeFrom edge entries) := by
  induction entries with
  | nil => simp [removeFrom, Edge.Positive]
  | cons head rest induction =>
      obtain ⟨headPositive, restPositive⟩ := List.forall_mem_cons.mp positive
      simp only [removeFrom]
      split
      · split
        · rename_i several
          exact List.forall_mem_cons.mpr ⟨Nat.sub_pos_of_lt several, restPositive⟩
        · exact restPositive
      · exact List.forall_mem_cons.mpr ⟨headPositive, induction restPositive⟩

/-- A bag with one more occurrence of an edge. -/
def add (bag : EdgeBag) (edge : Edge) : EdgeBag :=
  ⟨addTo edge bag.entries, ascending_addTo edge bag.ascending, positive_addTo edge bag.positive⟩

/-- A bag with one occurrence less of an edge, if it has any. -/
def remove (bag : EdgeBag) (edge : Edge) : EdgeBag :=
  ⟨removeFrom edge bag.entries, ascending_removeFrom edge bag.ascending,
    positive_removeFrom edge bag.positive⟩

/-- Keeps all occurrences of the edges that pass a test. -/
def filter (bag : EdgeBag) (keeps : Edge → Bool) : EdgeBag :=
  ⟨bag.entries.filter fun entry => keeps entry.1, bag.ascending.filter _,
    fun entry member => bag.positive entry (List.mem_filter.mp member).1⟩

/-- How often an edge occurs. -/
def multiplicity (bag : EdgeBag) (edge : Edge) : Nat :=
  ((bag.entries.find? (·.1 == edge)).map (·.2)).getD 0

/-- The occurrences of entries, one after the other. -/
def expand (entries : List (Edge × Nat)) : List Edge :=
  entries.flatMap fun (edge, count) => List.replicate count edge

/-- All occurrences in order. -/
def occurrences (bag : EdgeBag) : List Edge :=
  expand bag.entries

/-- The number of occurrences. -/
def size (bag : EdgeBag) : Nat :=
  bag.entries.foldl (fun total entry => total + entry.2) 0

/-- The entries of the edges that leave a node, which stand next to each other. -/
def block (bag : EdgeBag) (node : NodeId) : List (Edge × Nat) :=
  (bag.entries.dropWhile fun entry => decide (entry.1.source < node)).takeWhile
    fun entry => entry.1.source == node

/-- The occurrences of the edges that leave a node. -/
def leaving (bag : EdgeBag) (node : NodeId) : List Edge :=
  expand (bag.block node)

/-- The occurrences of the edges that enter a node. -/
def entering (bag : EdgeBag) (node : NodeId) : List Edge :=
  expand <| bag.entries.filter fun entry => entry.1.target == node

end EdgeBag

end NodeMaterial
