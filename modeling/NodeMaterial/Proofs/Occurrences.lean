import NodeMaterial.Graph.EdgeBag

/-!
# The occurrences of a bag of edges

A bag stores counted edges in order.  This module describes it by the list of its
occurrences: what an addition does to that list, and that the views which the
bag computes from its entries are filters of that list.  That the block of the
edges that leave a node is found by cutting at its ends rests on the order of the
entries.
-/

namespace NodeMaterial.EdgeBag

theorem expand_cons
    (entry : Edge × Nat) (entries : List (Edge × Nat)) :
    expand (entry :: entries) = List.replicate entry.2 entry.1 ++ expand entries := by
  simp [expand]

/-- An addition adds one occurrence. -/
theorem expand_addTo
    (edge : Edge) (entries : List (Edge × Nat)) :
    (expand (addTo edge entries)).Perm (edge :: expand entries) := by
  induction entries with
  | nil => simp [addTo, expand]
  | cons head rest induction =>
      rcases head with ⟨other, count⟩
      simp only [addTo]
      split
      · rename_i same
        subst same
        simp [expand_cons, List.replicate_succ]
      · split
        · simp [expand_cons]
        · simp only [expand_cons]
          exact (induction.append_left _).trans List.perm_middle

/-- A filter keeps or drops all occurrences of an edge. -/
theorem expand_filter
    (keeps : Edge → Bool) (entries : List (Edge × Nat)) :
    expand (entries.filter fun entry => keeps entry.1) = (expand entries).filter keeps := by
  induction entries with
  | nil => rfl
  | cons head rest induction =>
      rw [expand_cons, List.filter_append, List.filter_replicate, ← induction]
      by_cases kept : keeps head.1 = true
      · rw [List.filter_cons_of_pos (by exact kept), expand_cons, if_pos kept]
      · rw [List.filter_cons_of_neg (by exact kept), if_neg kept, List.nil_append]

/-- A removal takes out one occurrence, if there is one. -/
theorem expand_removeFrom
    (edge : Edge) {entries : List (Edge × Nat)} (positive : Edge.Positive entries) :
    expand (removeFrom edge entries) = (expand entries).erase edge := by
  induction entries with
  | nil => rfl
  | cons head rest induction =>
      obtain ⟨headPositive, restPositive⟩ := List.forall_mem_cons.mp positive
      rcases head with ⟨other, count⟩
      obtain ⟨fewer, rfl⟩ : ∃ fewer, count = fewer + 1 := Nat.exists_eq_add_one.mpr headPositive
      simp only [removeFrom]
      split
      · rename_i same
        subst same
        rw [expand_cons, List.replicate_succ, List.cons_append, List.erase_cons_head]
        split
        · rw [expand_cons]
          rfl
        · rename_i single
          have none : fewer = 0 := by omega
          simp [none]
      · rename_i different
        have away : edge ∉ List.replicate (fewer + 1) other :=
          fun member => different (List.eq_of_mem_replicate member)
        rw [expand_cons, expand_cons, List.erase_append_right _ away, induction restPositive]

theorem occurrences_add (bag : EdgeBag) (edge : Edge) :
    (bag.add edge).occurrences.Perm (edge :: bag.occurrences) :=
  expand_addTo edge bag.entries

theorem occurrences_remove (bag : EdgeBag) (edge : Edge) :
    (bag.remove edge).occurrences = bag.occurrences.erase edge :=
  expand_removeFrom edge bag.positive

@[simp]
theorem occurrences_filter (bag : EdgeBag) (keeps : Edge → Bool) :
    (bag.filter keeps).occurrences = bag.occurrences.filter keeps :=
  expand_filter keeps bag.entries

/-- The edges that occur are the edges of the entries. -/
theorem mem_occurrences {bag : EdgeBag} {edge : Edge} :
    edge ∈ bag.occurrences ↔ ∃ entry ∈ bag.entries, entry.1 = edge := by
  simp only [occurrences, expand, List.mem_flatMap, List.mem_replicate]
  constructor
  · rintro ⟨entry, member, -, same⟩
    exact ⟨entry, member, same.symm⟩
  · rintro ⟨entry, member, same⟩
    exact ⟨entry, member, Nat.ne_of_gt (bag.positive entry member), same.symm⟩

/-- Sources do not descend along the entries. -/
theorem source_le_of_before {first second : Edge} (before : first.before second) :
    first.source ≤ second.source := by
  simp only [Edge.before, Bool.or_eq_true, Bool.and_eq_true, decide_eq_true_eq,
    beq_iff_eq] at before
  lia

/-- Entries whose sources are all larger hold no edge of a node. -/
theorem filter_source_eq_nil
    {node : NodeId} {entries : List (Edge × Nat)}
    (larger : ∀ entry ∈ entries, node < entry.1.source) :
    (entries.filter fun entry => entry.1.source == node) = [] := by
  rw [List.filter_eq_nil_iff]
  intro entry member same
  rw [beq_iff_eq] at same
  exact absurd (larger entry member) (by lia)

/-- In ordered entries the edges that leave a node form one block. -/
theorem takeWhile_dropWhile_eq_filter
    (node : NodeId) {entries : List (Edge × Nat)}
    (ascending : Edge.Ascending entries) :
    ((entries.dropWhile fun entry => decide (entry.1.source < node)).takeWhile
        fun entry => entry.1.source == node) =
      entries.filter fun entry => entry.1.source == node := by
  induction entries with
  | nil => rfl
  | cons head rest induction =>
      rcases List.pairwise_cons.mp ascending with ⟨headFirst, restAscending⟩
      have headLeast : ∀ entry ∈ rest, head.1.source ≤ entry.1.source :=
        fun entry member => source_le_of_before (headFirst entry member)
      rcases Nat.lt_trichotomy head.1.source node with smaller | equal | larger
      · rw [List.dropWhile_cons_of_pos (by simpa using smaller),
          List.filter_cons_of_neg (by simpa using Nat.ne_of_lt smaller)]
        exact induction restAscending
      · -- The block starts here; behind it nothing is skipped any more.
        have restStays :
            (rest.dropWhile fun entry => decide (entry.1.source < node)) = rest := by
          cases rest with
          | nil => rfl
          | cons second others =>
              refine List.dropWhile_cons_of_neg ?_
              simpa [← equal] using headLeast second (by simp)
        rw [List.dropWhile_cons_of_neg (by simp [equal]),
          List.takeWhile_cons_of_pos (by simp [equal]),
          List.filter_cons_of_pos (by simp [equal]),
          ← induction restAscending, restStays]
      · rw [List.dropWhile_cons_of_neg (by simpa using Nat.le_of_lt larger),
          List.takeWhile_cons_of_neg (by simpa using Nat.ne_of_gt larger)]
        refine (filter_source_eq_nil fun entry member => ?_).symm
        rcases List.mem_cons.mp member with same | later
        · rw [same]
          exact larger
        · exact Nat.lt_of_lt_of_le larger (headLeast entry later)

theorem block_eq_filter (bag : EdgeBag) (node : NodeId) :
    bag.block node = bag.entries.filter fun entry => entry.1.source == node :=
  takeWhile_dropWhile_eq_filter node bag.ascending

theorem leaving_eq_filter (bag : EdgeBag) (node : NodeId) :
    bag.leaving node = bag.occurrences.filter (·.source == node) := by
  rw [leaving, block_eq_filter]
  exact expand_filter (·.source == node) bag.entries

theorem entering_eq_filter (bag : EdgeBag) (node : NodeId) :
    bag.entering node = bag.occurrences.filter (·.target == node) :=
  expand_filter (·.target == node) bag.entries

/-! ## Bags and their occurrences -/

theorem not_before_self (edge : Edge) : ¬ edge.before edge := by
  simp [Edge.before]

theorem mem_expand {entries : List (Edge × Nat)} {edge : Edge} (member : edge ∈ expand entries) :
    ∃ entry ∈ entries, entry.1 = edge := by
  simp only [expand, List.mem_flatMap, List.mem_replicate] at member
  rcases member with ⟨entry, entryMember, -, same⟩
  exact ⟨entry, entryMember, same.symm⟩

/-- The edge of the first entry does not occur behind it. -/
theorem head_not_mem_expand
    {head : Edge × Nat} {rest : List (Edge × Nat)}
    (headFirst : ∀ entry ∈ rest, head.1.before entry.1) :
    head.1 ∉ expand rest := by
  intro member
  rcases mem_expand member with ⟨entry, entryMember, same⟩
  exact not_before_self head.1 (same ▸ headFirst entry entryMember)

theorem count_expand_cons (edge : Edge) (head : Edge × Nat) (rest : List (Edge × Nat)) :
    (expand (head :: rest)).count edge =
      (if head.1 = edge then head.2 else 0) + (expand rest).count edge := by
  simp [expand_cons, List.count_replicate]

/-- How often an edge occurs is how often it is listed. -/
theorem multiplicity_eq_count (bag : EdgeBag) (edge : Edge) :
    bag.multiplicity edge = bag.occurrences.count edge := by
  have counted : ∀ entries, Edge.Ascending entries →
      ((entries.find? (·.1 == edge)).map (·.2)).getD 0 = (expand entries).count edge := by
    intro entries ascending
    induction entries with
    | nil => rfl
    | cons head rest induction =>
        rcases List.pairwise_cons.mp ascending with ⟨headFirst, restAscending⟩
        rw [count_expand_cons]
        by_cases same : head.1 = edge
        · have absent : (expand rest).count edge = 0 :=
            List.count_eq_zero.mpr (same ▸ head_not_mem_expand headFirst)
          rw [List.find?_cons_of_pos (by simpa using same), if_pos same, absent]
          rfl
        · rw [List.find?_cons_of_neg (by simpa using same), if_neg same, Nat.zero_add]
          exact induction restAscending
  exact counted bag.entries bag.ascending

/-- The size of a bag is the number of its occurrences. -/
theorem size_eq_length (bag : EdgeBag) : bag.size = bag.occurrences.length := by
  have summed : ∀ entries : List (Edge × Nat), ∀ total,
      entries.foldl (fun total entry => total + entry.2) total =
        total + (expand entries).length := by
    intro entries
    induction entries with
    | nil => exact fun total => rfl
    | cons head rest induction =>
        intro total
        rw [List.foldl_cons, induction, expand_cons, List.length_append, List.length_replicate,
          Nat.add_assoc]
  exact (summed bag.entries 0).trans (Nat.zero_add _)

/-- Occurrences are listed in order. -/
theorem occurrences_ascending (bag : EdgeBag) :
    bag.occurrences.Pairwise fun first second => first = second ∨ first.before second := by
  have sorted : ∀ entries, Edge.Ascending entries →
      (expand entries).Pairwise fun first second => first = second ∨ first.before second := by
    intro entries ascending
    induction entries with
    | nil => exact .nil
    | cons head rest induction =>
        rcases List.pairwise_cons.mp ascending with ⟨headFirst, restAscending⟩
        rw [expand_cons]
        refine List.pairwise_append.mpr ⟨?_, induction restAscending, ?_⟩
        · exact List.pairwise_replicate.mpr (Or.inr (Or.inl rfl))
        · intro first firstMember second secondMember
          rcases mem_expand secondMember with ⟨entry, entryMember, rfl⟩
          rw [(List.mem_replicate.mp firstMember).2]
          exact Or.inr (headFirst entry entryMember)
  exact sorted bag.entries bag.ascending

/-- Entries with the same occurrences are the same. -/
theorem entries_eq_of_count_eq
    {first second : List (Edge × Nat)}
    (firstAscending : Edge.Ascending first) (firstPositive : Edge.Positive first)
    (secondAscending : Edge.Ascending second) (secondPositive : Edge.Positive second)
    (same : ∀ edge, (expand first).count edge = (expand second).count edge) :
    first = second := by
  induction first generalizing second with
  | nil =>
      cases second with
      | nil => rfl
      | cons head rest =>
          have occurs := same head.1
          have positive := secondPositive head List.mem_cons_self
          rw [count_expand_cons, if_pos rfl] at occurs
          simp [expand] at occurs
          lia
  | cons head rest induction =>
      have headPositive := firstPositive head List.mem_cons_self
      rcases List.pairwise_cons.mp firstAscending with ⟨headFirst, restAscending⟩
      cases second with
      | nil =>
          have occurs := same head.1
          rw [count_expand_cons, if_pos rfl] at occurs
          simp [expand] at occurs
          lia
      | cons other others =>
          have otherPositive := secondPositive other List.mem_cons_self
          rcases List.pairwise_cons.mp secondAscending with ⟨otherFirst, othersAscending⟩
          have headOccurs := same head.1
          have otherOccurs := same other.1
          rw [count_expand_cons, if_pos rfl, count_expand_cons] at headOccurs
          rw [count_expand_cons, count_expand_cons, if_pos rfl] at otherOccurs
          have headAbsent : (expand rest).count head.1 = 0 :=
            List.count_eq_zero.mpr (head_not_mem_expand headFirst)
          have otherAbsent : (expand others).count other.1 = 0 :=
            List.count_eq_zero.mpr (head_not_mem_expand otherFirst)
          -- Were the first edges different, each would have to be behind the other.
          have sameEdge : head.1 = other.1 := by
            refine Decidable.byContradiction fun different => ?_
            rw [if_neg (Ne.symm different)] at headOccurs
            rw [if_neg different] at otherOccurs
            have headLater : head.1 ∈ expand others := List.count_pos_iff.mp (by lia)
            have otherLater : other.1 ∈ expand rest := List.count_pos_iff.mp (by lia)
            rcases mem_expand headLater with ⟨entry, entryMember, entryIs⟩
            rcases mem_expand otherLater with ⟨entry', entryMember', entryIs'⟩
            have forth := otherFirst entry entryMember
            have back := headFirst entry' entryMember'
            rw [entryIs] at forth
            rw [entryIs'] at back
            exact not_before_self _ (Edge.before_trans forth back)
          rw [if_pos sameEdge.symm, headAbsent, sameEdge, otherAbsent] at headOccurs
          have sameEntry : head = other := Prod.ext sameEdge (by lia)
          subst sameEntry
          congr 1
          apply induction restAscending (List.forall_mem_cons.mp firstPositive).2
            othersAscending (List.forall_mem_cons.mp secondPositive).2
          intro edge
          have occurs := same edge
          rw [count_expand_cons, count_expand_cons] at occurs
          lia

/-- A bag is known by its occurrences, in any order. -/
theorem eq_of_perm {first second : EdgeBag}
    (same : first.occurrences.Perm second.occurrences) : first = second := by
  have sameEntries : first.entries = second.entries := by
    apply entries_eq_of_count_eq first.ascending first.positive second.ascending second.positive
    exact fun edge => same.count_eq edge
  cases first
  cases second
  simpa using sameEntries

end NodeMaterial.EdgeBag
