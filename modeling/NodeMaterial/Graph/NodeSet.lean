import NodeMaterial.Graph.EdgeBag

/-!
# Sets and tables of node numbers

A set of numbers is a list in ascending order.  A table keeps a value for each of
some numbers; a number that is new to a table comes behind the others.
-/

namespace NodeMaterial

namespace NodeSet

/-- Puts a number in its place in an ascending list, unless it is there. -/
def insert (id : NodeId) : List NodeId → List NodeId
  | [] => [id]
  | first :: others =>
      if id < first then id :: first :: others
      else if id = first then first :: others
      else first :: insert id others

/-- The set of the numbers in a list. -/
def ofList (ids : List NodeId) : List NodeId :=
  ids.foldl (fun set id => insert id set) []

@[simp]
theorem mem_insert {id other : NodeId} {set : List NodeId} :
    id ∈ insert other set ↔ id = other ∨ id ∈ set := by
  induction set with
  | nil => simp [insert]
  | cons first others induction =>
      simp only [insert]
      split
      · exact List.mem_cons
      · split
        · rename_i same
          rw [same, List.mem_cons, ← or_assoc, or_self]
        · rw [List.mem_cons, List.mem_cons, induction, or_left_comm]

theorem length_insert_le (id : NodeId) (set : List NodeId) :
    (insert id set).length ≤ set.length + 1 := by
  induction set with
  | nil => simp [insert]
  | cons first others induction =>
      simp only [insert]
      split
      · simp
      · split
        · simp
        · simpa using induction

/-- A number is put at its place, so the set stays ascending and without duplicates. -/
theorem ascending_insert {set : List NodeId} (id : NodeId) (ascending : set.Pairwise (· < ·)) :
    (insert id set).Pairwise (· < ·) := by
  induction set with
  | nil => exact List.pairwise_singleton _ id
  | cons first others induction =>
      obtain ⟨least, behind⟩ := List.pairwise_cons.mp ascending
      simp only [insert]
      split
      · rename_i less
        refine List.pairwise_cons.mpr ⟨fun other member => ?_, ascending⟩
        rcases List.mem_cons.mp member with rfl | later
        · exact less
        · exact Nat.lt_trans less (least other later)
      · split
        · exact ascending
        · refine List.pairwise_cons.mpr ⟨fun other member => ?_, induction behind⟩
          rcases mem_insert.mp member with rfl | later
          · lia
          · exact least other later

theorem mem_foldl_insert {id : NodeId} {ids set : List NodeId} :
    id ∈ ids.foldl (fun set id => insert id set) set ↔ id ∈ ids ∨ id ∈ set := by
  induction ids generalizing set with
  | nil => simp
  | cons first others induction =>
      rw [List.foldl_cons, induction, mem_insert, List.mem_cons, or_left_comm, or_assoc]

@[simp]
theorem mem_ofList {id : NodeId} {ids : List NodeId} : id ∈ ofList ids ↔ id ∈ ids := by
  simp [ofList, mem_foldl_insert]

/-- A set is in ascending order, whatever the order in which its numbers come. -/
theorem ascending_ofList (ids : List NodeId) : (ofList ids).Pairwise (· < ·) := by
  have kept : ∀ (ids set : List NodeId), set.Pairwise (· < ·) →
      (ids.foldl (fun set id => insert id set) set).Pairwise (· < ·) := by
    intro ids
    induction ids with
    | nil => exact fun _ ascending => ascending
    | cons first others induction =>
        exact fun set ascending => induction _ (ascending_insert first ascending)
  exact kept ids [] .nil

end NodeSet

/-- Values kept for numbers. -/
abbrev Table (α : Type) := List (NodeId × α)

namespace Table

variable {α : Type}

/-- The value kept for a number. -/
def get? (table : Table α) (id : NodeId) : Option α :=
  (table.find? (·.1 == id)).map (·.2)

/-- Changes the value kept for a number; a number that is new starts from a blank value. -/
def update (blank : α) (id : NodeId) (change : α → α) : Table α → Table α
  | [] => [(id, change blank)]
  | (other, value) :: table =>
      if id = other then
        (other, change value) :: table
      else
        (other, value) :: update blank id change table

@[simp]
theorem get?_nil (id : NodeId) : get? ([] : Table α) id = none :=
  rfl

theorem get?_cons (entry : NodeId × α) (table : Table α) (id : NodeId) :
    get? (entry :: table) id = if entry.1 = id then some entry.2 else get? table id := by
  by_cases same : entry.1 = id <;> simp [get?, same]

/-- A change is seen at its number and nowhere else. -/
@[simp]
theorem get?_update (blank : α) (id : NodeId) (change : α → α) (table : Table α)
    (other : NodeId) :
    (table.update blank id change).get? other =
      if other = id then some (change ((table.get? id).getD blank)) else table.get? other := by
  induction table with
  | nil => simp [update, get?_cons, get?_nil, eq_comm]
  | cons entry table induction =>
      rcases entry with ⟨first, value⟩
      simp only [update]
      split
      · rename_i here
        subst here
        by_cases same : id = other
        · simp [get?_cons, same]
        · simp [get?_cons, same, Ne.symm same]
      · rename_i elsewhere
        rw [get?_cons, get?_cons, get?_cons, induction, if_neg (Ne.symm elsewhere)]
        by_cases same : other = id
        · rw [if_pos same, if_neg (same ▸ Ne.symm elsewhere), if_pos same]
        · rw [if_neg same, if_neg same]

/-- A table of lists that entries add to keeps, for a number, what its own entries add. -/
theorem getD_get?_foldl_append {β : Type} (key : β → NodeId) (added : β → List α)
    (entries : List β) (table : Table (List α)) (id : NodeId) :
    ((entries.foldl (fun table entry => table.update [] (key entry) (· ++ added entry))
        table).get? id).getD [] =
      (table.get? id).getD [] ++ (entries.filter (key · == id)).flatMap added := by
  induction entries generalizing table with
  | nil => simp
  | cons entry others induction =>
      rw [List.foldl_cons, induction, get?_update, List.filter_cons]
      by_cases here : key entry = id
      · simp [here]
      · have elsewhere : ¬ (key entry == id) = true := by simpa using here
        rw [if_neg (Ne.symm here), if_neg elsewhere]

/-- The numbers for which a table keeps a value. -/
def ids (table : Table α) : List NodeId :=
  table.map (·.1)

theorem mem_ids_update {blank : α} {id other : NodeId} {change : α → α} {table : Table α}
    (member : other ∈ ids (table.update blank id change)) : other = id ∨ other ∈ table.ids := by
  induction table with
  | nil => simpa [update, ids] using member
  | cons entry table induction =>
      simp only [update] at member
      split at member
      · exact .inr member
      · rcases List.mem_cons.mp member with rfl | later
        · exact .inr List.mem_cons_self
        · exact (induction later).imp_right (List.mem_cons_of_mem _)

/-- A change to a table makes an entry only where there is none. -/
theorem nodup_update (blank : α) (id : NodeId) (change : α → α) {table : Table α}
    (nodup : table.ids.Nodup) : (ids (table.update blank id change)).Nodup := by
  induction table with
  | nil => simp [update, ids]
  | cons entry table induction =>
      obtain ⟨fresh, others⟩ := List.nodup_cons.mp nodup
      simp only [update]
      split
      · exact nodup
      · rename_i elsewhere
        refine List.nodup_cons.mpr ⟨fun member => ?_, induction others⟩
        rcases mem_ids_update member with same | old
        · exact elsewhere same.symm
        · exact fresh old

/-- In a table that keeps one value for each number, the entries are what is looked up. -/
theorem mem_iff_get? {table : Table α} (nodup : table.ids.Nodup) {id : NodeId} {value : α} :
    (id, value) ∈ table ↔ table.get? id = some value := by
  induction table with
  | nil => simp
  | cons entry table induction =>
      obtain ⟨fresh, others⟩ := List.nodup_cons.mp nodup
      rw [get?_cons, List.mem_cons]
      split
      · rename_i same
        subst same
        have notBehind : (entry.1, value) ∉ table :=
          fun behind => fresh (List.mem_map.mpr ⟨_, behind, rfl⟩)
        simp [notBehind, Prod.ext_iff, eq_comm]
      · rename_i other
        rw [induction others]
        simp [Prod.ext_iff, Ne.symm other]

end Table

end NodeMaterial
