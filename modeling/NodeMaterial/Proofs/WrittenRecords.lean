import Mathlib.Data.List.Nodup
import NodeMaterial.Proofs.JsonText

/-!
# Written records are read back

A record is written as an object whose members follow the declared order of its
fields and may leave out fields that are not required.  `Written` says, field by
field, how such members build the record up from a blank one, and reading the
object gives that record (`Written.readRecord_eq`).
-/

namespace NodeMaterial.Json

variable {format : NumberFormat}

/-! ## Scalars and lists -/

namespace Draft

theorem readText_draft (text : String) : readText ((Value.string text).draft format) = .ok text :=
  rfl

theorem readFlag_draft (flag : Bool) : readFlag ((Value.bool flag).draft format) = .ok flag :=
  rfl

theorem readNumber_draft {double : Binary64} (finite : double.isFinite = true) :
    readNumber ((Value.number double).draft format) = .ok double := by
  rw [Value.draft, if_pos finite]
  rfl

variable {α : Type} {read : Draft → Read α} {json : α → Value} {contents : List α}

/-- Items are read back one by one. -/
theorem readItems_map
    (reads : ∀ content ∈ contents, read ((json content).draft format) = .ok content) :
    readItems read (Value.itemDrafts format (contents.map json)) = .ok contents := by
  induction contents with
  | nil => rfl
  | cons content others remaining =>
      obtain ⟨first, behind⟩ := List.forall_mem_cons.1 reads
      simp only [List.map_cons, Value.itemDrafts, readItems, first, remaining behind]
      rfl

theorem readList_map
    (reads : ∀ content ∈ contents, read ((json content).draft format) = .ok content) :
    readList read ((Value.array (contents.map json)).draft format) = .ok contents := by
  simp only [Value.draft, readList, readItems_map reads]
  rfl

end Draft

/-! ## Records -/

/--
Members that are written for some fields of a record, in the order of the fields.
Stored one after the other they lead from the first record to the second.
-/
inductive Written {α : Type} (format : NumberFormat) :
    List (RecordField α) → List (String × Value) → α → α → Prop where
  | nil (record : α) : Written format [] [] record record
  | member {field : RecordField α} {fields : List (RecordField α)} {value : Value}
      {members : List (String × Value)} {record next final : α}
      (stored : field.store (value.draft format) record = .ok next)
      (others : Written format fields members next final) :
      Written format (field :: fields) ((field.name, value) :: members) record final
  | leftOut {field : RecordField α} {fields : List (RecordField α)}
      {members : List (String × Value)} {record final : α}
      (allowed : field.required = false)
      (others : Written format fields members record final) :
      Written format (field :: fields) members record final

namespace Written

variable {α β : Type} {name : String} {set : β → α → α} {fields : List (RecordField α)}
  {members : List (String × Value)} {record final : α}

/-- A field that must be there is read back where it was written. -/
theorem need {read : Draft → Read β} {value : Value} {content : β}
    (reads : read (value.draft format) = .ok content)
    (others : Written format fields members (set content record) final) :
    Written format (.need name read set :: fields) ((name, value) :: members) record final :=
  .member (by simp [RecordField.need, reads]) others

theorem allow {read : Draft → Read β} {value : Value} {content : β}
    (reads : read (value.draft format) = .ok content)
    (others : Written format fields members (set content record) final) :
    Written format (.allow name read set :: fields) ((name, value) :: members) record final :=
  .member (by simp [RecordField.allow, reads]) others

/-- Reading by name reaches the record that the members build up. -/
theorem readByName_eq {declared : List (RecordField α)}
    (written : Written format fields members record final)
    (found : ∀ field ∈ fields, declared.find? (·.name == field.name) = some field)
    (distinct : (fields.map (·.name)).Nodup) (given : List String)
    (fresh : ∀ field ∈ fields, field.name ∉ given) :
    ∃ names, Draft.readByName declared (Value.memberDrafts format members) given record =
        .ok (names, final) ∧ given ⊆ names ∧
      ∀ field ∈ fields, field.required = true → field.name ∈ names := by
  induction written generalizing given with
  | nil record => exact ⟨given, rfl, List.Subset.refl given, nofun⟩
  | @member field fields value members record next final stored others continued =>
      obtain ⟨foundHere, foundBehind⟩ := List.forall_mem_cons.1 found
      obtain ⟨freshHere, freshBehind⟩ := List.forall_mem_cons.1 fresh
      rw [List.map_cons, List.nodup_cons] at distinct
      obtain ⟨names, read, kept, covered⟩ := continued foundBehind distinct.2
        (field.name :: given) (by
          intro other member among
          rcases List.mem_cons.1 among with same | before
          · exact distinct.1 (same ▸ List.mem_map_of_mem member)
          · exact freshBehind other member before)
      refine ⟨names, ?_, fun _ before => kept (List.mem_cons_of_mem _ before), ?_⟩
      · simp [Value.memberDrafts, Draft.readByName, foundHere, freshHere, stored, read]
      · rw [List.forall_mem_cons]
        exact ⟨fun _ => kept List.mem_cons_self, covered⟩
  | @leftOut field fields members record final allowed others continued =>
      obtain ⟨-, foundBehind⟩ := List.forall_mem_cons.1 found
      obtain ⟨-, freshBehind⟩ := List.forall_mem_cons.1 fresh
      rw [List.map_cons, List.nodup_cons] at distinct
      obtain ⟨names, read, kept, covered⟩ :=
        continued foundBehind distinct.2 given freshBehind
      refine ⟨names, read, kept, ?_⟩
      rw [List.forall_mem_cons]
      exact ⟨fun needed => absurd needed (by simp [allowed]), covered⟩

/-- With distinct names, looking a name up gives its field. -/
theorem find?_name (distinct : (fields.map (·.name)).Nodup) :
    ∀ field ∈ fields, fields.find? (·.name == field.name) = some field := by
  induction fields with
  | nil => nofun
  | cons first others found =>
      rw [List.map_cons, List.nodup_cons] at distinct
      rw [List.forall_mem_cons]
      refine ⟨by simp, fun field member => ?_⟩
      have other : first.name ≠ field.name := fun same =>
        distinct.1 (same ▸ List.mem_map_of_mem member)
      simpa [other] using found distinct.2 field member

/-- Reading the object of the members gives the record that they build up. -/
theorem readRecord_eq (written : Written format fields members record final)
    (distinct : (fields.map (·.name)).Nodup) :
    Draft.readRecord fields record ((Value.object members).draft format) = .ok final := by
  obtain ⟨names, read, -, covered⟩ :=
    written.readByName_eq (find?_name distinct) distinct [] (by simp)
  have required : Draft.coversRequired fields names = true := by
    simpa [Draft.coversRequired, or_iff_not_imp_left] using covered
  simp [Value.draft, Draft.readRecord, read, Draft.closing, Ending.fault?, required]

end Written

end NodeMaterial.Json
