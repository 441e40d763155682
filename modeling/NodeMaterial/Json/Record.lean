import NodeMaterial.Json.Reader

/-!
# Reading records

A record is read from an object, whose members may stand in any order, or from
an array that lists the fields in their declared order.  Reading goes from left
to right and stops at the first problem.

* A member that no field is named for is skipped.
* A field may be given once.  A second member of its name is refused before its
  value is looked at.
* A field that is not required keeps the value of the blank record when it is
  not given; an array may leave out such fields at its end.
* An array with more items than there are fields is malformed.
-/

namespace NodeMaterial.Json

/-- A field of a record: its name, whether it must be given, and how a value is stored. -/
structure RecordField (α : Type) where
  name : String
  required : Bool
  store : Draft → α → Except Fault α

/-- A read value, or the fault in front of it. -/
abbrev Read (α : Type) := Except Fault α

namespace Draft

/-- A string without unpaired surrogates. -/
def readText : Draft → Read String
  | .string (some text) => .ok text
  | draft => .error draft.mismatch

def readFlag : Draft → Read Bool
  | .bool flag => .ok flag
  | draft => .error draft.mismatch

/-- A number that is in range. -/
def readNumber : Draft → Read Binary64
  | .number _ (some double) => .ok double
  | draft => .error draft.mismatch

/-- A value or `null`. -/
def readOptional {α : Type} (read : Draft → Read α) : Draft → Read (Option α)
  | .null => .ok none
  | draft => some <$> read draft

/-- Items read one after the other. -/
def readItems {α : Type} (read : Draft → Read α) : List Draft → Read (List α)
  | [] => .ok []
  | item :: others =>
      match read item with
      | .error fault => .error fault
      | .ok value => (value :: ·) <$> readItems read others

/-- A result that stands only if the container around it is closed. -/
def closing {α : Type} (ending : Ending) (value : α) : Read α :=
  match ending.fault? with
  | some fault => .error fault
  | none => .ok value

/-- An array of any number of items. -/
def readList {α : Type} (read : Draft → Read α) : Draft → Read (List α)
  | .array items ending =>
      match readItems read items with
      | .error fault => .error fault
      | .ok values => closing ending values
  | draft => .error draft.mismatch

/-- The fields of a record from the items of an array. -/
def readInOrder {α : Type} :
    List (RecordField α) → List Draft → Ending → α → Read α
  | [], [], ending, record => closing ending record
  | [], _ :: _, _, _ => .error .malformed
  | field :: fields, [], ending, record =>
      match ending.fault? with
      | some fault => .error fault
      | none =>
          if field.required then
            .error .mismatched
          else
            readInOrder fields [] ending record
  | field :: fields, item :: items, ending, record =>
      match field.store item record with
      | .error fault => .error fault
      | .ok record => readInOrder fields items ending record

/-- The fields of a record from the members of an object; `given` lists the names read so far. -/
def readByName {α : Type} (fields : List (RecordField α)) :
    List (Option String × Draft) → List String → α → Read (List String × α)
  | [], given, record => .ok (given, record)
  | (none, _) :: _, _, _ => .error .malformed
  | (some key, draft) :: members, given, record =>
      match fields.find? (·.name == key) with
      | none =>
          match draft.skipFault? with
          | some fault => .error fault
          | none => readByName fields members given record
      | some field =>
          if given.contains key then
            .error .mismatched
          else
            match field.store draft record with
            | .error fault => .error fault
            | .ok record => readByName fields members (key :: given) record

/-- Whether every required field is among the names given. -/
def coversRequired {α : Type} (fields : List (RecordField α)) (given : List String) : Bool :=
  fields.all fun field => !field.required || given.contains field.name

/-- A record with the given fields, on top of a blank one. -/
def readRecord {α : Type} (fields : List (RecordField α)) (blank : α) : Draft → Read α
  | .object members ending =>
      match readByName fields members [] blank with
      | .error fault => .error fault
      | .ok (given, record) =>
          match closing ending record with
          | .error fault => .error fault
          | .ok record => if coversRequired fields given then .ok record else .error .mismatched
  | .array items ending => readInOrder fields items ending blank
  | draft => .error draft.mismatch

end Draft

namespace RecordField

/-- A field that has to be given. -/
def need {α β : Type} (name : String) (read : Draft → Read β) (set : β → α → α) : RecordField α :=
  ⟨name, true, fun draft record => (set · record) <$> read draft⟩

/-- A field that may be left out. -/
def allow {α β : Type} (name : String) (read : Draft → Read β) (set : β → α → α) : RecordField α :=
  ⟨name, false, fun draft record => (set · record) <$> read draft⟩

end RecordField

/-- A whole text that holds one value and nothing but blanks around it. -/
def readText {α : Type} (format : NumberFormat) (read : Draft → Read α) (text : String) :
    Read α :=
  let (draft, rest) := Draft.ofText format text.toList
  match read draft with
  | .error fault => .error fault
  | .ok value =>
      match rest with
      | some rest => if (skipBlanks rest).isEmpty then .ok value else .error .malformed
      | none => .error .malformed

end NodeMaterial.Json
