import NodeMaterial.Number.Binary64

/-!
# JSON text as far as it can be read

A `Draft` is the outline of a JSON text together with the places where the text
stops being JSON.  A reader of some record walks the draft from left to right and
stops at the first problem it meets, be it a fault of the text or a value of the
wrong shape; so the draft keeps everything in front of a fault.

A text is read in one of two ways.  Parts that matter are read *strictly*.
Parts under a key that no record knows are *skipped*: they have to be
well-formed, but unpaired surrogates, numbers out of range and any depth of
nesting pass.  `Draft.fault?` and `Draft.skipFault?` give the first fault that
the one or the other meets.
-/

namespace NodeMaterial.Json

/-- Why a text cannot be read. -/
inductive Fault where
  /-- The text ends too early. -/
  | truncated
  /-- The text is not JSON. -/
  | malformed
  /-- The text is JSON of the wrong shape. -/
  | mismatched
  deriving DecidableEq, Repr

/-- How a container ends: closed, or at a fault met when read and one met when skipped. -/
inductive Ending where
  | closed
  | broken (fault skipped : Fault)
  deriving DecidableEq, Repr

namespace Ending

/-- The fault at the end of a container that is read. -/
def fault? : Ending → Option Fault
  | .closed => none
  | .broken fault _ => some fault

/-- The fault at the end of a container that is skipped. -/
def skipFault? : Ending → Option Fault
  | .closed => none
  | .broken _ skipped => some skipped

end Ending

/--
The outline of a JSON text.  A number has the text of its numeral and the double
that it is read as, unless it is out of range.  A string without content holds
an unpaired surrogate.  `broken` stands where no value could be read.
-/
inductive Draft where
  | null
  | bool (flag : Bool)
  | number (numeral : List Char) (double : Option Binary64)
  | string (content : Option String)
  | array (items : List Draft) (ending : Ending)
  | object (members : List (Option String × Draft)) (ending : Ending)
  | broken (fault skipped : Fault)

namespace Draft

mutual

/-- The first fault of a value read strictly with at most `depth` containers inside each other. -/
def fault? (depth : Nat) : Draft → Option Fault
  | .null => none
  | .bool _ => none
  | .number _ double => if double.isSome then none else some .malformed
  | .string content => if content.isSome then none else some .malformed
  | .array items ending =>
      match depth with
      | 0 => some .malformed
      | depth + 1 => (itemsFault? depth items).or ending.fault?
  | .object members ending =>
      match depth with
      | 0 => some .malformed
      | depth + 1 => (membersFault? depth members).or ending.fault?
  | .broken fault _ => some fault

/-- The first fault of values read strictly. -/
def itemsFault? (depth : Nat) : List Draft → Option Fault
  | [] => none
  | item :: others => (fault? depth item).or (itemsFault? depth others)

/-- The first fault of object members read strictly. -/
def membersFault? (depth : Nat) : List (Option String × Draft) → Option Fault
  | [] => none
  | (key, value) :: others =>
      if key.isSome then
        (fault? depth value).or (membersFault? depth others)
      else
        some .malformed

end

mutual

/-- The first fault of a value that is skipped. -/
def skipFault? : Draft → Option Fault
  | .null => none
  | .bool _ => none
  | .number _ _ => none
  | .string _ => none
  | .array items ending => (itemsSkipFault? items).or ending.skipFault?
  | .object members ending => (membersSkipFault? members).or ending.skipFault?
  | .broken _ skipped => some skipped

/-- The first fault of values that are skipped. -/
def itemsSkipFault? : List Draft → Option Fault
  | [] => none
  | item :: others => (skipFault? item).or (itemsSkipFault? others)

/-- The first fault of object members that are skipped. -/
def membersSkipFault? : List (Option String × Draft) → Option Fault
  | [] => none
  | (_, value) :: others => (skipFault? value).or (membersSkipFault? others)

end

/--
The fault of a value that stands where another shape was wanted.  A scalar is
read to its end first, so its own fault comes before the mismatch.
-/
def mismatch : Draft → Fault
  | .null => .mismatched
  | .bool _ => .mismatched
  | .number _ double => if double.isSome then .mismatched else .malformed
  | .string content => if content.isSome then .mismatched else .malformed
  | .array _ _ => .mismatched
  | .object _ _ => .mismatched
  | .broken fault _ => fault

end Draft

end NodeMaterial.Json
